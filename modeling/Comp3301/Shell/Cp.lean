import Comp3301.Shell.Files

/-!
# The shell: copying a file

`cp` of `a0/shell.c`. `read` and `write` move as many bytes as they like (`Pattern`): the loop goes
on until `read` finds nothing more, and for each piece until `write` has accepted all of it.

However the bytes are moved, both loops come to their end, and what `write` has accepted is what
`read` has returned, which is the whole source (`copyLoop_transfers`).
-/

namespace Comp3301.Shell

open Comp3301.Lib

/-! ## The system calls -/

/-- How many bytes the calls of `read` and `write` move at most, call by call; `none` is a call that
fails. -/
structure Pattern where
  reads : ℕ → Option ℕ
  writes : ℕ → Option ℕ

/-- The two files while they are copied: what has not been read, what `read` has returned and what
`write` has accepted so far, and the number of calls. -/
structure Copy where
  unread : List UInt8
  returned : List UInt8
  accepted : List UInt8
  reads : ℕ
  writes : ℕ

/-- `read` has returned `got`. -/
def Copy.pull (s : Copy) (got : List UInt8) : Copy :=
  { s with
    unread := s.unread.drop got.length
    returned := s.returned ++ got
    reads := s.reads + 1 }

/-- `write` has accepted `got`. -/
def Copy.push (s : Copy) (got : List UInt8) : Copy :=
  { s with accepted := s.accepted ++ got, writes := s.writes + 1 }

/-- `read (sfd, buffer, BUF_SIZE)`. The result is `none` for -1. -/
def read (p : Pattern) (buffer : Block UInt8) (s : Copy) :
    Option (Option ℕ × Block UInt8 × Copy) :=
  match p.reads s.reads with
  | none => some (none, buffer, { s with reads := s.reads + 1 })
  | some n => do
      let got := s.unread.take (min n bufSize)
      let buffer ← buffer.write got
      some (some got.length, buffer, s.pull got)

/-- `write (dfd, bufferptr, count)`. The result is `none` for -1. -/
def write (p : Pattern) (buffer : Block UInt8) (bufferptr count : ℕ) (s : Copy) :
    Option (Option ℕ × Copy) :=
  if bufferptr + count ≤ buffer.size then
    match p.writes s.writes with
    | none => some (none, { s with writes := s.writes + 1 })
    | some n =>
        some (some (min n count), s.push (slice buffer.cell bufferptr (min n count)))
  else none

/-! ## The loops -/

/-- A round of `while (numread > 0)`, in which `write` never accepts more than it is given. -/
def writeRound (p : Pattern) (buffer : Block UInt8) :
    ℕ × ℕ × Copy → Option ((ℕ × ℕ × Copy) ⊕ (Outcome × Copy))
  | (numread, bufferptr, s) =>
      if 0 < numread then do
        let (result, s) ← write p buffer bufferptr numread s
        match result with
        | none => some (.inr (.perror "write", s))
        | some numwritten => some (.inl (numread - numwritten, bufferptr + numwritten, s))
      else some (.inr (.done, s))

/-- A round of `while (1)`. The loop in it is given `fuel` rounds. -/
def copyRound (p : Pattern) (fuel : ℕ) :
    Block UInt8 × Copy → Option ((Block UInt8 × Copy) ⊕ (Outcome × Copy))
  | (buffer, s) => do
      let (result, buffer, s) ← read p buffer s
      match result with
      | none => some (.inr (.perror "read", s))
      | some numread =>
          if numread = 0 then some (.inr (.done, s)) else do
            let (outcome, s) ← loopFor (writeRound p buffer) fuel (numread, 0, s)
            if outcome = .done then some (.inl (buffer, s)) else some (.inr (outcome, s))

/-- The copy loop, for at most `fuel` rounds. -/
def copyLoop (p : Pattern) (fuel : ℕ) (buffer : Block UInt8) (s : Copy) : Option (Outcome × Copy) :=
  loopFor (copyRound p fuel) fuel (buffer, s)

/-- What `cp` finds: whether the files can be opened and closed, the contents of the source and what
`lstat` says about it. -/
structure CpCalls where
  openSource : Bool
  source : List UInt8
  lstat : Option Stat
  openDest : Bool
  pattern : Pattern
  closeSource : Bool
  closeDest : Bool

/-- `cp`: how it ends, and what is in the destination if it has been opened. -/
def cp (fuel : ℕ) (calls : CpCalls) (buffer : ℕ → UInt8) (count : ℤ) :
    Option (Outcome × Option (List UInt8)) :=
  if 3 < count then some (.message "too many arguments", none)
  else if count < 3 then some (.message "too few arguments", none)
  else if !calls.openSource then some (.perror "open", none)
  else match calls.lstat with
    | none => some (.perror "lstat", none)
    | some sfstat =>
        if sfstat.type ≠ sIfreg then some (.message "source is not regular file", none)
        else if !calls.openDest then some (.perror "open", none)
        else do
          let (outcome, s) ←
            copyLoop calls.pattern fuel ⟨bufSize, buffer⟩ ⟨calls.source, [], [], 0, 0⟩
          if outcome ≠ .done then some (outcome, some s.accepted)
          else if !calls.closeSource then some (.perror "close", some s.accepted)
          else if !calls.closeDest then some (.perror "close", some s.accepted)
          else some (.done, some s.accepted)

/-! ## The loop transfers the source -/

/-- Each call moves at least one byte, if there is one to be moved. -/
structure Pattern.Moves (p : Pattern) : Prop where
  reads : ∀ i, ∃ n, p.reads i = some n ∧ 0 < n
  writes : ∀ i, ∃ n, p.writes i = some n ∧ 0 < n

section transfer

variable {p : Pattern} {buffer : Block UInt8}

/-- The invariant of the inner loop: what is accepted in the end is what was accepted when it
started, and the piece `piece`. -/
structure Writing (buffer : Block UInt8) (s₀ : Copy) (piece : List UInt8)
    (state : ℕ × ℕ × Copy) : Prop where
  room : state.2.1 + state.1 ≤ buffer.size
  unread : state.2.2.unread = s₀.unread
  returned : state.2.2.returned = s₀.returned
  accepted : state.2.2.accepted ++ slice buffer.cell state.2.1 state.1 = s₀.accepted ++ piece

/-- A piece has been written. -/
structure Written (s₀ : Copy) (piece : List UInt8) (r : Outcome × Copy) : Prop where
  outcome : r.1 = .done
  unread : r.2.unread = s₀.unread
  returned : r.2.returned = s₀.returned
  accepted : r.2.accepted = s₀.accepted ++ piece

/-- One call of `write`. -/
lemma writeRound_advances (hp : p.Moves) {s₀ : Copy} {piece : List UInt8} (state : ℕ × ℕ × Copy)
    (h : Writing buffer s₀ piece state) :
    Advances (writeRound p buffer) (Writing buffer s₀ piece) (fun state => state.1)
      (Written s₀ piece) state := by
  obtain ⟨numread, bufferptr, s⟩ := state
  have haccepted := h.accepted
  simp only at haccepted
  by_cases hpos : 0 < numread
  · obtain ⟨n, hn, hn'⟩ := hp.writes s.writes
    have hround : writeRound p buffer (numread, bufferptr, s) =
        some (.inl (numread - min n numread, bufferptr + min n numread,
          s.push (slice buffer.cell bufferptr (min n numread)))) := by
      rw [writeRound, if_pos hpos, write, if_pos h.room, hn]
      rfl
    refine Or.inl ⟨_, hround, ⟨?_, h.unread, h.returned, ?_⟩, ?_⟩
    · have hroom : bufferptr + numread ≤ buffer.size := h.room
      simp only
      omega
    · simp only [Copy.push]
      rw [List.append_assoc, ← slice_add, Nat.add_sub_cancel' (min_le_right n numread), haccepted]
    · have hmin : 0 < min n numread := lt_min hn' hpos
      simp only
      omega
  · obtain rfl : numread = 0 := Nat.eq_zero_of_not_pos hpos
    have hround : writeRound p buffer (0, bufferptr, s) = some (.inr (.done, s)) := rfl
    refine Or.inr ⟨(.done, s), hround, rfl, h.unread, h.returned, ?_⟩
    simpa [slice] using haccepted

/-- A piece is written whole. -/
lemma writeLoop_spec (hp : p.Moves) (s : Copy) {piece : List UInt8}
    (hsize : piece.length ≤ buffer.size) {fuel : ℕ} (hfuel : piece.length < fuel) :
    ∃ r, loopFor (writeRound p (buffer.written piece)) fuel (piece.length, 0, s) = some r ∧
      Written s piece r := by
  have hslice : slice (buffer.written piece).cell 0 piece.length = piece := by
    apply slice_eq_of_getElem
    intro k hk
    rw [Nat.zero_add, Block.written_cell_of_lt hk]
  refine loopFor_total (writeRound_advances hp) ⟨?_, rfl, rfl, ?_⟩ hfuel
  · rw [Nat.zero_add]
    exact hsize
  · simp only
    rw [hslice]

/-- The invariant of the outer loop. -/
structure Copying (source : List UInt8) (state : Block UInt8 × Copy) : Prop where
  size : state.1.size = bufSize
  returned : state.2.returned ++ state.2.unread = source
  accepted : state.2.accepted = state.2.returned

/-- The source has been copied. -/
structure Copied (source : List UInt8) (r : Outcome × Copy) : Prop where
  outcome : r.1 = .done
  returned : r.2.returned = source
  accepted : r.2.accepted = r.2.returned

/-- One call of `read`. -/
lemma read_spec (hp : p.Moves) {s : Copy} (hsize : buffer.size = bufSize) :
    ∃ piece rest, read p buffer s = some (some piece.length, buffer.written piece, s.pull piece) ∧
      s.unread = piece ++ rest ∧ piece.length ≤ bufSize ∧ (piece = [] ↔ s.unread = []) := by
  obtain ⟨n, hn, hpos⟩ := hp.reads s.reads
  have hlen : (s.unread.take (min n bufSize)).length ≤ bufSize :=
    (List.length_take_le _ _).trans (min_le_right n bufSize)
  refine ⟨s.unread.take (min n bufSize), s.unread.drop (min n bufSize), ?_,
    (List.take_append_drop _ _).symm, hlen, ?_⟩
  · rw [read, hn]
    simp only [Block.write_eq (hlen.trans hsize.ge), Option.bind_eq_bind, Option.bind_some]
  · have hmin : min n bufSize ≠ 0 := (lt_min hpos (by decide)).ne'
    rw [List.take_eq_nil_iff]
    exact or_iff_right hmin

/-- Reading a piece and writing it. -/
lemma copyRound_advances (hp : p.Moves) {source : List UInt8} {fuel : ℕ} (hfuel : bufSize < fuel)
    (state : Block UInt8 × Copy) (h : Copying source state) :
    Advances (copyRound p fuel) (Copying source) (fun state => state.2.unread.length)
      (Copied source) state := by
  obtain ⟨buffer, s⟩ := state
  have hreturned := h.returned
  simp only at hreturned
  obtain ⟨piece, rest, hread, hsplit, hlen, hnil⟩ := read_spec (s := s) hp h.size
  by_cases hend : piece = []
  · -- nothing is left: the loop ends
    have hround : copyRound p fuel (buffer, s) = some (.inr (.done, s.pull [])) := by
      rw [copyRound, hread, hend]
      rfl
    refine Or.inr ⟨_, hround, rfl, ?_, ?_⟩
    · simpa [Copy.pull, hnil.mp hend] using hreturned
    · simpa [Copy.pull] using h.accepted
  · have hpos : 0 < piece.length := List.length_pos_of_ne_nil hend
    obtain ⟨⟨outcome, s'⟩, hloop, hw⟩ :=
      writeLoop_spec hp (s.pull piece) (hlen.trans h.size.ge) (hlen.trans_lt hfuel)
    obtain rfl : outcome = .done := hw.outcome
    have hround : copyRound p fuel (buffer, s) = some (.inl (buffer.written piece, s')) := by
      rw [copyRound, hread]
      simp only [Option.bind_eq_bind, Option.bind_some, if_neg hpos.ne', hloop, if_true]
    have hunread : s'.unread = rest := by
      rw [hw.unread, Copy.pull, hsplit]
      exact List.drop_left
    refine Or.inl ⟨_, hround, ⟨h.size, ?_, ?_⟩, ?_⟩
    · calc s'.returned ++ s'.unread = (s.returned ++ piece) ++ rest := by
            rw [hw.returned, hunread, Copy.pull]
        _ = source := by rw [List.append_assoc, ← hsplit, hreturned]
    · calc s'.accepted = s.accepted ++ piece := hw.accepted
        _ = s.returned ++ piece := congrArg (· ++ piece) h.accepted
        _ = s'.returned := hw.returned.symm
    · simp only
      rw [hunread, hsplit, List.length_append]
      exact Nat.lt_add_of_pos_left hpos

/-- With enough rounds for both loops the source is copied. -/
lemma copyLoop_spec (hp : p.Moves) (source : List UInt8) (buffer : ℕ → UInt8) {fuel : ℕ}
    (hfuel : max bufSize source.length < fuel) :
    ∃ s, copyLoop p fuel ⟨bufSize, buffer⟩ ⟨source, [], [], 0, 0⟩ = some (.done, s) ∧
      s.accepted = s.returned ∧ s.returned = source := by
  have hinner : bufSize < fuel := (le_max_left bufSize source.length).trans_lt hfuel
  have houter : source.length < fuel := (le_max_right bufSize source.length).trans_lt hfuel
  have hstart : Copying source (⟨bufSize, buffer⟩, ⟨source, [], [], 0, 0⟩) := ⟨rfl, rfl, rfl⟩
  obtain ⟨⟨outcome, s⟩, hloop, h⟩ := loopFor_total (copyRound_advances hp hinner) hstart houter
  obtain rfl : outcome = .done := h.outcome
  exact ⟨s, hloop, h.accepted, h.returned⟩

end transfer

/-- What `cp` finds if nothing goes wrong before the loop and after it. -/
structure CpCalls.Succeed (calls : CpCalls) : Prop where
  openSource : calls.openSource = true
  regular : ∃ st, calls.lstat = some st ∧ st.type = sIfreg
  openDest : calls.openDest = true
  moves : calls.pattern.Moves
  closeSource : calls.closeSource = true
  closeDest : calls.closeDest = true

/-- Then the destination holds the source in the end. -/
lemma cp_copies {calls : CpCalls} (h : calls.Succeed) (buffer : ℕ → UInt8) {fuel : ℕ}
    (hfuel : max bufSize calls.source.length < fuel) :
    cp fuel calls buffer 3 = some (.done, some calls.source) := by
  obtain ⟨s, hloop, haccepted, hreturned⟩ := copyLoop_spec h.moves calls.source buffer hfuel
  obtain ⟨st, hlstat, hregular⟩ := h.regular
  unfold cp
  rw [hlstat]
  simp [h.openSource, h.openDest, h.closeSource, h.closeDest, hregular, hloop, haccepted, hreturned]

/-- **The copy loop transfers the stream exactly.** However few bytes each `read` and each `write`
moves, the loop comes to its end, `write` has accepted what `read` has returned, and this is the
source. -/
theorem copyLoop_transfers {p : Pattern} (hp : p.Moves) (source : List UInt8)
    (buffer : ℕ → UInt8) :
    ∃ n, ∀ fuel ≥ n, ∃ s, copyLoop p fuel ⟨bufSize, buffer⟩ ⟨source, [], [], 0, 0⟩ =
      some (.done, s) ∧ s.accepted = s.returned ∧ s.returned = source :=
  ⟨max bufSize source.length + 1, fun _ hfuel => copyLoop_spec hp source buffer hfuel⟩

/-- One byte at a time. -/
def oneByOne : Pattern := ⟨fun _ => some 1, fun _ => some 1⟩

/-- One byte at a time, from a source of three bytes. -/
theorem copyLoop_transfers_abc :
    ∃ n, ∀ fuel ≥ n, ∃ s,
      copyLoop oneByOne fuel ⟨bufSize, fun _ => 0⟩ ⟨[97, 98, 99], [], [], 0, 0⟩ = some (.done, s) ∧
        s.accepted = s.returned ∧ s.returned = [97, 98, 99] :=
  copyLoop_transfers ⟨fun _ => ⟨1, rfl, one_pos⟩, fun _ => ⟨1, rfl, one_pos⟩⟩ _ _

end Comp3301.Shell
