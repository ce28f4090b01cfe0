import Comp3301.Shell.Independence

/-!
# The shell: over-long lines

A line that fills the array is read on in `extra`, once: what is reported as too long and thrown
away is a piece of at most `pieceLen` characters.

* `Skipped` says which lines a round throws a piece of away (`round_skip`, `skipped_of_round`).
* So a line is thrown away whole, and the next line is the one behind it, exactly if its last piece
  does not fit the array and no zero is found where `strlen` looks for one; and if it is the last
  line of the stream, the array still holds a piece of it, which is taken for the next line
  (`discardedWhole_iff`).
-/

namespace Comp3301.Shell

open Comp3301.Lib

/-! ## Arrays keep their sizes -/

lemma size_of_strcpy {m m' : Block UInt8} {xs : List UInt8} (h : strcpy m xs = some m') :
    m'.size = m.size := by
  unfold strcpy Block.write at h
  split_ifs at h
  cases h
  rfl

lemma size_of_takeToken {dst dst' : Block UInt8} {count count' : ℤ} {ts rest : List (List UInt8)}
    (h : takeToken dst count ts = some (dst', count', rest)) : dst'.size = dst.size := by
  cases ts with
  | nil =>
      cases h
      rfl
  | cons t ts =>
      rw [takeToken, Option.bind_eq_bind, Option.bind_eq_some_iff] at h
      obtain ⟨m, hcpy, hres⟩ := h
      cases hres
      exact size_of_strcpy hcpy

lemma Vars.Sized.parseline {l : List UInt8} {v v' : Vars} (hv : v.Sized)
    (h : parseline l v = some v') : v'.Sized := by
  simp only [Shell.parseline, Option.bind_eq_bind, Option.bind_eq_some_iff] at h
  obtain ⟨⟨command, n₁, ts₁⟩, h₁, ⟨arg1, n₂, ts₂⟩, h₂, ⟨arg2, n₃, ts₃⟩, h₃, hres⟩ := h
  cases hres
  exact ⟨(size_of_takeToken h₁).trans hv.command, (size_of_takeToken h₂).trans hv.arg1,
    (size_of_takeToken h₃).trans hv.arg2⟩

lemma Vars.Sized.clear {v v' : Vars} (hv : v.Sized) (h : clear v = some v') : v'.Sized := by
  simp only [Shell.clear, Option.bind_eq_bind, Option.bind_eq_some_iff] at h
  obtain ⟨command, h₁, arg1, h₂, arg2, h₃, hres⟩ := h
  cases hres
  exact ⟨(size_of_strcpy h₁).trans hv.command, (size_of_strcpy h₂).trans hv.arg1,
    (size_of_strcpy h₃).trans hv.arg2⟩

lemma size_of_fgets {m m' : Block UInt8} {n : ℕ} {stdin stdin' : Stdin}
    (h : fgets m n stdin = some (m', stdin')) : m'.size = m.size := by
  unfold fgets at h
  simp only at h
  split_ifs at h
  · cases h
    rfl
  · rw [Option.bind_eq_bind, Option.bind_eq_some_iff] at h
    obtain ⟨m₁, hwrite, hres⟩ := h
    cases hres
    unfold Block.write at hwrite
    split_ifs at hwrite
    cases hwrite
    rfl

lemma size_of_chomp {m m' : Block UInt8} {len : ℕ} (h : chomp m len = some m') :
    m'.size = m.size := by
  rw [chomp, Option.bind_eq_bind, Option.bind_eq_some_iff] at h
  obtain ⟨last, -, h⟩ := h
  split_ifs at h
  · unfold Block.store at h
    split_ifs at h
    cases h
    rfl
  · cases h
    rfl

/-- What `fgets` leaves of the stream. -/
lemma stdin_of_fgets {m m' : Block UInt8} {n : ℕ} {stdin stdin' : Stdin}
    (h : fgets m n stdin = some (m', stdin')) :
    stdin' = ⟨stdin.rest.drop (takeLine (n - 1) stdin.rest).length, stdin.eof ||
      decide ((takeLine (n - 1) stdin.rest).length < n - 1 ∧
        (takeLine (n - 1) stdin.rest).getLast? ≠ some newline)⟩ := by
  unfold fgets at h
  simp only at h
  split_ifs at h
  · cases h
    rfl
  · rw [Option.bind_eq_bind, Option.bind_eq_some_iff] at h
    obtain ⟨m₁, -, hres⟩ := h
    cases hres
    rfl

/-- What is dispatched is the string in the array, and the array stays as it is. -/
lemma line_of_dispatch {line : Block UInt8} {stdin : Stdin} {v : Vars} {o : Option Dispatch}
    {s' : State} (h : dispatch line stdin v = some (.next o s')) :
    s'.line = line ∧ o.map Dispatch.line = cstring line := by
  rw [dispatch, Option.bind_eq_bind, Option.bind_eq_some_iff] at h
  obtain ⟨text, htext, h⟩ := h
  rw [Option.bind_eq_bind, Option.bind_eq_some_iff] at h
  obtain ⟨vars, -, h⟩ := h
  split_ifs at h with heof
  · cases h
  · simp only [Option.bind_some] at h
    split_ifs at h with hempty
    · cases h
      exact ⟨rfl, htext.symm⟩
    · rw [Option.bind_eq_some_iff] at h
      obtain ⟨cleared, -, hres⟩ := h
      cases hres
      exact ⟨rfl, htext.symm⟩

/-- The arrays of the loop have their size. -/
def State.Sized (s : State) : Prop := s.line.size = maxChar ∧ s.vars.Sized

lemma State.Sized.round {extra : Block UInt8} {s s' : State} {o : Option Dispatch} (hs : s.Sized)
    (h : round extra s = some (.next o s')) : s'.Sized := by
  constructor
  · by_cases heof : s.stdin.eof
    · rw [Shell.round, if_pos heof] at h
      cases h
    rw [Shell.round, if_neg heof] at h
    simp only [Option.bind_eq_bind, Option.bind_eq_some_iff] at h
    obtain ⟨⟨line, stdin⟩, hfgets, len, -, ⟨skip, stdin'⟩, -, h⟩ := h
    have hline : line.size = maxChar := (size_of_fgets hfgets).trans hs.1
    split_ifs at h with hskip
    · cases h
      exact hline
    · rw [Option.bind_eq_some_iff] at h
      obtain ⟨line', hchomp, h⟩ := h
      rw [(line_of_dispatch h).1, size_of_chomp hchomp, hline]
  · rcases round_cases h with ⟨-, hvars⟩ | ⟨d, -, -, hparse, ⟨-, hvars⟩ | ⟨-, hclear⟩⟩
    · rw [hvars]
      exact hs.2
    · rw [hvars]
      exact hs.2.parseline hparse
    · exact (hs.2.parseline hparse).clear hclear

/-- In every state that is reached the arrays have their size. -/
lemma sized_of_reached {mem : Memory} {input : List UInt8} {s : State}
    (h : Reached mem input s) : s.Sized := by
  refine h.invariant ⟨rfl, rfl, rfl, rfl⟩ ?_
  rintro s extra s' - hs - ⟨o, hround⟩
  exact hs.round hround

/-! ## Reading a piece -/

/-- The characters that a round throws away at most: what fits `line`, and what fits `extra`. -/
def pieceLen : ℕ := 2 * (maxChar - 1)

lemma length_takeLine_le (n : ℕ) (input : List UInt8) : (takeLine n input).length ≤ n := by
  induction input generalizing n with
  | nil => cases n <;> exact Nat.zero_le _
  | cons c cs ih =>
      cases n with
      | zero => exact Nat.zero_le _
      | succ n =>
          rw [takeLine]
          split_ifs
          · exact Nat.succ_le_succ (Nat.zero_le n)
          · exact Nat.succ_le_succ (ih n)

lemma takeLine_isPrefix (n : ℕ) (input : List UInt8) : takeLine n input <+: input := by
  induction input generalizing n with
  | nil => cases n <;> exact List.nil_prefix
  | cons c cs ih =>
      cases n with
      | zero => exact List.nil_prefix
      | succ n =>
          rw [takeLine]
          split_ifs
          · exact List.cons_prefix_cons.mpr ⟨rfl, List.nil_prefix⟩
          · exact List.cons_prefix_cons.mpr ⟨rfl, ih n⟩

lemma takeLine_long {l : List UInt8} (hl : newline ∉ l) (rest : List UInt8) {n : ℕ}
    (hn : n ≤ l.length) : takeLine n (l ++ rest) = l.take n := by
  induction l generalizing n with
  | nil =>
      rw [Nat.le_zero.mp hn]
      rfl
  | cons c l ih =>
      cases n with
      | zero => rfl
      | succ n =>
          simp only [List.mem_cons, not_or] at hl
          rw [List.cons_append, takeLine, if_neg (Ne.symm hl.1),
            ih hl.2 (Nat.le_of_succ_le_succ hn), List.take_succ_cons]

section fgets

variable {m : Block UInt8} {l rest : List UInt8}

/-- Reading a line that fills the array. -/
lemma fgets_full (hm : m.size = maxChar) (hl : newline ∉ l) (hlong : maxChar - 1 ≤ l.length) :
    fgets m maxChar ⟨l ++ rest, false⟩ =
      some (m.written (l.take (maxChar - 1) ++ [0]), ⟨l.drop (maxChar - 1) ++ rest, false⟩) := by
  have hlen : (l.take (maxChar - 1)).length = maxChar - 1 := List.length_take_of_le hlong
  have hne : l.take (maxChar - 1) ≠ [] := by
    rw [← List.length_pos_iff, hlen]
    decide
  have hfits : (l.take (maxChar - 1) ++ [0]).length ≤ m.size := by
    rw [List.length_append, hlen, hm]
    decide
  unfold fgets
  simp only
  rw [takeLine_long hl rest hlong, hlen, if_neg hne, Block.write_eq hfits,
    List.drop_append_of_le_length hlong]
  simp

end fgets

/-! ## What is thrown away -/

/-- What `strlen (extra)` and `extra[0]` say about a piece of a line that has been read into
`extra`. -/
lemma tooLong_eq {extra line : Block UInt8} {stdin stdin' : Stdin} {c : UInt8} {xs : List UInt8}
    (hline : line.cell (maxChar - 2) ≠ newline) (heof : stdin.eof = false)
    (hsize : (c :: xs).length < extra.size) (hend : c = newline → xs = [])
    (hfgets : fgets extra maxChar stdin = some (extra.written (c :: xs ++ [0]), stdin')) :
    tooLong extra line (maxChar - 1) stdin = some (decide (c ≠ 0 ∧ c ≠ newline), stdin') := by
  have hholds := holdsString_takeWhile (m := extra) hsize
  have hcell : (extra.written (c :: xs ++ [0])).cell 0 = c :=
    Block.written_cell_of_lt (Nat.zero_lt_succ _)
  unfold tooLong
  rw [if_pos ⟨rfl, hline, heof⟩]
  simp only [hfgets, Option.bind_eq_bind, Option.bind_some, hholds.strlen_eq, hcell]
  by_cases hzero : c = 0
  · simp [hzero]
  · rw [List.takeWhile_cons_of_pos (by simpa using hzero)]
    by_cases hnl : c = newline
    · simp [hend hnl, hnl]
    · simp [hzero, hnl]

/-- Nothing is thrown away at the end of the stream. -/
lemma stdin_of_tooLong {extra line : Block UInt8} {len : ℕ} {stdin stdin' : Stdin}
    (h : tooLong extra line len stdin = some (true, stdin')) :
    stdin.eof = false ∧ stdin'.rest.length ≤ stdin.rest.length := by
  unfold tooLong at h
  split_ifs at h with hfull
  · simp only [Option.bind_eq_bind, Option.bind_eq_some_iff] at h
    obtain ⟨⟨extra', stdin₁⟩, hfgets, elen, -, hres⟩ := h
    obtain ⟨-, rfl⟩ := Prod.mk.inj (Option.some.inj hres)
    refine ⟨hfull.2.2, ?_⟩
    rw [stdin_of_fgets hfgets, List.length_drop]
    exact Nat.sub_le _ _
  · cases h

/-- There are more characters than fit the array, and no zero where `strlen` looks for one. -/
def Skipped (l : List UInt8) : Prop := maxChar - 1 < l.length ∧ 0 ∉ l.take maxChar

/-- In terms of what is read into the two arrays. -/
lemma skipped_iff {l : List UInt8} (hl : newline ∉ l) :
    Skipped l ↔ maxChar - 1 ≤ l.length ∧ 0 ∉ l.take (maxChar - 1) ∧
      (l.drop (maxChar - 1)).headD newline ≠ 0 ∧
        (l.drop (maxChar - 1)).headD newline ≠ newline := by
  have htake : l.take maxChar = l.take (maxChar - 1) ++ (l.drop (maxChar - 1)).take 1 := by
    rw [← List.take_add]
    rfl
  rw [Skipped, htake, List.mem_append, not_or]
  rcases hdrop : l.drop (maxChar - 1) with _ | ⟨c, cs⟩
  · have hle := List.drop_eq_nil_iff.mp hdrop
    simp [hle.not_gt]
  · have hlt : maxChar - 1 < l.length := by
      rw [← not_le, ← List.drop_eq_nil_iff, hdrop]
      exact List.cons_ne_nil c cs
    have hmem : c ∈ l := List.mem_of_mem_drop (hdrop ▸ List.mem_cons_self)
    have hne : c ≠ newline := fun hc => hl (hc ▸ hmem)
    simp [hlt, hlt.le, hne, eq_comm]

section round

variable {s : State} {l rest : List UInt8} {extra : ℕ → UInt8}

/-- A round that throws a piece away: the line fills the array, and `tooLong` says so. -/
lemma round_skip_cases {s' : State} (hs : s.stdin.eof = false)
    (h : round ⟨maxChar, extra⟩ s = some (.next none s')) :
    ∃ line stdin len, fgets s.line maxChar s.stdin = some (line, stdin) ∧ strlen line = some len ∧
      tooLong ⟨maxChar, extra⟩ line len stdin = some (true, s'.stdin) := by
  rw [round, if_neg (by simp [hs])] at h
  simp only [Option.bind_eq_bind, Option.bind_eq_some_iff] at h
  obtain ⟨⟨line, stdin⟩, hfgets, len, hlen, ⟨skip, stdin'⟩, hlong, h⟩ := h
  refine ⟨line, stdin, len, hfgets, hlen, ?_⟩
  split_ifs at h with hskip
  · cases h
    simp only at hskip hlong ⊢
    rw [hlong, hskip]
  · rw [Option.bind_eq_some_iff] at h
    obtain ⟨line', -, h⟩ := h
    obtain ⟨d, hd, -⟩ := dispatch_cases h
    cases hd

/-- What is read into `extra` when `l` is left of the line. -/
lemma fgets_extra (hl : newline ∉ l) (rest : List UInt8) (extra : ℕ → UInt8) :
    ∃ c xs, fgets ⟨maxChar, extra⟩ maxChar ⟨l ++ newline :: rest, false⟩ =
        some (Block.written ⟨maxChar, extra⟩ (c :: xs ++ [0]),
          ⟨if l.length < maxChar - 1 then rest
            else l.drop (maxChar - 1) ++ newline :: rest, false⟩) ∧
      (c :: xs).length < maxChar ∧ (c = newline → xs = []) ∧ c = l.headD newline := by
  by_cases hshort : l.length < maxChar - 1
  · rw [if_pos hshort, fgets_line rfl hl (Nat.le_pred_of_lt hshort)]
    cases l with
    | nil => exact ⟨newline, [], rfl, by decide, fun _ => rfl, rfl⟩
    | cons c l =>
        simp only [List.mem_cons, not_or] at hl
        refine ⟨c, l ++ [newline], rfl, ?_, fun hc => absurd hc.symm hl.1, rfl⟩
        simp only [List.length_cons, List.length_append, List.length_nil] at hshort ⊢
        omega
  · rw [if_neg hshort, fgets_full rfl hl (Nat.not_lt.mp hshort)]
    cases l with
    | nil => exact absurd (by decide) hshort
    | cons c l =>
        simp only [List.mem_cons, not_or] at hl
        refine ⟨c, l.take (maxChar - 2), rfl, ?_, fun hc => absurd hc.symm hl.1, rfl⟩
        rw [List.length_cons, List.length_take]
        unfold maxChar
        omega

/-- A line that fills the array and has no zero in it. -/
lemma holdsString_full {m : Block UInt8} (hm : m.size = maxChar) (hlong : maxChar - 1 ≤ l.length)
    (hzero : 0 ∉ l.take (maxChar - 1)) :
    HoldsString (m.written (l.take (maxChar - 1) ++ [0])) (l.take (maxChar - 1)) := by
  refine holdsString_written ?_ hzero
  rw [List.length_take_of_le hlong, hm]
  decide

/-- What a round does with a line that fills the array and has no zero in it: it is thrown away
unless the first character of the rest is the newline or a zero. -/
lemma tooLong_full (hsize : s.line.size = maxChar) (hl : newline ∉ l)
    (hlong : maxChar - 1 ≤ l.length) (hzero : 0 ∉ l.take (maxChar - 1)) (rest : List UInt8)
    (extra : ℕ → UInt8) :
    tooLong ⟨maxChar, extra⟩ (s.line.written (l.take (maxChar - 1) ++ [0])) (maxChar - 1)
        ⟨l.drop (maxChar - 1) ++ newline :: rest, false⟩ =
      some (decide ((l.drop (maxChar - 1)).headD newline ≠ 0 ∧
          (l.drop (maxChar - 1)).headD newline ≠ newline),
        ⟨if l.length < pieceLen then rest else l.drop pieceLen ++ newline :: rest, false⟩) := by
  have hl' : newline ∉ l.drop (maxChar - 1) := fun hmem => hl (List.mem_of_mem_drop hmem)
  have hlen : (l.take (maxChar - 1)).length = maxChar - 1 := List.length_take_of_le hlong
  have hholds := holdsString_full hsize hlong hzero
  have hcell : (s.line.written (l.take (maxChar - 1) ++ [0])).cell (maxChar - 2) ≠ newline := by
    have hlt : maxChar - 2 < (l.take (maxChar - 1)).length := by
      rw [hlen]
      decide
    rw [hholds.cell_eq hlt]
    intro heq
    exact hl (List.mem_of_mem_take (heq ▸ List.getElem_mem hlt))
  obtain ⟨c, xs, hfgets, hxs, hend, hc⟩ := fgets_extra hl' rest extra
  rw [tooLong_eq hcell rfl hxs hend hfgets, ← hc]
  have hdrop : (l.drop (maxChar - 1)).length < maxChar - 1 ↔ l.length < pieceLen := by
    rw [List.length_drop, pieceLen]
    omega
  have htwice : (l.drop (maxChar - 1)).drop (maxChar - 1) = l.drop pieceLen := by
    rw [List.drop_drop, pieceLen, two_mul]
  simp only [hdrop, htwice]

/-- A round that throws a piece away. -/
lemma round_skip (hs : s.Sized) (hstdin : s.stdin = ⟨l ++ newline :: rest, false⟩)
    (hl : newline ∉ l) (hskip : Skipped l) (extra : ℕ → UInt8) :
    ∃ s', round ⟨maxChar, extra⟩ s = some (.next none s') ∧
      s'.stdin = ⟨if l.length < pieceLen then rest else l.drop pieceLen ++ newline :: rest, false⟩ ∧
      HoldsString s'.line (l.take (maxChar - 1)) ∧ s'.Sized := by
  obtain ⟨hlong, hzero, hhead⟩ := (skipped_iff hl).mp hskip
  have hlen : (l.take (maxChar - 1)).length = maxChar - 1 := List.length_take_of_le hlong
  have hholds := holdsString_full hs.1 hlong hzero
  refine ⟨⟨_, s.line.written (l.take (maxChar - 1) ++ [0]), s.vars⟩, ?_, rfl, hholds, hs⟩
  unfold round
  rw [hstdin, if_neg (by simp), fgets_full hs.1 hl hlong]
  simp only [Option.bind_eq_bind, Option.bind_some, hholds.strlen_eq, hlen,
    tooLong_full hs.1 hl hlong hzero]
  exact if_pos (decide_eq_true hhead)

/-- No other round does. -/
lemma skipped_of_round {s' : State} (hs : s.Sized)
    (hstdin : s.stdin = ⟨l ++ newline :: rest, false⟩) (hl : newline ∉ l)
    (h : round ⟨maxChar, extra⟩ s = some (.next none s')) : Skipped l := by
  obtain ⟨line, stdin, len, hfgets, hlen, hlong⟩ := round_skip_cases (by rw [hstdin]) h
  rw [hstdin] at hfgets
  rw [skipped_iff hl]
  by_cases hshort : l.length ≤ maxChar - 2
  · -- if the array is full, its last character is the newline
    rw [fgets_line hs.1 hl hshort] at hfgets
    cases hfgets
    have hfits : (l ++ [newline]).length < s.line.size := by
      rw [hs.1, List.length_append, List.length_singleton]
      unfold maxChar at hshort ⊢
      omega
    have hstrlen := (holdsString_takeWhile hfits).strlen_eq.symm.trans hlen
    rw [tooLong_of_ne] at hlong
    · cases hlong
    · intro hfull
      have hle := (List.takeWhile_sublist (fun b : UInt8 => b ≠ 0) (l := l ++ [newline])).length_le
      rw [Option.some.inj hstrlen, hfull, List.length_append, List.length_singleton] at hle
      have hlast : maxChar - 2 = l.length := by omega
      rw [Block.written_cell_of_lt (by rw [hlast]; simp)]
      simp [hlast]
  · have hfull : maxChar - 1 ≤ l.length := by omega
    rw [fgets_full hs.1 hl hfull] at hfgets
    cases hfgets
    have htake : (l.take (maxChar - 1)).length = maxChar - 1 := List.length_take_of_le hfull
    have hfits : (l.take (maxChar - 1)).length < s.line.size := by
      rw [htake, hs.1]
      decide
    have hstrlen := (holdsString_takeWhile hfits).strlen_eq.symm.trans hlen
    by_cases hzero : 0 ∈ l.take (maxChar - 1)
    · -- a zero ends the string before the array is full
      rw [tooLong_of_ne] at hlong
      · cases hlong
      · intro hlen'
        rw [← Option.some.inj hstrlen] at hlen'
        have hself := (List.takeWhile_prefix (fun b : UInt8 => b ≠ 0)).eq_of_length
          (hlen'.trans htake.symm)
        rw [← hself] at hzero
        have hne := List.all_eq_true.mp List.all_takeWhile 0 hzero
        simp at hne
    · rw [takeWhile_eq_self hzero, htake] at hstrlen
      rw [← Option.some.inj hstrlen, tooLong_full hs.1 hl hfull hzero] at hlong
      refine ⟨hfull, hzero, ?_⟩
      exact of_decide_eq_true (congrArg Prod.fst (Option.some.inj hlong))

/-! ## What is dispatched next -/

/-- The line that a stream starts with, as far as it is read and dispatched. -/
def nextText (rest : List UInt8) : List UInt8 :=
  (takeLine (maxChar - 1) rest).takeWhile fun c => c ≠ newline ∧ c ≠ 0

/-- A newline can only be the last character of `t`. -/
def EndsLine (t : List UInt8) : Prop := newline ∉ t ∨ ∃ x, newline ∉ x ∧ t = x ++ [newline]

lemma endsLine_takeLine (n : ℕ) (input : List UInt8) : EndsLine (takeLine n input) := by
  induction input generalizing n with
  | nil => cases n <;> exact Or.inl List.not_mem_nil
  | cons c cs ih =>
      cases n with
      | zero => exact Or.inl List.not_mem_nil
      | succ n =>
          rw [takeLine]
          split_ifs with hc
          · exact Or.inr ⟨[], List.not_mem_nil, by rw [hc, List.nil_append]⟩
          · rcases ih n with hnot | ⟨x, hx, heq⟩
            · exact Or.inl (by simp [Ne.symm hc, hnot])
            · exact Or.inr ⟨c :: x, by simp [Ne.symm hc, hx], by rw [heq, List.cons_append]⟩

lemma EndsLine.of_isPrefix {t t' : List UInt8} (ht : EndsLine t) (hinit : t' <+: t) :
    EndsLine t' := by
  rcases ht with hnot | ⟨x, hx, rfl⟩
  · exact Or.inl fun hmem => hnot (hinit.subset hmem)
  · rcases List.prefix_concat_iff.mp hinit with rfl | hinit'
    · exact Or.inr ⟨x, hx, rfl⟩
    · exact Or.inl fun hmem => hx (hinit'.subset hmem)

/-- A newline at the end of the string in the array is taken away. -/
lemma chomp_spec {m m' : Block UInt8} {t : List UInt8} (ht : EndsLine t) (hm : HoldsString m t)
    (h : chomp m t.length = some m') : HoldsString m' (t.takeWhile (· ≠ newline)) := by
  rcases ht with hnot | ⟨x, hx, rfl⟩
  · have hne : t ≠ [] := by
      rintro rfl
      rw [List.length_nil, chomp_empty] at h
      cases h
    rw [chomp_of_holds hm hne hnot] at h
    cases h
    rwa [List.takeWhile_eq_self_iff.mpr fun c hc => by simpa using ne_of_mem_of_not_mem hc hnot]
  · obtain ⟨m₁, hchomp, hholds, -⟩ := chomp_line hm
    rw [List.length_append, List.length_singleton, hchomp] at h
    cases h
    rwa [List.takeWhile_append_of_pos fun c hc => by simpa using ne_of_mem_of_not_mem hc hx,
      List.takeWhile_cons_of_neg (by simp), List.append_nil]

/-- What is dispatched is the line that is next in the stream, if there is one. -/
lemma round_text {d : Dispatch} {s' : State} (hs : s.Sized) (hstdin : s.stdin = ⟨rest, false⟩)
    (hne : rest ≠ []) (h : round ⟨maxChar, extra⟩ s = some (.next (some d) s')) :
    d.line = nextText rest := by
  have hgot : takeLine (maxChar - 1) rest ≠ [] := by
    obtain ⟨c, cs, rfl⟩ := List.exists_cons_of_ne_nil hne
    rw [show maxChar - 1 = 1022 + 1 from rfl, takeLine]
    split_ifs <;> exact List.cons_ne_nil _ _
  have hle := length_takeLine_le (maxChar - 1) rest
  have hfits : (takeLine (maxChar - 1) rest).length < s.line.size := by
    rw [hs.1]
    exact hle.trans_lt (by decide)
  have hwrite : s.line.write (takeLine (maxChar - 1) rest ++ [0]) =
      some (s.line.written (takeLine (maxChar - 1) rest ++ [0])) :=
    Block.write_eq (by rw [List.length_append]; exact hfits)
  have hholds := holdsString_takeWhile hfits
  rw [round, hstdin, if_neg (by simp), fgets] at h
  simp only [if_neg hgot, hwrite, Option.bind_eq_bind, Option.bind_some, hholds.strlen_eq,
    Option.bind_eq_some_iff] at h
  obtain ⟨⟨skip, stdin'⟩, -, h⟩ := h
  split_ifs at h with hskip
  · cases h
  · rw [Option.bind_eq_some_iff] at h
    obtain ⟨line', hchomp, h⟩ := h
    have hends := (endsLine_takeLine (maxChar - 1) rest).of_isPrefix (List.takeWhile_prefix (· ≠ 0))
    have hline := chomp_spec hends hholds hchomp
    have htext := (line_of_dispatch h).2
    rw [hline.cstring_eq, List.takeWhile_takeWhile] at htext
    simpa [nextText] using htext

/-- Behind the last line the array is dispatched as it is, unless it is taken for the end. -/
lemma round_stale (hs : s.Sized) (hstdin : s.stdin = ⟨[], false⟩) (hl : newline ∉ l) (hne : l ≠ [])
    (hline : HoldsString s.line l) (extra : ℕ → UInt8) :
    (∀ d s', round ⟨maxChar, extra⟩ s = some (.next (some d) s') → d.line = []) ↔
      l.head? = some eofChar := by
  have hlen : l.length < maxChar := hs.1 ▸ hline.lt_size
  obtain ⟨d, v', hd, -, hdispatch⟩ := dispatch_eq hline hlen ⟨[], true⟩ hs.2
  have htoo : tooLong ⟨maxChar, extra⟩ s.line l.length ⟨[], true⟩ = some (false, ⟨[], true⟩) :=
    if_neg fun h => Bool.noConfusion h.2.2
  have hround : round ⟨maxChar, extra⟩ s = dispatch s.line ⟨[], true⟩ s.vars := by
    rw [round, hstdin, if_neg (by simp), fgets_end]
    simp only [Option.bind_eq_bind, Option.bind_some, hline.strlen_eq, htoo,
      chomp_of_holds hline hne hl, Bool.false_eq_true, if_false]
  have hcell : s.line.cell 0 = eofChar ↔ l.head? = some eofChar := by
    obtain ⟨c, cs, rfl⟩ := List.exists_cons_of_ne_nil hne
    rw [hline.cell_eq (Nat.zero_lt_succ _)]
    simp
  rw [hround, hdispatch, ← hcell]
  by_cases heof : s.line.cell 0 = eofChar
  · simp [heof]
  · rw [if_neg heof]
    refine iff_of_false (fun hall => ?_) heof
    exact hne (hd.symm.trans (hall d ⟨⟨[], true⟩, s.line, v'⟩ rfl))

/-- A round that throws a piece away has read something. -/
lemma length_lt_of_skip {s' : State} (h : round ⟨maxChar, extra⟩ s = some (.next none s')) :
    s'.stdin.rest.length < s.stdin.rest.length := by
  have heof : s.stdin.eof = false := by
    by_contra htrue
    rw [round, if_pos (by simpa using htrue)] at h
    cases h
  obtain ⟨line, stdin, len, hfgets, -, hlong⟩ := round_skip_cases heof h
  obtain ⟨heof', hle⟩ := stdin_of_tooLong hlong
  refine hle.trans_lt ?_
  rw [stdin_of_fgets hfgets, heof, Bool.false_or] at heof'
  rw [stdin_of_fgets hfgets, List.length_drop]
  have hgot : takeLine (maxChar - 1) s.stdin.rest ≠ [] := by
    intro hnil
    rw [hnil] at heof'
    simp [maxChar] at heof'
  have hpos := List.length_pos_of_ne_nil hgot
  have hinit := (takeLine_isPrefix (maxChar - 1) s.stdin.rest).length_le
  omega

end round

/-! ## Lines that are thrown away whole -/

/-- `n` rounds that throw a piece away each. -/
def SkipRun : ℕ → (ℕ → ℕ → UInt8) → State → State → Prop
  | 0, _, s, s' => s' = s
  | n + 1, extra, s, s' =>
      ∃ t, round ⟨maxChar, extra 0⟩ s = some (.next none t) ∧
        SkipRun n (fun i => extra (i + 1)) t s'

/-- From `s` on, nothing is dispatched before the stream has been read up to `rest`, with a report
that the line is too long; and what is dispatched next is the line that `rest` starts with. -/
def DiscardedWhole (extra : ℕ → ℕ → UInt8) (s : State) (rest : List UInt8) : Prop :=
  ∃ n s', 0 < n ∧ SkipRun n extra s s' ∧ s'.stdin = ⟨rest, false⟩ ∧
    ∀ d s'', round ⟨maxChar, extra n⟩ s' = some (.next (some d) s'') → d.line = nextText rest

/-- The stream that is left gets shorter. -/
lemma length_le_of_skipRun {n : ℕ} {extra : ℕ → ℕ → UInt8} {s s' : State}
    (h : SkipRun n extra s s') : s'.stdin.rest.length + n ≤ s.stdin.rest.length := by
  induction n generalizing extra s with
  | zero => exact (congrArg (fun t : State => t.stdin.rest.length) h).le
  | succ n ih =>
      obtain ⟨t, hround, hrun⟩ := h
      have hlt := length_lt_of_skip hround
      have hle := ih hrun
      omega

section discarded

variable {s t : State} {l rest : List UInt8} {extra : ℕ → ℕ → UInt8}

/-- Throwing a piece away. -/
lemma discardedWhole_of_skip (hround : round ⟨maxChar, extra 0⟩ s = some (.next none t)) :
    DiscardedWhole extra s rest ↔
      (t.stdin = ⟨rest, false⟩ ∧
        ∀ d s'', round ⟨maxChar, extra 1⟩ t = some (.next (some d) s'') → d.line = nextText rest) ∨
      DiscardedWhole (fun i => extra (i + 1)) t rest := by
  constructor
  · rintro ⟨n, s', hn, hrun, hstdin, hnext⟩
    obtain ⟨n, rfl⟩ := Nat.exists_eq_succ_of_ne_zero hn.ne'
    obtain ⟨t', hround', hrun⟩ := hrun
    have ht : t' = t := by
      rw [hround] at hround'
      cases hround'
      rfl
    subst ht
    cases n with
    | zero =>
        obtain rfl : s' = t' := hrun
        exact Or.inl ⟨hstdin, hnext⟩
    | succ n => exact Or.inr ⟨n + 1, s', Nat.succ_pos n, hrun, hstdin, hnext⟩
  · rintro (⟨hstdin, hnext⟩ | ⟨n, s', -, hrun, hstdin, hnext⟩)
    · exact ⟨1, t, one_pos, ⟨t, hround, rfl⟩, hstdin, hnext⟩
    · exact ⟨n + 1, s', Nat.succ_pos n, ⟨t, hround, hrun⟩, hstdin, hnext⟩

/-- It takes a round that throws a piece away. -/
lemma DiscardedWhole.skipped (hs : s.Sized) (hstdin : s.stdin = ⟨l ++ newline :: rest, false⟩)
    (hl : newline ∉ l) (h : DiscardedWhole extra s rest) : Skipped l := by
  obtain ⟨n, s', hn, hrun, -⟩ := h
  obtain ⟨n, rfl⟩ := Nat.exists_eq_succ_of_ne_zero hn.ne'
  obtain ⟨t, hround, -⟩ := hrun
  exact skipped_of_round hs hstdin hl hround

/-- The pieces that a line is read in are all thrown away. -/
def PiecesSkipped (l : List UInt8) : Prop :=
  ∀ i, pieceLen * i ≤ l.length → Skipped (l.drop (pieceLen * i))

/-- The last piece. -/
def lastPiece (l : List UInt8) : List UInt8 := l.drop (pieceLen * (l.length / pieceLen))

lemma pieceLen_pos : 0 < pieceLen := by decide

/-- A line that is longer than a piece. -/
lemma piecesSkipped_iff_drop (hlong : pieceLen ≤ l.length) :
    PiecesSkipped l ↔ Skipped l ∧ PiecesSkipped (l.drop pieceLen) := by
  constructor
  · intro h
    refine ⟨h 0 (Nat.zero_le _), fun i hi => ?_⟩
    rw [List.drop_drop, Nat.add_comm, ← Nat.mul_succ]
    apply h
    rw [List.length_drop] at hi
    rw [Nat.mul_succ]
    omega
  · rintro ⟨hzero, hdrop⟩ i hi
    cases i with
    | zero => exact hzero
    | succ i =>
        have hle : pieceLen * i ≤ (l.drop pieceLen).length := by
          rw [Nat.mul_succ] at hi
          rw [List.length_drop]
          omega
        have hskip := hdrop i hle
        rwa [List.drop_drop, Nat.add_comm, ← Nat.mul_succ] at hskip

/-- A line that is shorter. -/
lemma piecesSkipped_of_lt (hshort : l.length < pieceLen) : PiecesSkipped l ↔ Skipped l := by
  constructor
  · exact fun h => h 0 (Nat.zero_le _)
  · intro h i hi
    cases i with
    | zero => exact h
    | succ i =>
        rw [Nat.mul_succ] at hi
        omega

lemma lastPiece_drop (hlong : pieceLen ≤ l.length) : lastPiece (l.drop pieceLen) = lastPiece l := by
  have hdiv : l.length / pieceLen = (l.length - pieceLen) / pieceLen + 1 := by
    rw [Nat.div_eq_sub_div pieceLen_pos hlong]
  rw [lastPiece, lastPiece, List.length_drop, List.drop_drop, hdiv, Nat.mul_succ, Nat.add_comm]

lemma lastPiece_of_lt (hshort : l.length < pieceLen) : lastPiece l = l := by
  rw [lastPiece, Nat.div_eq_of_lt hshort]
  rfl

/-- When the last piece is thrown away. -/
lemma next_iff (ht : t.Sized) (hstdin : t.stdin = ⟨rest, false⟩) (hl : newline ∉ l)
    (hskip : Skipped l) (hline : HoldsString t.line (l.take (maxChar - 1))) (extra : ℕ → UInt8) :
    (∀ d s'', round ⟨maxChar, extra⟩ t = some (.next (some d) s'') → d.line = nextText rest) ↔
      rest ≠ [] ∨ l.head? = some eofChar := by
  by_cases hrest : rest = []
  · subst hrest
    have hlen : (l.take (maxChar - 1)).length = maxChar - 1 := List.length_take_of_le hskip.1.le
    have hne : l.take (maxChar - 1) ≠ [] := by
      rw [← List.length_pos_iff, hlen]
      decide
    have hhead : (l.take (maxChar - 1)).head? = l.head? := by
      rw [List.head?_take, if_neg (by decide)]
    have hl' : newline ∉ l.take (maxChar - 1) := fun hmem => hl (List.mem_of_mem_take hmem)
    have hstale := round_stale ht hstdin hl' hne hline extra
    rw [hhead] at hstale
    rw [show nextText [] = [] from rfl, hstale]
    simp
  · refine iff_of_true (fun d s'' hround => round_text ht hstdin hrest hround) (Or.inl hrest)

/-- **Which lines are thrown away whole.** -/
lemma discardedWhole_iff_pieces (hs : s.Sized) (hstdin : s.stdin = ⟨l ++ newline :: rest, false⟩)
    (hl : newline ∉ l) :
    DiscardedWhole extra s rest ↔
      PiecesSkipped l ∧ (rest ≠ [] ∨ (lastPiece l).head? = some eofChar) := by
  induction hn : l.length using Nat.strong_induction_on generalizing s l extra with
  | _ n ih =>
      by_cases hskip : Skipped l
      · obtain ⟨t, hround, htstdin, hline, ht⟩ := round_skip hs hstdin hl hskip (extra 0)
        rw [discardedWhole_of_skip hround]
        by_cases hshort : l.length < pieceLen
        · rw [if_pos hshort] at htstdin
          have hmore : ¬ DiscardedWhole (fun i => extra (i + 1)) t rest := by
            rintro ⟨n, s', hpos, hrun, hend, -⟩
            have hle := length_le_of_skipRun hrun
            rw [htstdin, hend] at hle
            exact absurd hle (by simp only; omega)
          rw [piecesSkipped_of_lt hshort, lastPiece_of_lt hshort,
            next_iff ht htstdin hl hskip hline]
          simp [htstdin, hmore, hskip]
        · rw [if_neg hshort] at htstdin
          have hlong := Nat.not_lt.mp hshort
          have hne : t.stdin ≠ ⟨rest, false⟩ := by
            rw [htstdin]
            intro heq
            have hlen := congrArg (fun s : Stdin => s.rest.length) heq
            simp only [List.length_append, List.length_cons] at hlen
            omega
          have hlt : (l.drop pieceLen).length < n := by
            rw [List.length_drop, ← hn]
            exact Nat.sub_lt (pieceLen_pos.trans_le hlong) pieceLen_pos
          have hmore : DiscardedWhole (fun i => extra (i + 1)) t rest ↔ _ :=
            ih _ hlt ht htstdin (fun hmem => hl (List.mem_of_mem_drop hmem)) rfl
          rw [hmore, piecesSkipped_iff_drop hlong, lastPiece_drop hlong]
          simp [hne, hskip]
      · refine iff_of_false (fun h => hskip (h.skipped hs hstdin hl)) ?_
        exact fun h => hskip (h.1 0 (Nat.zero_le _))

/-- In terms of the length of the line, and of where a zero is found. -/
lemma piecesSkipped_iff :
    PiecesSkipped l ↔ maxChar - 1 < l.length % pieceLen ∧
      ∀ i, i % pieceLen < maxChar → l[i]? ≠ some 0 := by
  constructor
  · intro h
    constructor
    · have hlast := (h _ (Nat.mul_div_le _ _)).1
      rwa [List.length_drop, ← Nat.mod_eq_sub_mul_div] at hlast
    · intro i hi hzero
      obtain ⟨hlt, hcell⟩ := List.getElem?_eq_some_iff.mp hzero
      have hle : pieceLen * (i / pieceLen) ≤ i := Nat.mul_div_le i pieceLen
      apply (h (i / pieceLen) (hle.trans hlt.le)).2
      rw [List.mem_iff_getElem?]
      refine ⟨i % pieceLen, ?_⟩
      rw [List.getElem?_take_of_lt hi, List.getElem?_drop, Nat.div_add_mod, hzero]
  · rintro ⟨hlong, hzero⟩ i hi
    constructor
    · rw [List.length_drop]
      have hdiv : i ≤ l.length / pieceLen := by
        rwa [Nat.le_div_iff_mul_le pieceLen_pos, Nat.mul_comm]
      have hmul := Nat.mul_le_mul_left pieceLen hdiv
      have hmod := Nat.div_add_mod l.length pieceLen
      omega
    · intro hmem
      obtain ⟨k, hk⟩ := List.mem_iff_getElem?.mp hmem
      have hlt : k < maxChar := by
        by_contra hge
        rw [List.getElem?_take_eq_none (Nat.not_lt.mp hge)] at hk
        cases hk
      rw [List.getElem?_take_of_lt hlt, List.getElem?_drop] at hk
      refine hzero _ ?_ hk
      rwa [Nat.mul_add_mod, Nat.mod_eq_of_lt (hlt.trans (by decide))]

end discarded

/-- **A line is thrown away whole exactly if its last piece does not fit the array, no zero is found
where `strlen` looks for one, and it is not the last line**, or its last piece is taken for the end
of the file. -/
theorem discardedWhole_iff {mem : Memory} {input : List UInt8} {s : State} {l rest : List UInt8}
    (extra : ℕ → ℕ → UInt8) (hs : Reached mem input s)
    (hstdin : s.stdin = ⟨l ++ newline :: rest, false⟩) (hl : newline ∉ l) :
    DiscardedWhole extra s rest ↔
      maxChar - 1 < l.length % pieceLen ∧
        (∀ i, i % pieceLen < maxChar → l[i]? ≠ some 0) ∧
          (rest ≠ [] ∨ (lastPiece l).head? = some eofChar) := by
  rw [discardedWhole_iff_pieces (sized_of_reached hs) hstdin hl, piecesSkipped_iff, and_assoc]

/-- A line of 1024 characters, with another line behind it. -/
theorem discardedWhole_one_more :
    DiscardedWhole countFive.extra
      (State.start countFive (List.replicate 1024 120 ++ newline :: [108, 115, newline]))
      [108, 115, newline] := by
  refine (discardedWhole_iff countFive.extra Reach.init rfl ?_).mpr
    ⟨?_, fun i _ hzero => ?_, Or.inl ?_⟩
  · exact fun hmem => absurd (List.eq_of_mem_replicate hmem) (by decide)
  · rw [List.length_replicate]
    decide
  · exact absurd (List.eq_of_mem_replicate (List.mem_of_getElem? hzero)) (by decide)
  · exact List.cons_ne_nil _ _

/-- 2046 characters and `rm a`, a line of its own behind them. -/
def longRm : List UInt8 := List.replicate 2046 120 ++ [114, 109, 32, 97]

lemma newline_not_mem_longRm : newline ∉ longRm := by
  rw [longRm, List.mem_append, not_or]
  exact ⟨fun hmem => absurd (List.eq_of_mem_replicate hmem) (by decide), by decide⟩

lemma length_longRm : longRm.length = 2050 := by
  rw [longRm, List.length_append, List.length_replicate]
  rfl

/-- That line is not thrown away whole: `rm a` is dispatched. -/
theorem not_discardedWhole_rm :
    ¬ DiscardedWhole countFive.extra
        (State.start countFive (longRm ++ newline :: [108, 115, newline])) [108, 115, newline] ∧
      ∃ d, Dispatched countFive (longRm ++ newline :: [108, 115, newline]) d ∧
        d.line = [114, 109, 32, 97] := by
  have hsized : (State.start countFive (longRm ++ newline :: [108, 115, newline])).Sized :=
    sized_of_reached Reach.init
  constructor
  · rw [discardedWhole_iff_pieces hsized rfl newline_not_mem_longRm, piecesSkipped_iff,
      length_longRm]
    exact fun h => absurd h.1.1 (by decide)
  · have hskip : Skipped longRm := by
      refine ⟨by rw [length_longRm]; decide, fun hmem => ?_⟩
      have hzero := List.mem_of_mem_take hmem
      rw [longRm, List.mem_append] at hzero
      rcases hzero with hzero | hzero
      · exact absurd (List.eq_of_mem_replicate hzero) (by decide)
      · exact absurd hzero (by decide)
    have hdrop : longRm.drop pieceLen = [114, 109, 32, 97] :=
      List.drop_left' (List.length_replicate (n := 2046))
    obtain ⟨t, hround, hstdin, -, ht⟩ :=
      round_skip hsized rfl newline_not_mem_longRm hskip (countFive.extra 0)
    rw [length_longRm, if_neg (by decide), hdrop] at hstdin
    obtain ⟨d, s', hround', hline, -⟩ := round_line ⟨maxChar, countFive.extra 1⟩
      ⟨hstdin, ht.1, ht.2⟩ (by decide) ⟨by decide, by decide, by decide⟩
    exact ⟨d, ⟨t, _, s', Reach.init.step trivial ⟨none, hround⟩, hround'⟩, hline⟩

end Comp3301.Shell
