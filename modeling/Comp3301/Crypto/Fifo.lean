import Comp3301.Crypto.Session

/-!
# The crypto device: what goes in comes out

The contents of a buffer during a sequence of transfers. `Tracks b log taken` says that the buffer
`b` has had the stream `log` put in and `taken` characters taken out: the offsets and the count are
positions in the stream, and the ring shows the stream from one character *before* the read
position on. That one character is what `decrypt` starts from, and it survives because a write is
always shorter than the free space.

* `fifo_iff_staysBefore`: with both modes passing characters through, the reads deliver what has
  been written, in order, as long as no read crosses the end of the ring; a read that crosses it
  never returns the right length.
* `roundTrip`: with writes that encrypt and reads that decrypt with one key, the reads deliver the
  plaintext, however the two sides cut it into calls.
-/

set_option linter.unusedSectionVars false

namespace Comp3301.Crypto

open Comp3301.Lib

/-! ## The buffer as a window on a stream -/

/-- The stream `log` has been put into the buffer, and `taken` characters have been taken out. -/
structure Tracks (b : DevBuf) (log : List UInt8) (taken : ℕ) : Prop where
  rep : RingRep b
  taken_le : taken ≤ log.length
  readoff : b.readoff = taken % bufSize
  writeoff : b.writeoff = log.length % bufSize
  count : b.count = log.length - taken
  room : log.length < taken + bufSize
  holds : Holds bufSize b.buf.cell log (taken - 1)

namespace Tracks

variable {b : DevBuf} {log : List UInt8} {taken : ℕ}

/-- A new buffer. -/
lemma fresh (id : ℤ) (readRef writeRef : Bool) (mem : ℕ → UInt8) :
    Tracks (freshBuf id readRef writeRef mem) [] 0 where
  rep := ringRep_freshBuf id readRef writeRef mem
  taken_le := le_rfl
  readoff := rfl
  writeoff := rfl
  count := rfl
  room := by decide
  holds := by
    intro k hk
    simp at hk

/-- Characters are put in, fewer than there is room for. -/
lemma put (h : Tracks b log taken) (sm : CryptoSmode) {xs : List UInt8}
    (hxs : xs.length < bufSize - b.count) : Tracks (putBuf sm b xs) (log ++ xs) taken := by
  have hcount := h.count
  have hle := h.taken_le
  have hroom := h.room
  refine ⟨h.rep.putBuf sm hxs.le, ?_, ?_, ?_, ?_, ?_, ?_⟩
  · rw [List.length_append]
    omega
  · simp only [putBuf, modeBuf_readoff]
    exact h.readoff
  · simp only [putBuf, List.length_append]
    rw [h.writeoff, Nat.mod_add_mod]
  · simp only [putBuf, List.length_append]
    omega
  · rw [List.length_append]
    omega
  · have happ := h.holds.append (show 0 < bufSize by decide) xs (by omega) (by omega)
    rw [← h.writeoff] at happ
    exact happ

/-- Available characters are taken out. -/
lemma take (h : Tracks b log taken) (sm : CryptoSmode) {n : ℕ} (hn : n ≤ b.count) :
    Tracks (takenBuf sm b n) log (taken + n) := by
  have hcount := h.count
  have hle := h.taken_le
  have hroom := h.room
  refine ⟨h.rep.takenBuf sm hn, by omega, ?_, ?_, ?_, by omega, ?_⟩
  · simp only [takenBuf]
    rw [h.readoff, Nat.mod_add_mod]
  · simp only [takenBuf, modeBuf_writeoff]
    exact h.writeoff
  · simp only [takenBuf]
    omega
  · simp only [takenBuf, modeBuf_buf]
    exact h.holds.mono (by omega)

/-- What a read finds in the ring, when it stays before the end of the ring. -/
lemma slice_eq (h : Tracks b log taken) {n : ℕ} (hn : n ≤ b.count)
    (hcross : b.readoff + n ≤ bufSize) :
    slice b.buf.cell b.readoff n = (log.drop taken).take n := by
  have hcount := h.count
  have hle := h.taken_le
  rw [h.readoff] at hcross ⊢
  exact h.holds.slice_eq (by omega) (by omega) hcross

end Tracks

/-! ## Calls that ask for what there is -/

/-- The call meets no failure outside the driver and asks for at least one character: a write for
fewer than there is room for, a read for no more than there are. -/
def Sized (b : DevBuf) (x : Xfer) : Prop :=
  x.env.ok ∧ 1 ≤ x.req.len ∧
    match x.req with
    | .read len => len ≤ b.count
    | .write _ len => len < bufSize - b.count

/-- A read does not cross the end of the ring. -/
def StaysBefore (b : DevBuf) (x : Xfer) : Prop :=
  ∀ len, x.req = .read len → b.readoff + len ≤ bufSize

/-- What a call should return: its length and, for a read, that many characters. -/
def Returns (bufs : List DevBuf) (x : Xfer) : Prop :=
  ∃ bufs' out, xfer bufs x = some (bufs', (x.req.len : ℤ), out) ∧
    ∀ len, x.req = .read len → out.length = len

section calls

variable {b : DevBuf} {pd : PrivData} {env : XferEnv}

/-- A write of fewer characters than there is room for. -/
lemma write_sized (hb : RingRep b) {src : ℕ → UInt8} {len : ℕ}
    (hx : Sized b ⟨pd, env, .write src len⟩) :
    xferBody ⟨pd, env, .write src len⟩ b =
      some (putBuf pd.writesmode b (transform pd.writesmode b (slice src 0 len)), (len : ℤ),
        []) := by
  obtain ⟨hok, -, hlen⟩ := hx
  simp only at hlen
  have hlenB : len ≤ bufSize := by omega
  simp only [xferBody]
  rw [writeLens_of_not_over hb (not_writeOver_of_lt hb hlen) hlenB,
    writeBody_eq hb hok.1 hok.2 hlenB]
  rfl

/-- A read of available characters before the end of the ring. -/
lemma read_sized (hb : RingRep b) {len : ℕ} (hx : Sized b ⟨pd, env, .read len⟩)
    (hcross : b.readoff + len ≤ bufSize) :
    xferBody ⟨pd, env, .read len⟩ b =
      some (takenBuf pd.readsmode b len, (len : ℤ),
        transform pd.readsmode b (slice b.buf.cell b.readoff len)) := by
  obtain ⟨hok, -, hlen⟩ := hx
  simp only at hlen
  have hmin : min len b.count = len := min_eq_left hlen
  have hcopy : ¬ env.copyOk = false := by
    rw [show env.copyOk = true from hok.2]
    decide
  simp only [xferBody]
  rw [readLens_eq (by rw [hmin]; exact hcross), hmin, readBody_eq hb hok.1 hlen hcross,
    if_neg hcopy, decide_eq_false (Nat.not_lt.mpr hlen)]
  rfl

/-- The return value of a read that meets no failure outside the driver. -/
lemma readBody_return {sm : CryptoSmode} {n : Lens} {b' : DevBuf} {ret : ℤ} {out : List UInt8}
    (hok : env.ok) (herr : n.err = false) (h : readBody env sm b n = some (b', ret, out)) :
    ret = signed 64 (unsigned 64 (n.len + n.wraplen)) := by
  unfold readBody at h
  simp only [hok.1, hok.2, Bool.true_eq_false, if_false, Option.bind_eq_bind,
    Option.bind_eq_some_iff] at h
  obtain ⟨temp, -, ⟨b₁, temp₁⟩, -, o, -, h⟩ := h
  cases h
  rw [herr, if_neg Bool.false_ne_true]

/-- The length behind the end of the ring that `device_read` computes makes the total
`len - 2 * readoff`, which is not `len`. -/
lemma crossing_total {B r len : ℕ} (hB : B < 2 ^ 31) (hr : r < B) (hlen : len ≤ B)
    (hcross : B < r + len) :
    signed 64 (unsigned 64 ((unsigned 32 (B - r) : ℤ) + unsigned 64 ((len - B) - r))) ≠ len := by
  unfold signed unsigned
  omega

/-- A read of available characters that crosses the end of the ring does not return its length,
if it returns at all. -/
lemma read_crossing (hb : RingRep b) {len : ℕ} (hx : Sized b ⟨pd, env, .read len⟩)
    (hcross : bufSize < b.readoff + len) {b' : DevBuf} {ret : ℤ} {out : List UInt8}
    (h : xferBody ⟨pd, env, .read len⟩ b = some (b', ret, out)) : ret ≠ len := by
  obtain ⟨hok, -, hlen⟩ := hx
  simp only at hlen
  have hcount := hb.count_le
  have hoff : unsigned 64 ((b.readoff : ℤ) + len) = b.readoff + len := by
    rw [← Nat.cast_add]
    have := hb.readoff_lt
    exact unsigned_natCast (by unfold bufSize at *; omega)
  have hlens : readLens b len =
      ⟨unsigned 32 (bufSize - b.readoff), unsigned 64 ((len - bufSize) - b.readoff), true,
        false⟩ := by
    unfold readLens
    simp only [if_neg (Nat.not_lt.mpr hlen), decide_eq_false (Nat.not_lt.mpr hlen)]
    rw [if_pos (by rw [hoff]; exact hcross)]
  simp only [xferBody, hlens] at h
  rw [readBody_return hok rfl h]
  exact crossing_total (B := bufSize) (by unfold bufSize; omega) hb.readoff_lt
    (hlen.trans hcount) hcross

end calls

/-! ## Passing characters through -/

/-- Both modes of the descriptor pass characters through. -/
def PrivData.Plain (pd : PrivData) : Prop :=
  pd.readsmode.mode = .passthrough ∧ pd.writesmode.mode = .passthrough

/-- A call of the right size by a descriptor that passes characters through. -/
def PlainCall (b : DevBuf) (x : Xfer) : Prop := x.pd.Plain ∧ Sized b x

/-- The buffer holds what has been written and not yet delivered. -/
structure FifoInv (b : DevBuf) (written delivered : List UInt8) : Prop where
  tracks : Tracks b written delivered.length
  delivered_eq : delivered = written.take delivered.length

lemma transform_plain {sm : CryptoSmode} (h : sm.mode = .passthrough) (b : DevBuf)
    (xs : List UInt8) : transform sm b xs = xs := by
  unfold transform
  rw [h]

/-- Delivering the next `n` characters of a stream. -/
lemma deliver_next {written delivered : List UInt8} {n : ℕ}
    (h : delivered = written.take delivered.length) (hn : delivered.length + n ≤ written.length) :
    ((written.drop delivered.length).take n).length = n ∧
      delivered ++ (written.drop delivered.length).take n =
        written.take (delivered.length + n) := by
  constructor
  · rw [List.length_take, List.length_drop]
    omega
  · rw [List.take_add, ← h]

/-- One call. -/
lemma FifoInv.step {b : DevBuf} {written delivered : List UInt8} {x : Xfer} {b' : DevBuf} {ret : ℤ}
    {out : List UInt8} (h : FifoInv b written delivered) (hx : PlainCall b x)
    (hbefore : StaysBefore b x) (hbody : xferBody x b = some (b', ret, out)) :
    FifoInv b' (written ++ x.req.passed) (delivered ++ out) := by
  obtain ⟨pd, env, req⟩ := x
  obtain ⟨⟨hread, hwrite⟩, hsized⟩ := hx
  cases req with
  | read len =>
      have hcross := hbefore len rfl
      have hlen : len ≤ b.count := hsized.2.2
      have hcount := h.tracks.count
      have hle := h.tracks.taken_le
      have hpos : 1 ≤ len := hsized.2.1
      rw [read_sized h.tracks.rep hsized hcross, transform_plain hread,
        h.tracks.slice_eq hlen hcross] at hbody
      cases hbody
      obtain ⟨hn, hnext⟩ := deliver_next (n := len) h.delivered_eq (by omega)
      have htotal : (delivered ++ (written.drop delivered.length).take len).length =
          delivered.length + len := by rw [List.length_append, hn]
      simp only [Req.passed, List.append_nil]
      refine ⟨?_, ?_⟩
      · rw [htotal]
        exact h.tracks.take pd.readsmode hlen
      · rw [htotal]
        exact hnext
  | write src len =>
      have hlen : len < bufSize - b.count := hsized.2.2
      rw [write_sized h.tracks.rep hsized, transform_plain hwrite] at hbody
      cases hbody
      simp only [Req.passed, List.append_nil]
      refine ⟨h.tracks.put pd.writesmode (by rw [length_slice]; exact hlen), ?_⟩
      rw [List.take_append_of_le_length h.tracks.taken_le]
      exact h.delivered_eq

/-- A call of the right size returns what it should, exactly if it stays before the end of the
ring. -/
lemma returns_iff {b : DevBuf} {rest : List DevBuf} {id : ℤ} (hb : RingRep b) (hbid : b.id = id)
    (hid : id ≠ 0) {x : Xfer} (hx : x.pd.bufId = id) (hsized : Sized b x) :
    Returns (b :: rest) x ↔ StaysBefore b x := by
  obtain ⟨pd, env, req⟩ := x
  have hhead : b.id = pd.bufId := hbid.trans hx.symm
  have hpd : pd.bufId ≠ 0 := by
    rw [show pd.bufId = id from hx]
    exact hid
  cases req with
  | read len =>
      constructor
      · rintro ⟨bufs', out, hxfer, -⟩ len' hlen'
        cases hlen'
        by_contra hcross
        rw [xfer_head rest hhead hpd, Option.map_eq_some_iff] at hxfer
        obtain ⟨⟨b', ret, out'⟩, hbody, hres⟩ := hxfer
        have hret : ret = len := congrArg (fun r => r.2.1) hres
        exact read_crossing hb hsized (Nat.lt_of_not_le hcross) hbody hret
      · intro hbefore
        refine ⟨_, _, xfer_of_body rest hhead hpd (read_sized hb hsized (hbefore len rfl)), ?_⟩
        intro len' hlen'
        cases hlen'
        rw [length_transform, length_slice]
  | write src len =>
      refine iff_of_true ⟨_, _, xfer_of_body rest hhead hpd (write_sized hb hsized), ?_⟩ ?_
      · intro len' hlen'
        cases hlen'
      · intro len' hlen'
        cases hlen'

section fifo

variable {Fd : Type} [DecidableEq Fd] {d' : Device Fd} {id : ℤ} {s : Session}

/-- The buffer in sequences of calls that pass characters through and do not cross the end of the
ring. -/
lemma fifoInv_session (hc : Created d' id)
    (hs : SessionBy id (fun b x => PlainCall b x ∧ StaysBefore b x) d'.devBufs s) :
    ∃ b rest, s.bufs = b :: rest ∧ b.id = id ∧ FifoInv b s.written s.delivered := by
  refine SessionBy.invariant hc ?_ ?_ hs
  · intro readRef writeRef mem
    exact ⟨Tracks.fresh id readRef writeRef mem, rfl⟩
  · rintro b written delivered x b' ret out h ⟨hx, hbefore⟩ hbody
    exact h.step hx hbefore hbody

/-- **The FIFO law.** In every sequence of calls on a created buffer that are of the right size and
pass characters through, as long as no read crosses the end of the ring: what has been delivered is
an initial segment of what has been written. At every point, the next call of this kind returns its
length, and delivers that many characters if it is a read, exactly if it does not cross the end of
the ring. -/
theorem fifo_iff_staysBefore (hc : Created d' id)
    (hs : SessionBy id (fun b x => PlainCall b x ∧ StaysBefore b x) d'.devBufs s) :
    s.delivered <+: s.written ∧ ∃ b rest, s.bufs = b :: rest ∧ b.id = id ∧
      ∀ x, x.pd.bufId = id → PlainCall b x → (Returns s.bufs x ↔ StaysBefore b x) := by
  obtain ⟨b, rest, hbufs, hbid, h⟩ := fifoInv_session hc hs
  have hpos := hc.fresh.1
  refine ⟨?_, b, rest, hbufs, hbid, ?_⟩
  · rw [h.delivered_eq]
    exact List.take_prefix _ _
  · intro x hx hcall
    rw [hbufs]
    exact returns_iff h.tracks.rep hbid (by omega) hx hcall.2

end fifo

/-- A first write of 100 characters. -/
theorem fifo_iff_staysBefore_newBuf :
    Returns oneBuffer.devBufs ⟨plainPd, goodEnv, .write (fun _ => 7) 100⟩ := by
  obtain ⟨-, b, rest, hbufs, -, hcall⟩ := fifo_iff_staysBefore created_oneBuffer Reach.init
  obtain ⟨rfl, rfl⟩ := List.cons.inj (oneBuffer_devBufs.symm.trans hbufs)
  refine (hcall _ rfl ⟨⟨rfl, rfl⟩, ⟨rfl, rfl⟩, by decide, ?_⟩).mpr ?_
  · show 100 < bufSize - newBuf.count
    decide
  · intro len hlen
    cases hlen

/-- The ring has been written and read once for 10 characters, then filled with 8190. -/
lemma session_across_end : ∃ s b, SessionBy 1 PlainCall oneBuffer.devBufs s ∧ s.bufs = [b] ∧
    b.id = 1 ∧ RingRep b ∧ b.readoff = 10 ∧ b.count = 8190 := by
  let src : ℕ → UInt8 := fun _ => 7
  let sm : CryptoSmode := plainPd.writesmode
  let b₁ := putBuf sm newBuf (transform sm newBuf (slice src 0 10))
  let b₂ := takenBuf plainPd.readsmode b₁ 10
  let b₃ := putBuf sm b₂ (transform sm b₂ (slice src 0 8190))
  have hb₀ : RingRep newBuf := ringRep_freshBuf 1 true true fun _ => 0
  have hb₁ : RingRep b₁ := hb₀.putBuf sm (by simp [newBuf, freshBuf, bufSize])
  have hc₁ : b₁.count = 10 := by simp [b₁, putBuf, newBuf, freshBuf]
  have hr₁ : b₁.readoff = 0 := by simp [b₁, putBuf, newBuf, freshBuf]
  have hb₂ : RingRep b₂ := hb₁.takenBuf plainPd.readsmode hc₁.ge
  have hc₂ : b₂.count = 0 := by simp [b₂, takenBuf, hc₁]
  have hr₂ : b₂.readoff = 10 := by simp [b₂, takenBuf, hr₁, bufSize]
  have hx₁ : PlainCall newBuf ⟨plainPd, goodEnv, .write src 10⟩ :=
    ⟨⟨rfl, rfl⟩, ⟨rfl, rfl⟩, by decide, show 10 < bufSize - newBuf.count by decide⟩
  have hx₂ : PlainCall b₁ ⟨plainPd, goodEnv, .read 10⟩ :=
    ⟨⟨rfl, rfl⟩, ⟨rfl, rfl⟩, by decide, hc₁.ge⟩
  have hx₃ : PlainCall b₂ ⟨plainPd, goodEnv, .write src 8190⟩ := by
    refine ⟨⟨rfl, rfl⟩, ⟨rfl, rfl⟩, by decide, ?_⟩
    show 8190 < bufSize - b₂.count
    rw [hc₂]
    decide
  have hs₁ := SessionBy.call (P := PlainCall) (s := ⟨oneBuffer.devBufs, [], []⟩) Reach.init
    oneBuffer_devBufs rfl one_ne_zero rfl hx₁ (write_sized hb₀ hx₁.2)
  have hs₂ := hs₁.call rfl rfl one_ne_zero rfl hx₂
    (read_sized hb₁ hx₂.2 (by rw [hr₁]; decide))
  have hs₃ := hs₂.call rfl rfl one_ne_zero rfl hx₃ (write_sized hb₂ hx₃.2)
  refine ⟨_, b₃, hs₃, rfl, rfl, hb₂.putBuf sm ?_, ?_, ?_⟩
  · simp [hc₂, bufSize]
  · simp [b₃, putBuf, hr₂]
  · simp [b₃, putBuf, hc₂]

/-- A sequence of calls of the right size whose last one, a read of 8190 available characters from
offset 10 on, does not return 8190. -/
theorem read_across_end_fails :
    ∃ s b, SessionBy 1 PlainCall oneBuffer.devBufs s ∧ s.bufs = [b] ∧ b.readoff = 10 ∧
      PlainCall b ⟨plainPd, goodEnv, .read 8190⟩ ∧
      ¬ Returns s.bufs ⟨plainPd, goodEnv, .read 8190⟩ := by
  obtain ⟨s, b, hs, hbufs, hbid, hb, hreadoff, hcount⟩ := session_across_end
  have hx : PlainCall b ⟨plainPd, goodEnv, .read 8190⟩ :=
    ⟨⟨rfl, rfl⟩, ⟨rfl, rfl⟩, by decide, hcount.ge⟩
  refine ⟨s, b, hs, hbufs, hreadoff, hx, ?_⟩
  rw [hbufs, returns_iff hb hbid one_ne_zero rfl hx.2]
  intro hbefore
  have hle := hbefore 8190 rfl
  rw [hreadoff] at hle
  exact absurd hle (by decide)

/-! ## Encrypting writes, decrypting reads -/

/-- The value of `enc_last` or `dec_last` after `n` characters: the ring index of the last one. -/
def lastPos (n : ℕ) : ℤ := if n = 0 then -1 else ((n - 1) % bufSize : ℕ)

/-- The step that `encrypt` and `decrypt` make. -/
lemma lastPos_add (p : ℕ) {n : ℕ} (hn : 1 ≤ n) :
    (lastPos p + n).tmod bufSize = lastPos (p + n) := by
  unfold lastPos
  rw [if_neg (show p + n ≠ 0 by omega)]
  have hnat : ∀ k : ℕ, ((k : ℤ)).tmod bufSize = (k % bufSize : ℕ) := by
    intro k
    rw [Int.tmod_eq_emod_of_nonneg (by positivity)]
    exact (Int.natCast_mod k bufSize).symm
  by_cases hp : p = 0
  · subst hp
    rw [if_pos rfl, show (-1 : ℤ) + n = ((n - 1 : ℕ) : ℤ) by omega, hnat, Nat.zero_add]
  · rw [if_neg hp, ← Nat.cast_add, hnat, Nat.mod_add_mod,
      show p - 1 + n = p + n - 1 by omega]

/-- Where the chain is taken up: behind the first `p` characters of the stream, for a `p` that the
ring still shows. -/
lemma chainStart_lastPos {f : ℕ → UInt8} {log : List UInt8} {lo p : ℕ}
    (hholds : Holds bufSize f log lo) (hlo : lo ≤ p - 1) (hp : p ≤ log.length) (key : UInt8) :
    chainStart (lastPos p) f key = (log.take p).getLastD key := by
  by_cases hzero : p = 0
  · subst hzero
    rfl
  · have hlast : lastPos p = ((p - 1) % bufSize : ℕ) := if_neg hzero
    have hne : ((p - 1) % bufSize : ℕ) ≠ (-1 : ℤ) := by omega
    have hlen : (log.take p).length = p := List.length_take_of_le hp
    unfold chainStart
    rw [hlast, if_neg hne, Int.toNat_natCast, hholds (p - 1) (by omega) hlo,
      List.getLastD_eq_getLast?, List.getLast?_eq_getElem?, hlen,
      List.getElem?_take_of_lt (by omega),
      List.getElem?_eq_getElem (by omega)]
    rfl

/-- A call of the right size that encrypts with `key` if it writes, and decrypts with `key` without
crossing the end of the ring if it reads. -/
def CodedCall (key : UInt8) (b : DevBuf) (x : Xfer) : Prop :=
  Sized b x ∧ StaysBefore b x ∧
    match x.req with
    | .read _ => x.pd.readsmode.mode = .dec ∧ x.pd.readsmode.key = key
    | .write _ _ => x.pd.writesmode.mode = .enc ∧ x.pd.writesmode.key = key

/-- The buffer holds the ciphertext of what has been written, and the two ends of the chain are
where the next write and the next read take it up. -/
structure CodedInv (key : UInt8) (b : DevBuf) (written delivered : List UInt8) : Prop where
  tracks : Tracks b (chainEnc (· ^^^ ·) key written) delivered.length
  encLast : b.encLast = lastPos written.length
  decLast : b.decLast = lastPos delivered.length
  delivered_eq : delivered = written.take delivered.length

lemma xor_xor_cancel_right (a b : UInt8) : a ^^^ b ^^^ b = a := by
  rw [UInt8.xor_assoc, UInt8.xor_self, UInt8.xor_zero]

/-- Decrypting an initial segment of the ciphertext. -/
lemma chainDec_take_chainEnc (key : UInt8) (xs : List UInt8) (n : ℕ) :
    chainDec (· ^^^ ·) key ((chainEnc (· ^^^ ·) key xs).take n) = xs.take n := by
  rw [chainDec_take, chainDec_chainEnc _ xor_xor_cancel_right]

lemma modeBuf_enc {sm : CryptoSmode} (h : sm.mode = .enc) (b : DevBuf) (n : ℕ) :
    modeBuf sm b n = { b with encLast := (b.encLast + n).tmod bufSize } := by
  unfold modeBuf
  rw [h]

lemma modeBuf_dec {sm : CryptoSmode} (h : sm.mode = .dec) (b : DevBuf) (n : ℕ) :
    modeBuf sm b n = { b with decLast := (b.decLast + n).tmod bufSize } := by
  unfold modeBuf
  rw [h]

section coded

variable {key : UInt8} {b : DevBuf} {written delivered : List UInt8} {pd : PrivData}
  {env : XferEnv}

/-- An encrypting write goes on with the chain. -/
lemma CodedInv.write (h : CodedInv key b written delivered) {src : ℕ → UInt8} {len : ℕ}
    (hx : CodedCall key b ⟨pd, env, .write src len⟩) :
    CodedInv key (putBuf pd.writesmode b (transform pd.writesmode b (slice src 0 len)))
      (written ++ slice src 0 len) delivered := by
  obtain ⟨⟨-, hpos, hlen⟩, -, hmode, hkey⟩ := hx
  simp only at hlen
  simp only [Req.len] at hpos
  have hle := h.tracks.taken_le
  have hstart : chainStart b.encLast b.buf.cell key =
      (chainEnc (· ^^^ ·) key written).getLastD key := by
    have hall := chainStart_lastPos (p := written.length) h.tracks.holds (by simp at hle ⊢; omega)
      (by simp) key
    rwa [List.take_of_length_le (by simp), ← h.encLast] at hall
  have htransform : transform pd.writesmode b (slice src 0 len) =
      chainEnc (· ^^^ ·) ((chainEnc (· ^^^ ·) key written).getLastD key) (slice src 0 len) := by
    unfold transform
    rw [hmode, hkey]
    simp only
    rw [hstart]
  have hlog : chainEnc (· ^^^ ·) key written ++ transform pd.writesmode b (slice src 0 len) =
      chainEnc (· ^^^ ·) key (written ++ slice src 0 len) := by
    rw [htransform, ← chainEnc_append]
  refine ⟨?_, ?_, ?_, ?_⟩
  · rw [← hlog]
    exact h.tracks.put pd.writesmode (by rw [length_transform, length_slice]; exact hlen)
  · simp only [putBuf, modeBuf_enc hmode, length_transform, length_slice, List.length_append]
    rw [h.encLast]
    exact lastPos_add written.length hpos
  · simp only [putBuf, modeBuf_enc hmode]
    exact h.decLast
  · rw [length_chainEnc] at hle
    rw [List.take_append_of_le_length hle]
    exact h.delivered_eq

/-- A decrypting read goes on with the chain. -/
lemma CodedInv.read (h : CodedInv key b written delivered) {len : ℕ}
    (hx : CodedCall key b ⟨pd, env, .read len⟩) :
    CodedInv key (takenBuf pd.readsmode b len) written
      (delivered ++ transform pd.readsmode b (slice b.buf.cell b.readoff len)) := by
  obtain ⟨⟨-, hpos, hlen⟩, hbefore, hmode, hkey⟩ := hx
  simp only at hlen
  simp only [Req.len] at hpos
  have hle := h.tracks.taken_le
  have hcount := h.tracks.count
  rw [length_chainEnc] at hle hcount
  have hstart : chainStart b.decLast b.buf.cell key =
      ((chainEnc (· ^^^ ·) key written).take delivered.length).getLastD key := by
    rw [h.decLast]
    exact chainStart_lastPos h.tracks.holds le_rfl h.tracks.taken_le key
  have hout : delivered ++ transform pd.readsmode b (slice b.buf.cell b.readoff len) =
      written.take (delivered.length + len) := by
    have hdelivered : delivered =
        chainDec (· ^^^ ·) key ((chainEnc (· ^^^ ·) key written).take delivered.length) := by
      rw [chainDec_take_chainEnc]
      exact h.delivered_eq
    rw [← chainDec_take_chainEnc key, List.take_add, chainDec_append, ← hdelivered, ← hstart,
      ← h.tracks.slice_eq hlen (hbefore len rfl)]
    unfold transform
    rw [hmode, hkey]
  have htotal : (delivered ++ transform pd.readsmode b (slice b.buf.cell b.readoff len)).length =
      delivered.length + len := by
    rw [hout, List.length_take_of_le (by omega)]
  refine ⟨?_, ?_, ?_, ?_⟩
  · rw [htotal]
    exact h.tracks.take pd.readsmode hlen
  · simp only [takenBuf, modeBuf_dec hmode]
    exact h.encLast
  · rw [htotal]
    simp only [takenBuf, modeBuf_dec hmode]
    rw [h.decLast]
    exact lastPos_add delivered.length hpos
  · rw [htotal]
    exact hout

/-- One call. -/
lemma CodedInv.step {x : Xfer} {b' : DevBuf} {ret : ℤ} {out : List UInt8}
    (h : CodedInv key b written delivered) (hx : CodedCall key b x)
    (hbody : xferBody x b = some (b', ret, out)) :
    CodedInv key b' (written ++ x.req.passed) (delivered ++ out) := by
  obtain ⟨pd, env, req⟩ := x
  cases req with
  | read len =>
      rw [read_sized h.tracks.rep hx.1 (hx.2.1 len rfl)] at hbody
      cases hbody
      rw [Req.passed, List.append_nil]
      exact h.read hx
  | write src len =>
      rw [write_sized h.tracks.rep hx.1] at hbody
      cases hbody
      rw [List.append_nil]
      exact h.write hx

end coded

section roundTrip

variable {Fd : Type} [DecidableEq Fd] {d' : Device Fd} {id : ℤ} {s : Session} {key : UInt8}

/-- The buffer in sequences of encrypting writes and decrypting reads. -/
lemma codedInv_session (hc : Created d' id) (hs : SessionBy id (CodedCall key) d'.devBufs s) :
    ∃ b rest, s.bufs = b :: rest ∧ b.id = id ∧ CodedInv key b s.written s.delivered := by
  refine SessionBy.invariant hc ?_ ?_ hs
  · intro readRef writeRef mem
    exact ⟨Tracks.fresh id readRef writeRef mem, rfl, rfl, rfl⟩
  · intro b written delivered x b' ret out h hx hbody
    exact h.step hx hbody

/-- **Round trip.** In every sequence of encrypting writes and decrypting reads with one key on a
created buffer, of the right sizes and with no read crossing the end of the ring: what has been
delivered is an initial segment of the plaintext, and the next call of this kind returns its
length. -/
theorem roundTrip (hc : Created d' id) (hs : SessionBy id (CodedCall key) d'.devBufs s) :
    s.delivered <+: s.written ∧ ∃ b rest, s.bufs = b :: rest ∧ b.id = id ∧
      ∀ x, x.pd.bufId = id → CodedCall key b x → Returns s.bufs x := by
  obtain ⟨b, rest, hbufs, hbid, h⟩ := codedInv_session hc hs
  have hpos := hc.fresh.1
  refine ⟨?_, b, rest, hbufs, hbid, ?_⟩
  · rw [h.delivered_eq]
    exact List.take_prefix _ _
  · intro x hx hcall
    rw [hbufs]
    exact (returns_iff h.tracks.rep hbid (by omega) hx hcall.1).mpr hcall.2.1

end roundTrip

/-- A descriptor that encrypts what it writes and decrypts what it reads. -/
def codedPd (key : UInt8) : PrivData := ⟨1, ⟨.read, .dec, key⟩, ⟨.write, .enc, key⟩⟩

/-- A write of three characters, of which two are read: the reader gets the plaintext. -/
theorem roundTrip_newBuf :
    ∃ s, SessionBy 1 (CodedCall 42) oneBuffer.devBufs s ∧ s.written = [10, 11, 12] ∧
      s.delivered.length = 2 ∧ s.delivered <+: s.written := by
  let src : ℕ → UInt8 := fun k => 10 + k.toUInt8
  let b₁ := putBuf (codedPd 42).writesmode newBuf
    (transform (codedPd 42).writesmode newBuf (slice src 0 3))
  have hb₀ : RingRep newBuf := ringRep_freshBuf 1 true true fun _ => 0
  have hb₁ : RingRep b₁ := hb₀.putBuf _ (by simp [newBuf, freshBuf, bufSize])
  have hc₁ : b₁.count = 3 := by simp [b₁, putBuf, newBuf, freshBuf]
  have hr₁ : b₁.readoff = 0 := by simp [b₁, putBuf, newBuf, freshBuf]
  have hx₁ : CodedCall 42 newBuf ⟨codedPd 42, goodEnv, .write src 3⟩ :=
    ⟨⟨⟨rfl, rfl⟩, by decide, show 3 < bufSize - newBuf.count by decide⟩, by simp [StaysBefore],
      rfl, rfl⟩
  have hx₂ : CodedCall 42 b₁ ⟨codedPd 42, goodEnv, .read 2⟩ := by
    refine ⟨⟨⟨rfl, rfl⟩, by decide, ?_⟩, ?_, rfl, rfl⟩
    · show 2 ≤ b₁.count
      omega
    · intro len hlen
      cases hlen
      rw [hr₁]
      decide
  have hs₁ := SessionBy.call (P := CodedCall 42) (s := ⟨oneBuffer.devBufs, [], []⟩) Reach.init
    oneBuffer_devBufs rfl one_ne_zero rfl hx₁ (write_sized hb₀ hx₁.1)
  have hs₂ := hs₁.call rfl rfl one_ne_zero rfl hx₂ (read_sized hb₁ hx₂.1 (hx₂.2.1 2 rfl))
  refine ⟨_, hs₂, rfl, ?_, (roundTrip created_oneBuffer hs₂).1⟩
  simp

end Comp3301.Crypto
