import Comp3301.Crypto.Fifo

/-!
# The crypto device: streams in chunks

A stream of characters that is cut into calls. The first character of a later call is chained
through a character of the ring, and whether that is the right one depends on what the ring holds:
`encrypt` needs the last character it gave, `decrypt` the last one it was given.

* Encrypting writes and decrypting reads find the ciphertext in the ring, which is what they need
  (`roundTrip` in `Fifo`).
* Decrypting writes find the plaintext they have stored, and encrypting reads the plaintext they
  have delivered. `stored_iff_cuts` and `delivered_iff_cuts` give the cuts at which this makes no
  difference, `chunks_iff_cuts` is both.
-/

set_option linter.unusedSectionVars false

namespace Comp3301.Crypto

open Comp3301.Lib

/-! ## Several calls -/

/-- One call after the other: the buffers behind the last one, and all that has been delivered. -/
def xfers : List DevBuf → List Xfer → Option (List DevBuf × List UInt8)
  | bufs, [] => some (bufs, [])
  | bufs, x :: xs => do
      let (bufs, _, out) ← xfer bufs x
      let (bufs, outs) ← xfers bufs xs
      some (bufs, out ++ outs)

/-- The call writes `c` to the buffer `id`, in a mode that meets `P`. Unless `c` is empty, nothing
fails outside the driver. -/
structure Xfer.Writes (id : ℤ) (P : CryptoSmode → Prop) (x : Xfer) (c : List UInt8) : Prop where
  bufId : x.pd.bufId = id
  mode : P x.pd.writesmode
  req : ∃ src, x.req = .write src c.length ∧ slice src 0 c.length = c
  ok : c ≠ [] → x.env.ok

/-- The call reads as many characters as `c` has from the buffer `id`, in a mode that meets `P`.
Unless `c` is empty, nothing fails outside the driver. -/
structure Xfer.Reads (id : ℤ) (P : CryptoSmode → Prop) (x : Xfer) (c : List UInt8) : Prop where
  bufId : x.pd.bufId = id
  mode : P x.pd.readsmode
  req : x.req = .read c.length
  ok : c ≠ [] → x.env.ok

/-- What is stored in the ring and has not been read, for a ring that is not gone round. -/
def DevBuf.stored (b : DevBuf) : List UInt8 := slice b.buf.cell b.readoff b.count

/-- Characters pass through. -/
def CryptoSmode.Passes (sm : CryptoSmode) : Prop := sm.mode = .passthrough

/-- The mode `m` with the key `key`. -/
def CryptoSmode.Is (m : CryptoEncmode) (key : UInt8) (sm : CryptoSmode) : Prop :=
  sm.mode = m ∧ sm.key = key

/-! ## One call -/

section call

variable {b : DevBuf} {id : ℤ} {P : CryptoSmode → Prop} {x : Xfer} {c : List UInt8}

/-- A step over no characters. -/
lemma tmod_add_zero {last : ℤ} (hlow : -1 ≤ last) (hlt : last < bufSize) :
    (last + (0 : ℕ)).tmod bufSize = last := by
  rw [Nat.cast_zero, add_zero]
  rcases lt_or_ge last 0 with hneg | hnonneg
  · rw [show last = -1 by omega]
    rfl
  · exact Int.tmod_eq_of_lt hnonneg hlt

/-- Working on no characters leaves `enc_last` and `dec_last`. -/
lemma modeBuf_zero (hb : RingRep b) (sm : CryptoSmode) : modeBuf sm b 0 = b := by
  unfold modeBuf
  split
  · rw [tmod_add_zero hb.encLast_ge hb.encLast_lt]
  · rw [tmod_add_zero hb.decLast_ge hb.decLast_lt]
  · rfl

/-- Putting in nothing. -/
lemma putBuf_nil (hb : RingRep b) (sm : CryptoSmode) : putBuf sm b [] = b := by
  have hring : ringPut bufSize b.buf.cell b.writeoff [] = b.buf.cell := by
    funext k
    unfold ringPut
    rw [List.getElem?_nil, Option.getD_none, ite_self]
  have hbuf : (⟨bufSize, b.buf.cell⟩ : Block UInt8) = b.buf := by rw [← hb.size]
  unfold putBuf
  rw [List.length_nil, modeBuf_zero hb, hring, hbuf, Nat.add_zero, Nat.add_zero,
    Nat.mod_eq_of_lt hb.writeoff_lt]

/-- Taking out nothing. -/
lemma takenBuf_zero (hb : RingRep b) (sm : CryptoSmode) : takenBuf sm b 0 = b := by
  unfold takenBuf
  rw [modeBuf_zero hb, Nat.add_zero, Nat.sub_zero, Nat.mod_eq_of_lt hb.readoff_lt]

/-- A write for which there is room. -/
lemma xferBody_writes (hb : RingRep b) (hx : x.Writes id P c)
    (hroom : c.length < bufSize - b.count) :
    ∃ ret, xferBody x b =
      some (putBuf x.pd.writesmode b (transform x.pd.writesmode b c), ret, []) := by
  obtain ⟨pd, env, req⟩ := x
  obtain ⟨-, -, ⟨src, hreq, hsrc⟩, hok⟩ := hx
  obtain rfl : req = .write src c.length := hreq
  have hlens := writeLens_of_not_over hb (not_writeOver_of_lt hb hroom) (by omega)
  simp only [xferBody, hlens]
  by_cases henv : env.ok
  · rw [writeBody_eq hb henv.1 henv.2 (by omega), hsrc]
    exact ⟨_, rfl⟩
  · -- the call fails, and there is nothing to write
    obtain rfl : c = [] := by
      by_contra hne
      exact henv (hok hne)
    have hnone : putBuf pd.writesmode b (transform pd.writesmode b []) = b := by
      rw [List.eq_nil_of_length_eq_zero (length_transform _ b []), putBuf_nil hb]
    rw [hnone]
    unfold writeBody
    simp only
    by_cases halloc : env.vmallocOk = false
    · exact ⟨_, if_pos halloc⟩
    · have hcopy : env.copyOk = false := by
        by_contra hcopy
        exact henv ⟨by simpa using halloc, by simpa using hcopy⟩
      rw [if_neg halloc, if_pos hcopy]
      exact ⟨_, rfl⟩

/-- A read of available characters before the end of the ring. -/
lemma xferBody_reads (hb : RingRep b) (hx : x.Reads id P c) (hcount : c.length ≤ b.count)
    (hcross : b.readoff + c.length ≤ bufSize) :
    ∃ ret, xferBody x b = some (takenBuf x.pd.readsmode b c.length, ret,
      transform x.pd.readsmode b (slice b.buf.cell b.readoff c.length)) := by
  obtain ⟨pd, env, req⟩ := x
  obtain ⟨-, -, hreq, hok⟩ := hx
  obtain rfl : req = .read c.length := hreq
  have hmin : min c.length b.count = c.length := min_eq_left hcount
  have hcross' : b.readoff + min c.length b.count ≤ bufSize := by rwa [hmin]
  have hlens := readLens_eq hcross'
  rw [hmin] at hlens
  simp only [xferBody, hlens]
  by_cases henv : env.ok
  · have hcopy : ¬ env.copyOk = false := by
      rw [henv.2]
      decide
    rw [readBody_eq hb henv.1 hcount hcross, if_neg hcopy]
    exact ⟨_, rfl⟩
  · -- the call fails, and there is nothing to read
    obtain rfl : c = [] := by
      by_contra hne
      exact henv (hok hne)
    have hnone : transform pd.readsmode b [] = [] :=
      List.eq_nil_of_length_eq_zero (length_transform _ b [])
    rw [List.length_nil, takenBuf_zero hb, show slice b.buf.cell b.readoff 0 = [] from rfl,
      hnone]
    by_cases halloc : env.vmallocOk = true
    · have hcopy : env.copyOk = false := by
        by_contra hcopy
        exact henv ⟨halloc, by simpa using hcopy⟩
      rw [readBody_eq hb halloc (Nat.zero_le _) hb.readoff_lt.le, if_pos hcopy, modeBuf_zero hb]
      exact ⟨_, rfl⟩
    · unfold readBody
      exact ⟨_, if_pos (by simpa using halloc)⟩

end call

/-! ## Runs of calls -/

/-- A call and the calls behind it. -/
lemma xfers_cons {bufs bufs₁ bufs₂ : List DevBuf} {x : Xfer} {xs : List Xfer} {ret : ℤ}
    {o₁ o₂ : List UInt8} (hx : xfer bufs x = some (bufs₁, ret, o₁))
    (hxs : xfers bufs₁ xs = some (bufs₂, o₂)) :
    xfers bufs (x :: xs) = some (bufs₂, o₁ ++ o₂) := by
  rw [xfers, hx, Option.bind_eq_bind, Option.bind_some]
  simp only
  rw [hxs]
  rfl

/-- Calls and the calls behind them. -/
lemma xfers_append {bufs bufs₁ bufs₂ : List DevBuf} {xs ys : List Xfer} {o₁ o₂ : List UInt8}
    (hxs : xfers bufs xs = some (bufs₁, o₁)) (hys : xfers bufs₁ ys = some (bufs₂, o₂)) :
    xfers bufs (xs ++ ys) = some (bufs₂, o₁ ++ o₂) := by
  induction xs generalizing bufs o₁ with
  | nil =>
      obtain ⟨rfl, rfl⟩ := Prod.mk.inj (Option.some.inj hxs)
      exact hys
  | cons x xs ih =>
      simp only [xfers, Option.bind_eq_bind, Option.bind_eq_some_iff] at hxs
      obtain ⟨⟨bufs', ret, o⟩, hx, ⟨bufs'', os⟩, hrest, hres⟩ := hxs
      cases hres
      rw [List.append_assoc]
      exact xfers_cons hx (ih hrest)

/-- **Runs of calls on one buffer.** `J` speaks about the chunks to come, the buffer and what has
been delivered so far. If every call takes it from its chunk to the next one, the calls take it to
the end of the chunks. -/
theorem xfers_run {id : ℤ} (hid : id ≠ 0) {R : Xfer → List UInt8 → Prop}
    {J : List (List UInt8) → DevBuf → List UInt8 → Prop}
    (hbuf : ∀ x c, R x c → x.pd.bufId = id)
    (hstep : ∀ c cs b out x, J (c :: cs) b out → R x c →
      ∃ b' ret o, xferBody x b = some (b', ret, o) ∧ J cs b' (out ++ o))
    {xs : List Xfer} {cs : List (List UInt8)} (hxs : List.Forall₂ R xs cs) {b : DevBuf}
    (hb : b.id = id) {out : List UInt8} (hJ : J cs b out) (rest : List DevBuf) :
    ∃ b' o, xfers (b :: rest) xs = some (b' :: rest, o) ∧ b'.id = id ∧ J [] b' (out ++ o) := by
  induction hxs generalizing b out with
  | nil => exact ⟨b, [], rfl, hb, by rwa [List.append_nil]⟩
  | @cons x c xs cs hx _ ih =>
      obtain ⟨b₁, ret, o₁, hbody, hJ₁⟩ := hstep c cs b out x hJ hx
      have hbid := hbuf x c hx
      have hcall := xfer_of_body rest (hb.trans hbid.symm) (by rwa [hbid]) hbody
      have hb₁ : b₁.id = b.id := congrArg Header.id (xferBody_header hbody)
      obtain ⟨b', o, hrun, hb', hJ'⟩ := ih (hb₁.trans hb) hJ₁
      refine ⟨b', o₁ ++ o, ?_, hb', by rwa [← List.append_assoc]⟩
      exact xfers_cons hcall hrun

section runs

variable {id : ℤ} {key : UInt8}

/-! ### Writes -/

/-- Before writes of `cs` that pass characters through: in the end the ring shows `s`. -/
def Filling (s : List UInt8) (cs : List (List UInt8)) (b : DevBuf) (out : List UInt8) : Prop :=
  out = [] ∧ ∃ log, Tracks b log 0 ∧ b.encLast = -1 ∧ log ++ cs.flatten = s

/-- Before decrypting writes of `cs`: in the end the ring shows `s`. The characters that have come
out are in the ring, and the next call finds the last of them there. -/
def Decrypting (key : UInt8) (s : List UInt8) (cs : List (List UInt8)) (b : DevBuf)
    (out : List UInt8) : Prop :=
  out = [] ∧ ∃ inp log, Tracks b log 0 ∧ b.decLast = lastPos log.length ∧
    log.length + cs.flatten.length < bufSize ∧
    inChunks (chainDec (· ^^^ ·)) (fun _ out => out.getLastD key) inp log cs = s

/-- One write that passes characters through. -/
lemma Filling.step {s c : List UInt8} {cs : List (List UInt8)} {b : DevBuf} {out : List UInt8}
    {x : Xfer} (hs : s.length < bufSize) (h : Filling s (c :: cs) b out)
    (hx : x.Writes id CryptoSmode.Passes c) :
    ∃ b' ret o, xferBody x b = some (b', ret, o) ∧ Filling s cs b' (out ++ o) := by
  obtain ⟨rfl, log, htracks, hlast, hwhole⟩ := h
  have hlen := congrArg List.length hwhole
  rw [List.flatten_cons, List.length_append, List.length_append] at hlen
  have hroom : c.length < bufSize - b.count := by
    rw [htracks.count]
    omega
  obtain ⟨ret, hbody⟩ := xferBody_writes htracks.rep hx hroom
  rw [transform_plain hx.mode] at hbody
  refine ⟨_, ret, [], hbody, rfl, log ++ c, htracks.put _ hroom, ?_, ?_⟩
  · show (modeBuf x.pd.writesmode b c.length).encLast = -1
    unfold modeBuf
    rw [show x.pd.writesmode.mode = .passthrough from hx.mode]
    exact hlast
  · rw [← hwhole, List.flatten_cons, List.append_assoc]

/-- Stepping `enc_last` or `dec_last` over a chunk. -/
lemma lastPos_step {last : ℤ} {p : ℕ} (hlast : last = lastPos p) (n : ℕ) :
    (last + n).tmod bufSize = lastPos (p + n) := by
  obtain rfl | hpos := Nat.eq_zero_or_pos n
  · have hcell : (p - 1) % bufSize < bufSize := Nat.mod_lt _ (by decide)
    rw [hlast, Nat.add_zero]
    refine tmod_add_zero ?_ ?_ <;>
      · unfold lastPos
        split_ifs <;> omega
  · rw [hlast]
    exact lastPos_add p hpos

/-- One decrypting write. -/
lemma Decrypting.step {s c : List UInt8} {cs : List (List UInt8)} {b : DevBuf}
    {out : List UInt8} {x : Xfer} (h : Decrypting key s (c :: cs) b out)
    (hx : x.Writes id (CryptoSmode.Is .dec key) c) :
    ∃ b' ret o, xferBody x b = some (b', ret, o) ∧ Decrypting key s cs b' (out ++ o) := by
  obtain ⟨rfl, inp, log, htracks, hlast, hfit, hwhole⟩ := h
  rw [List.flatten_cons, List.length_append] at hfit
  have hroom : c.length < bufSize - b.count := by
    rw [htracks.count]
    omega
  obtain ⟨hmode, hkey⟩ := hx.mode
  have hstart : chainStart b.decLast b.buf.cell key = log.getLastD key := by
    have hall := chainStart_lastPos (p := log.length) htracks.holds (Nat.zero_le _) le_rfl key
    rwa [List.take_length, ← hlast] at hall
  have htransform : transform x.pd.writesmode b c = chainDec (· ^^^ ·) (log.getLastD key) c := by
    unfold transform
    rw [hmode, hkey]
    simp only
    rw [hstart]
  obtain ⟨ret, hbody⟩ := xferBody_writes htracks.rep hx hroom
  rw [htransform] at hbody
  have hlength := length_chainDec (· ^^^ ·) (log.getLastD key) c
  refine ⟨_, ret, [], hbody, rfl, inp ++ c, _, htracks.put _ (by rwa [hlength]), ?_, ?_, hwhole⟩
  · simp only [putBuf, modeBuf_dec hmode, List.length_append]
    exact lastPos_step hlast _
  · rw [List.length_append, hlength]
    omega

/-! ### Reads -/

/-- Before encrypting reads of `cs`: the ring shows `s`, of which `inp` has been read, and in the
end the characters `r` are delivered. The next call finds the last character of `inp` in the
ring. -/
def Encrypting (key : UInt8) (s r : List UInt8) (cs : List (List UInt8)) (b : DevBuf)
    (out : List UInt8) : Prop :=
  ∃ inp, Tracks b s inp.length ∧ b.encLast = lastPos inp.length ∧ inp ++ cs.flatten = s ∧
    inChunks (chainEnc (· ^^^ ·)) (fun inp _ => inp.getLastD key) inp out cs = r

/-- One encrypting read. -/
lemma Encrypting.step {s r c : List UInt8} {cs : List (List UInt8)} {b : DevBuf}
    {out : List UInt8} {x : Xfer} (hs : s.length < bufSize)
    (h : Encrypting key s r (c :: cs) b out) (hx : x.Reads id (CryptoSmode.Is .enc key) c) :
    ∃ b' ret o, xferBody x b = some (b', ret, o) ∧ Encrypting key s r cs b' (out ++ o) := by
  obtain ⟨inp, htracks, hlast, hwhole, hresult⟩ := h
  have hlen := congrArg List.length hwhole
  rw [List.flatten_cons, List.length_append, List.length_append] at hlen
  have hcount : c.length ≤ b.count := by
    rw [htracks.count]
    omega
  have hcross : b.readoff + c.length ≤ bufSize := by
    rw [htracks.readoff, Nat.mod_eq_of_lt (by omega)]
    omega
  obtain ⟨hmode, hkey⟩ := hx.mode
  have hbegins : s.take inp.length = inp := by
    rw [← hwhole, List.take_left]
  have hchunk : (s.drop inp.length).take c.length = c := by
    rw [← hwhole, List.drop_left, List.flatten_cons, List.take_left]
  have hstart : chainStart b.encLast b.buf.cell key = inp.getLastD key := by
    rw [hlast, chainStart_lastPos htracks.holds le_rfl htracks.taken_le key, hbegins]
  have htransform : transform x.pd.readsmode b (slice b.buf.cell b.readoff c.length) =
      chainEnc (· ^^^ ·) (inp.getLastD key) c := by
    rw [htracks.slice_eq hcount hcross, hchunk]
    unfold transform
    rw [hmode, hkey]
    simp only
    rw [hstart]
  obtain ⟨ret, hbody⟩ := xferBody_reads htracks.rep hx hcount hcross
  rw [htransform] at hbody
  refine ⟨_, ret, _, hbody, inp ++ c, ?_, ?_, ?_, hresult⟩
  · rw [List.length_append]
    exact htracks.take _ hcount
  · simp only [takenBuf, modeBuf_enc hmode, List.length_append]
    exact lastPos_step hlast _
  · rw [← hwhole, List.flatten_cons, List.append_assoc]

end runs

/-! ## Streams in chunks -/

section chunks

variable {Fd : Type} [DecidableEq Fd] {d' : Device Fd} {id : ℤ} {key : UInt8}
  {cs : List (List UInt8)}

/-- The ring after writes that pass characters through. -/
lemma fill (hc : Created d' id) {ws : List Xfer} {ss : List (List UInt8)}
    (hws : List.Forall₂ (Xfer.Writes id CryptoSmode.Passes) ws ss)
    (hlen : ss.flatten.length < bufSize) :
    ∃ b rest, xfers d'.devBufs ws = some (b :: rest, []) ∧ b.id = id ∧ Tracks b ss.flatten 0 ∧
      b.encLast = -1 := by
  obtain ⟨hpos, readRef, writeRef, mem, rest, hbufs⟩ := hc.fresh
  have hid : id ≠ 0 := by omega
  have hinit : Filling ss.flatten ss (freshBuf id readRef writeRef mem) [] :=
    ⟨rfl, [], Tracks.fresh id readRef writeRef mem, rfl, rfl⟩
  obtain ⟨b, o, hrun, hb, ho, log, htracks, hlast, hwhole⟩ :=
    xfers_run hid (fun _ _ h => h.bufId) (fun _ _ _ _ _ h hx => h.step hlen hx) hws rfl
      hinit rest
  obtain rfl : o = [] := ho
  rw [List.flatten_nil, List.append_nil] at hwhole
  subst hwhole
  exact ⟨b, rest, by rw [hbufs, hrun], hb, htracks, hlast⟩

/-- What decrypting writes store. -/
lemma decrypting_stored (hc : Created d' id) {xs : List Xfer}
    (hxs : List.Forall₂ (Xfer.Writes id (CryptoSmode.Is .dec key)) xs cs)
    (hlen : cs.flatten.length < bufSize) :
    ∃ b rest, xfers d'.devBufs xs = some (b :: rest, []) ∧
      b.stored = inChunks (chainDec (· ^^^ ·)) (fun _ out => out.getLastD key) [] [] cs := by
  obtain ⟨hpos, readRef, writeRef, mem, rest, hbufs⟩ := hc.fresh
  have hid : id ≠ 0 := by omega
  have hinit : Decrypting key _ cs (freshBuf id readRef writeRef mem) [] :=
    ⟨rfl, [], [], Tracks.fresh id readRef writeRef mem, rfl, by simpa using hlen, rfl⟩
  obtain ⟨b, o, hrun, -, ho, inp, log, htracks, -, -, hwhole⟩ :=
    xfers_run hid (fun _ _ h => h.bufId) (fun _ _ _ _ _ h hx => h.step hx) hxs rfl
      hinit rest
  obtain rfl : o = [] := ho
  refine ⟨b, rest, by rw [hbufs, hrun], ?_⟩
  have hreadoff : b.readoff = 0 := htracks.readoff
  unfold DevBuf.stored
  rw [htracks.slice_eq le_rfl (by rw [hreadoff]; have := htracks.rep.count_le; omega),
    List.drop_zero, htracks.count, Nat.sub_zero, List.take_length, ← hwhole]
  rfl

/-- What encrypting reads deliver, of a ring that shows `s`. -/
lemma encrypting_delivered {s : List UInt8} (hs : s.length < bufSize) (hid : id ≠ 0)
    {xs : List Xfer} (hxs : List.Forall₂ (Xfer.Reads id (CryptoSmode.Is .enc key)) xs cs)
    (hcs : cs.flatten = s) {b : DevBuf} (hb : b.id = id) (htracks : Tracks b s 0)
    (hlast : b.encLast = -1) (rest : List DevBuf) :
    ∃ bufs, xfers (b :: rest) xs =
      some (bufs, inChunks (chainEnc (· ^^^ ·)) (fun inp _ => inp.getLastD key) [] [] cs) := by
  have hinit : Encrypting key s _ cs b [] := ⟨[], htracks, hlast, hcs, rfl⟩
  obtain ⟨b', o, hrun, -, inp, -, -, -, hwhole⟩ :=
    xfers_run hid (fun _ _ h => h.bufId) (fun _ _ _ _ _ h hx => h.step hs hx) hxs hb hinit rest
  exact ⟨_, by rw [hrun, ← hwhole]; rfl⟩

lemma xor_injective (a : UInt8) : Function.Injective (a ^^^ ·) :=
  fun _ _ h => (UInt8.xor_right_inj a).mp h

/-- A character is left alone by mixing with 0 only. -/
lemma xor_eq_left_iff (a b : UInt8) : a ^^^ b = a ↔ b = 0 := by
  conv_lhs => rhs; rw [← UInt8.xor_zero (a := a)]
  exact UInt8.xor_right_inj a

/-- What decrypting writes store is what one write of everything stores if and only if, at every
cut, the character before the last one (the key, if there is no such character) is 0. -/
theorem stored_iff_cuts (hc : Created d' id) (hlen : cs.flatten.length < bufSize) {xs : List Xfer}
    {y : Xfer} (hxs : List.Forall₂ (Xfer.Writes id (CryptoSmode.Is .dec key)) xs cs)
    (hy : y.Writes id (CryptoSmode.Is .dec key) cs.flatten) :
    ∃ b b₁ rest rest₁, xfers d'.devBufs xs = some (b :: rest, []) ∧
      xfers d'.devBufs [y] = some (b₁ :: rest₁, []) ∧
      (b.stored = b₁.stored ↔ ∀ front, IsCut cs front → front.dropLast.getLastD key = 0) := by
  obtain ⟨b, rest, hrun, hstored⟩ := decrypting_stored hc hxs hlen
  obtain ⟨b₁, rest₁, hrun₁, hstored₁⟩ := decrypting_stored hc (.cons hy .nil) (by simpa using hlen)
  refine ⟨b, b₁, rest, rest₁, hrun, hrun₁, ?_⟩
  have hwhole : b₁.stored = chainDec (· ^^^ ·) key cs.flatten := hstored₁
  rw [hstored, hwhole, chainDec_inChunks_iff _ xor_injective]
  exact forall₂_congr fun front _ => xor_eq_left_iff _ _

/-- What encrypting reads deliver is what one read of everything delivers if and only if, at every
cut, the key mixed with all characters but the last one is 0. -/
theorem delivered_iff_cuts (hc : Created d' id) (hlen : cs.flatten.length < bufSize)
    {ws xs : List Xfer} {ss : List (List UInt8)} {y : Xfer}
    (hws : List.Forall₂ (Xfer.Writes id CryptoSmode.Passes) ws ss)
    (hss : ss.flatten = cs.flatten)
    (hxs : List.Forall₂ (Xfer.Reads id (CryptoSmode.Is .enc key)) xs cs)
    (hy : y.Reads id (CryptoSmode.Is .enc key) cs.flatten) :
    ∃ bufs bufs₁ out out₁, xfers d'.devBufs (ws ++ xs) = some (bufs, out) ∧
      xfers d'.devBufs (ws ++ [y]) = some (bufs₁, out₁) ∧
      (out = out₁ ↔ ∀ front, IsCut cs front → front.dropLast.foldl (· ^^^ ·) key = 0) := by
  have hpos := hc.fresh.1
  have hid : id ≠ 0 := by omega
  rw [← hss] at hlen
  obtain ⟨b, rest, hfill, hb, htracks, hlast⟩ := fill hc hws hlen
  obtain ⟨bufs, hrun⟩ := encrypting_delivered hlen hid hxs hss.symm hb htracks hlast rest
  obtain ⟨bufs₁, hrun₁⟩ := encrypting_delivered hlen hid (.cons hy .nil) (by simpa using hss.symm)
    hb htracks hlast rest
  refine ⟨bufs, bufs₁, _, _, xfers_append hfill hrun, xfers_append hfill hrun₁, ?_⟩
  have hcomm : (fun acc x : UInt8 => x ^^^ acc) = (· ^^^ ·) := by
    funext acc x
    exact UInt8.xor_comm x acc
  rw [List.nil_append, List.nil_append]
  show _ = chainEnc (· ^^^ ·) key cs.flatten ↔ _
  rw [chainEnc_inChunks_iff _ xor_injective, hcomm]
  exact forall₂_congr fun front _ => xor_eq_left_iff _ _

/-- **Streams in chunks.** A stream shorter than the ring, cut in any way into calls on a created
buffer and transformed with one key. (a) Decrypting writes store what one decrypting write of the
whole stream stores if and only if, at every cut, the character before the last one is 0. (b) After
the stream has been stored as it is, encrypting reads deliver what one encrypting read of the whole
stream delivers if and only if, at every cut, the key mixed with all characters but the last one
is 0. A cut after one character asks for the key 0 in both. -/
theorem chunks_iff_cuts (hc : Created d' id) (key : UInt8) {cs : List (List UInt8)}
    (hlen : cs.flatten.length < bufSize) :
    (∀ xs y, List.Forall₂ (Xfer.Writes id (CryptoSmode.Is .dec key)) xs cs →
      y.Writes id (CryptoSmode.Is .dec key) cs.flatten →
      ∃ b b₁ rest rest₁, xfers d'.devBufs xs = some (b :: rest, []) ∧
        xfers d'.devBufs [y] = some (b₁ :: rest₁, []) ∧
        (b.stored = b₁.stored ↔ ∀ front, IsCut cs front → front.dropLast.getLastD key = 0)) ∧
    ∀ ws ss xs y, List.Forall₂ (Xfer.Writes id CryptoSmode.Passes) ws ss →
      ss.flatten = cs.flatten → List.Forall₂ (Xfer.Reads id (CryptoSmode.Is .enc key)) xs cs →
      y.Reads id (CryptoSmode.Is .enc key) cs.flatten →
      ∃ bufs bufs₁ out out₁, xfers d'.devBufs (ws ++ xs) = some (bufs, out) ∧
        xfers d'.devBufs (ws ++ [y]) = some (bufs₁, out₁) ∧
        (out = out₁ ↔
          ∀ front, IsCut cs front → front.dropLast.foldl (· ^^^ ·) key = 0) :=
  ⟨fun _ _ hxs hy => stored_iff_cuts hc hlen hxs hy,
    fun _ _ _ _ hws hss hxs hy => delivered_iff_cuts hc hlen hws hss hxs hy⟩

end chunks

/-! ### A new buffer -/

/-- A descriptor of buffer 1 that decrypts what it writes and encrypts what it reads. -/
def recodedPd (key : UInt8) : PrivData := ⟨1, ⟨.read, .enc, key⟩, ⟨.write, .dec, key⟩⟩

/-- A write of `c`. -/
def writeCall (pd : PrivData) (c : List UInt8) : Xfer :=
  ⟨pd, goodEnv, .write (fun k => c.getD k 0) c.length⟩

/-- A read of as many characters as `c` has. -/
def readCall (pd : PrivData) (c : List UInt8) : Xfer := ⟨pd, goodEnv, .read c.length⟩

lemma writes_writeCall {id : ℤ} {P : CryptoSmode → Prop} {pd : PrivData} (hid : pd.bufId = id)
    (hP : P pd.writesmode) (c : List UInt8) : (writeCall pd c).Writes id P c where
  bufId := hid
  mode := hP
  req := by
    refine ⟨_, rfl, slice_eq_of_getElem fun k hk => ?_⟩
    rw [Nat.zero_add, List.getD_eq_getElem?_getD, List.getElem?_eq_getElem hk, Option.getD_some]
  ok _ := ⟨rfl, rfl⟩

lemma reads_readCall {id : ℤ} {P : CryptoSmode → Prop} {pd : PrivData} (hid : pd.bufId = id)
    (hP : P pd.readsmode) (c : List UInt8) : (readCall pd c).Reads id P c :=
  ⟨hid, hP, rfl, fun _ => ⟨rfl, rfl⟩⟩

/-- The calls that write or read the chunks `cs`. -/
lemma forall₂_map_call {R : Xfer → List UInt8 → Prop} {call : List UInt8 → Xfer}
    (h : ∀ c, R (call c) c) (cs : List (List UInt8)) : List.Forall₂ R (cs.map call) cs := by
  rw [List.forall₂_map_left_iff]
  exact List.forall₂_same.mpr fun c _ => h c

/-- With the key 0, the two characters 5 and 6 can be written and read one by one. -/
theorem chunks_iff_cuts_oneBuffer :
    (∃ b b₁ rest rest₁,
      xfers oneBuffer.devBufs ([[5], [6]].map (writeCall (recodedPd 0))) =
        some (b :: rest, []) ∧
      xfers oneBuffer.devBufs [writeCall (recodedPd 0) [5, 6]] = some (b₁ :: rest₁, []) ∧
      b.stored = b₁.stored) ∧
    ∃ bufs bufs₁ out,
      xfers oneBuffer.devBufs
        ([writeCall plainPd [5, 6]] ++ [[5], [6]].map (readCall (recodedPd 0))) =
          some (bufs, out) ∧
      xfers oneBuffer.devBufs ([writeCall plainPd [5, 6]] ++ [readCall (recodedPd 0) [5, 6]]) =
        some (bufs₁, out) := by
  have hwrite : ∀ c, (writeCall (recodedPd 0) c).Writes 1 (CryptoSmode.Is .dec 0) c :=
    writes_writeCall rfl ⟨rfl, rfl⟩
  have hfill : ∀ c, (writeCall plainPd c).Writes 1 CryptoSmode.Passes c := writes_writeCall rfl rfl
  have hread : ∀ c, (readCall (recodedPd 0) c).Reads 1 (CryptoSmode.Is .enc 0) c :=
    reads_readCall rfl ⟨rfl, rfl⟩
  obtain ⟨hstored, hdelivered⟩ :=
    chunks_iff_cuts created_oneBuffer 0 (show ([[5], [6]] : List (List UInt8)).flatten.length <
      bufSize by decide)
  constructor
  · obtain ⟨b, b₁, rest, rest₁, hrun, hrun₁, hiff⟩ :=
      hstored _ _ (forall₂_map_call hwrite _) (hwrite [5, 6])
    refine ⟨b, b₁, rest, rest₁, hrun, hrun₁, hiff.mpr ?_⟩
    intro front hcut
    rw [hcut.pair]
    rfl
  · obtain ⟨bufs, bufs₁, out, out₁, hrun, hrun₁, hiff⟩ :=
      hdelivered _ [[5, 6]] _ _ (forall₂_map_call hfill _) rfl (forall₂_map_call hread _)
        (hread [5, 6])
    obtain rfl : out = out₁ := by
      refine hiff.mpr fun front hcut => ?_
      rw [hcut.pair]
      rfl
    exact ⟨bufs, bufs₁, out, hrun, hrun₁⟩

/-- With the key 42 they cannot: written one by one they are stored differently, and read one by
one they are delivered differently. -/
theorem chunks_differ_oneBuffer :
    Created oneBuffer 1 ∧ (∃ b b₁ rest rest₁,
      xfers oneBuffer.devBufs ([[5], [6]].map (writeCall (recodedPd 42))) =
        some (b :: rest, []) ∧
      xfers oneBuffer.devBufs [writeCall (recodedPd 42) [5, 6]] = some (b₁ :: rest₁, []) ∧
      b.stored ≠ b₁.stored) ∧
    ∃ bufs bufs₁ out out₁,
      xfers oneBuffer.devBufs
        ([writeCall plainPd [5, 6]] ++ [[5], [6]].map (readCall (recodedPd 42))) =
          some (bufs, out) ∧
      xfers oneBuffer.devBufs ([writeCall plainPd [5, 6]] ++ [readCall (recodedPd 42) [5, 6]]) =
        some (bufs₁, out₁) ∧ out ≠ out₁ := by
  have hwrite : ∀ c, (writeCall (recodedPd 42) c).Writes 1 (CryptoSmode.Is .dec 42) c :=
    writes_writeCall rfl ⟨rfl, rfl⟩
  have hfill : ∀ c, (writeCall plainPd c).Writes 1 CryptoSmode.Passes c := writes_writeCall rfl rfl
  have hread : ∀ c, (readCall (recodedPd 42) c).Reads 1 (CryptoSmode.Is .enc 42) c :=
    reads_readCall rfl ⟨rfl, rfl⟩
  have hlen : ([[5], [6]] : List (List UInt8)).flatten.length < bufSize := by decide
  have hcut : IsCut [[5], [6]] ([5] : List UInt8) := isCut_pair (by simp) (by simp)
  refine ⟨created_oneBuffer, ?_, ?_⟩
  · obtain ⟨b, b₁, rest, rest₁, hrun, hrun₁, hiff⟩ := stored_iff_cuts created_oneBuffer hlen
      (forall₂_map_call hwrite _) (hwrite [5, 6])
    refine ⟨b, b₁, rest, rest₁, hrun, hrun₁, fun hsame => ?_⟩
    exact absurd (hiff.mp hsame [5] hcut) (by decide)
  · obtain ⟨bufs, bufs₁, out, out₁, hrun, hrun₁, hiff⟩ := delivered_iff_cuts
      created_oneBuffer hlen (forall₂_map_call hfill [[5, 6]]) rfl (forall₂_map_call hread _)
        (hread [5, 6])
    refine ⟨bufs, bufs₁, out, out₁, hrun, hrun₁, fun hsame => ?_⟩
    exact absurd (hiff.mp hsame [5] hcut) (by decide)

end Comp3301.Crypto
