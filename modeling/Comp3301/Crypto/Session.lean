import Comp3301.Crypto.TransferSpec
import Comp3301.Crypto.Ids

/-!
# The crypto device: sequences of transfers on one buffer

`device_read` and `device_write` calls, one after the other, on a buffer that
`CRYPTO_IOCCREATE` has just delivered. The calls may come from different descriptors, each with its
own modes.

* `Session` is the state of such a sequence: the buffers of the driver, and as history variables
  the characters passed to the writes and those delivered by the reads. `SessionBy id P` is the set
  of states in sequences on the buffer `id` whose calls all meet `P`; properties of all of them are
  proved with `SessionBy.invariant`.
* `ring_wellFormed`: the ring stays well formed, and no index leaves its array, in sequences whose
  calls all fit (`Fits`): a read does not cross the end of the ring, and a write either passes the
  overflow test and has room, or is cut to the room there is. The code guarantees neither.
-/

set_option linter.unusedSectionVars false

namespace Comp3301.Crypto

open Comp3301.Lib

/-! ## Transfer calls -/

/-- The request of a transfer call. -/
inductive Req where
  | read (len : ℕ)
  | write (src : ℕ → UInt8) (len : ℕ)

/-- The length asked for. -/
def Req.len : Req → ℕ
  | .read len => len
  | .write _ len => len

/-- The characters that the user passes. -/
def Req.passed : Req → List UInt8
  | .read _ => []
  | .write src len => slice src 0 len

/-- A transfer call, by a descriptor with private data `pd`. -/
structure Xfer where
  pd : PrivData
  env : XferEnv
  req : Req

/-- The call on the buffers of the driver. -/
def xfer (bufs : List DevBuf) (x : Xfer) : Option (Xferred (List DevBuf)) :=
  match x.req with
  | .read len => deviceRead x.env bufs x.pd len
  | .write src len => deviceWrite x.env bufs x.pd src len

/-- The call on the buffer found. -/
def xferBody (x : Xfer) (b : DevBuf) : Option (Xferred DevBuf) :=
  match x.req with
  | .read len => readBody x.env x.pd.readsmode b (readLens b len)
  | .write src len => writeBody x.env x.pd.writesmode b src (writeLens b len)

lemma xfer_eq (bufs : List DevBuf) (x : Xfer) :
    xfer bufs x = onBuffer bufs x.pd (xferBody x) := by
  obtain ⟨pd, env, req⟩ := x
  cases req <;> rfl

lemma xferBody_header {x : Xfer} {b b' : DevBuf} {ret : ℤ} {out : List UInt8}
    (h : xferBody x b = some (b', ret, out)) : b'.header = b.header := by
  obtain ⟨pd, env, req⟩ := x
  cases req with
  | read len => exact readBody_header h
  | write src len => exact writeBody_header h

/-- A call on the first buffer of the list. -/
lemma xfer_head {x : Xfer} {b : DevBuf} (rest : List DevBuf) (hb : b.id = x.pd.bufId)
    (hid : x.pd.bufId ≠ 0) :
    xfer (b :: rest) x = (xferBody x b).map fun r => (r.1 :: rest, r.2) := by
  have hs : searchEntry x.pd.bufId (b :: rest) = some (0, b) :=
    searchEntry_cons_self hb rest
  rw [xfer_eq, onBuffer, if_neg hid]
  simp only [hs]
  cases xferBody x b <;> rfl

lemma xfer_of_body {x : Xfer} {b b' : DevBuf} (rest : List DevBuf) (hb : b.id = x.pd.bufId)
    (hid : x.pd.bufId ≠ 0) {ret : ℤ} {out : List UInt8}
    (hbody : xferBody x b = some (b', ret, out)) :
    xfer (b :: rest) x = some (b' :: rest, ret, out) := by
  rw [xfer_head rest hb hid, hbody]
  rfl

/-! ## Sessions -/

/-- A sequence of transfers, so far. -/
structure Session where
  bufs : List DevBuf
  /-- What has been passed to the writes. -/
  written : List UInt8
  /-- What the reads have delivered. -/
  delivered : List UInt8

/-- One more call. -/
def Session.Next (s : Session) (x : Xfer) (s' : Session) : Prop :=
  ∃ bufs ret out, xfer s.bufs x = some (bufs, ret, out) ∧
    s' = ⟨bufs, s.written ++ x.req.passed, s.delivered ++ out⟩

/-- The call is on the buffer `id` and meets `P` with the buffer as it is at that moment. -/
def OnBuffer (id : ℤ) (P : DevBuf → Xfer → Prop) (s : Session) (x : Xfer) : Prop :=
  x.pd.bufId = id ∧ ∃ e, searchEntry id s.bufs = some e ∧ P e.2 x

/-- Sequences of calls on the buffer `id` that all meet `P`, starting from `bufs`. -/
abbrev SessionBy (id : ℤ) (P : DevBuf → Xfer → Prop) (bufs : List DevBuf) : Session → Prop :=
  Reach ⟨bufs, [], []⟩ Session.Next (OnBuffer id P)

/-- `CRYPTO_IOCCREATE`, in some state of some run, has returned the id `id` and left the driver in
the state `d'`. -/
def Created {Fd : Type} [DecidableEq Fd] (d' : Device Fd) (id : ℤ) : Prop :=
  ∃ d a fd filp, Reachable d ∧ d.files fd = some filp ∧
    deviceIoctl a d fd filp .create = (d', id) ∧ 0 ≤ id

section session

variable {Fd : Type} [DecidableEq Fd] {d' : Device Fd} {id : ℤ} {P : DevBuf → Xfer → Prop}

/-- A created buffer is the first one on the list and is fresh. -/
lemma Created.fresh (h : Created d' id) :
    1 ≤ id ∧ ∃ readRef writeRef mem rest,
      d'.devBufs = freshBuf id readRef writeRef mem :: rest := by
  obtain ⟨d, a, fd, filp, hd, -, hcreate, hid⟩ := h
  have hpos : 1 ≤ (takeId d).1 :=
    ((ReachableBy.idsOk hd).takeId.range d.registry.takeId.1 (by simp)).1
  unfold deviceIoctl ioctlCreate at hcreate
  have hneg : ∀ {n : ℤ}, 0 < n → ((d, -n) : Device Fd × ℤ) ≠ (d', id) := by
    intro n hn h
    have := congrArg Prod.snd h
    simp only at this
    omega
  by_cases hattached : filp.privateData.bufId ≠ 0
  · rw [if_pos hattached] at hcreate
    exact absurd hcreate (hneg (by decide))
  rw [if_neg hattached] at hcreate
  by_cases hdev : a.devBuf = false
  · rw [if_pos hdev] at hcreate
    exact absurd hcreate (hneg (by decide))
  rw [if_neg hdev] at hcreate
  by_cases hring : a.ring = false
  · rw [if_pos hring] at hcreate
    exact absurd hcreate (hneg (by decide))
  rw [if_neg hring] at hcreate
  by_cases hnode : a.node = false
  · rw [if_pos hnode] at hcreate
    have hret := congrArg Prod.snd hcreate
    simp only [enomem] at hret
    omega
  · rw [if_neg hnode] at hcreate
    obtain ⟨rfl, rfl⟩ := Prod.mk.inj hcreate
    exact ⟨hpos, _, _, _, _, rfl⟩

/-- **The invariant rule for sequences of transfers.** What holds of a fresh buffer and is kept by
every call that meets `P` holds throughout. -/
theorem SessionBy.invariant {I : DevBuf → List UInt8 → List UInt8 → Prop} (hc : Created d' id)
    (hinit : ∀ readRef writeRef mem, I (freshBuf id readRef writeRef mem) [] [])
    (hstep : ∀ b written delivered x b' ret out, I b written delivered → P b x →
      xferBody x b = some (b', ret, out) →
      I b' (written ++ x.req.passed) (delivered ++ out))
    {s : Session} (hs : SessionBy id P d'.devBufs s) :
    ∃ b rest, s.bufs = b :: rest ∧ b.id = id ∧ I b s.written s.delivered := by
  obtain ⟨hpos, readRef, writeRef, mem, rest, hbufs⟩ := hc.fresh
  refine Reach.invariant
    (P := fun s => ∃ b rest, s.bufs = b :: rest ∧ b.id = id ∧ I b s.written s.delivered) ?_ ?_ hs
  · exact ⟨_, _, hbufs, rfl, hinit readRef writeRef mem⟩
  · rintro s x s' - ⟨b, rest, hb, hbid, hI⟩ ⟨hx, e, he, hP⟩ ⟨bufs, ret, out, hxfer, rfl⟩
    have hs : searchEntry id s.bufs = some (0, b) := by
      rw [hb]
      exact searchEntry_cons_self hbid rest
    rw [hs] at he
    cases he
    rw [hb, xfer_head rest (hbid.trans hx.symm) (by omega), Option.map_eq_some_iff] at hxfer
    obtain ⟨⟨b', ret', out'⟩, hbody, hres⟩ := hxfer
    cases hres
    have hbid' : b'.id = b.id := congrArg Header.id (xferBody_header hbody)
    exact ⟨b', rest, rfl, hbid'.trans hbid, hstep b _ _ x b' _ _ hI hP hbody⟩

/-- One more call on the first buffer. -/
lemma SessionBy.call {bufs rest : List DevBuf} {s : Session} {b b' : DevBuf} {x : Xfer} {ret : ℤ}
    {out : List UInt8} (hs : SessionBy id P bufs s) (hbufs : s.bufs = b :: rest) (hbid : b.id = id)
    (hid : id ≠ 0) (hx : x.pd.bufId = id) (hP : P b x)
    (hbody : xferBody x b = some (b', ret, out)) :
    SessionBy id P bufs ⟨b' :: rest, s.written ++ x.req.passed, s.delivered ++ out⟩ := by
  refine hs.step (k := x) ⟨hx, (0, b), ?_, hP⟩ ⟨b' :: rest, ret, out, ?_, rfl⟩
  · rw [hbufs]
    exact searchEntry_cons_self hbid rest
  · rw [hbufs]
    exact xfer_of_body rest (hbid.trans hx.symm) (by rw [hx]; exact hid) hbody

end session

/-! ## The ring during a session -/

/-- No failure outside the driver. -/
def XferEnv.ok (env : XferEnv) : Prop := env.vmallocOk = true ∧ env.copyOk = true

/-- The call fits the ring: a read stays before the end of the ring; a write passes the overflow
test and there is room for it, or the overflow test cuts it to the room there is. -/
def Fits (b : DevBuf) (x : Xfer) : Prop :=
  match x.req with
  | .read len => b.readoff + min len b.count ≤ bufSize
  | .write _ len =>
      if writeOver b len then b.writeoff + b.readoff + min len (bufSize - b.count) = bufSize
      else len ≤ bufSize - b.count

instance (b : DevBuf) : DecidablePred (Fits b)
  | ⟨_, _, .read len⟩ => inferInstanceAs (Decidable (b.readoff + min len b.count ≤ bufSize))
  | ⟨_, _, .write _ len⟩ => inferInstanceAs (Decidable (if writeOver b len then
      b.writeoff + b.readoff + min len (bufSize - b.count) = bufSize
      else len ≤ bufSize - b.count))

/-- What a call should do to the ring: it stays well formed, a write leaves the unread characters
alone, and the amount transferred is the request, cut to the free space or to the available
data. -/
structure RingLaw (b b' : DevBuf) (x : Xfer) : Prop where
  rep : RingRep b'
  unread : ∀ src len, x.req = .write src len → ∀ k < b.count,
    b'.buf.cell ((b.readoff + k) % bufSize) = b.buf.cell ((b.readoff + k) % bufSize)
  taken : ∀ len, x.req = .read len → x.env.ok → b'.count = b.count - min len b.count
  put : ∀ src len, x.req = .write src len → x.env.ok →
    b'.count = b.count + min len (bufSize - b.count)

section ringLaw

variable {b : DevBuf}

/-- Storing into the free space leaves the unread characters alone. -/
lemma putBuf_unread (hb : RingRep b) (sm : CryptoSmode) {xs : List UInt8}
    (hxs : xs.length ≤ bufSize - b.count) {k : ℕ} (hk : k < b.count) :
    (putBuf sm b xs).buf.cell ((b.readoff + k) % bufSize) =
      b.buf.cell ((b.readoff + k) % bufSize) := by
  have hc := hb.count_le
  have hcell : (b.readoff + k) % bufSize = (b.writeoff + (bufSize - b.count + k)) % bufSize := by
    rw [hb.writeoff_eq, Nat.mod_add_mod,
      show b.readoff + b.count + (bufSize - b.count + k) = b.readoff + k + bufSize by omega,
      Nat.add_mod_right]
  rw [hcell]
  exact ringPut_of_ge hb.writeoff_lt (by omega) (by omega)

/-- A read that fits. -/
lemma read_ringLaw {pd : PrivData} {env : XferEnv} {len : ℕ} (hb : RingRep b)
    (hfit : b.readoff + min len b.count ≤ bufSize) :
    ∃ b' ret out, xferBody ⟨pd, env, .read len⟩ b = some (b', ret, out) ∧
      RingLaw b b' ⟨pd, env, .read len⟩ := by
  simp only [xferBody]
  rw [readLens_eq hfit]
  by_cases halloc : env.vmallocOk = true
  · rw [readBody_eq hb halloc (min_le_right len b.count) hfit]
    by_cases hcopy : env.copyOk = false
    · rw [if_pos hcopy]
      refine ⟨_, _, _, rfl, hb.modeBuf _ _, by simp, ?_, by simp⟩
      rintro _ - ⟨-, hok⟩
      rw [hcopy] at hok
      cases hok
    · rw [if_neg hcopy]
      refine ⟨_, _, _, rfl, hb.takenBuf _ (min_le_right len b.count), by simp, ?_,
        by simp⟩
      intro len' hlen' _
      cases hlen'
      rfl
  · refine ⟨b, -enomem, [], ?_, hb, by simp, fun _ _ hok => absurd hok.1 halloc,
      by simp⟩
    unfold readBody
    exact if_pos (by simpa using halloc)

/-- The lengths of a write that fits. -/
lemma writeLens_of_fits {pd : PrivData} {env : XferEnv} {src : ℕ → UInt8} {len : ℕ}
    (hb : RingRep b) (hfit : Fits b ⟨pd, env, .write src len⟩) :
    ∃ err, writeLens b len = ringLens b.writeoff (min len (bufSize - b.count)) err := by
  simp only [Fits] at hfit
  by_cases hover : writeOver b len
  · rw [if_pos hover] at hfit
    exact ⟨true, writeLens_of_over hb hover hfit⟩
  · rw [if_neg hover] at hfit
    refine ⟨false, ?_⟩
    rw [min_eq_left hfit]
    exact writeLens_of_not_over hb hover (by omega)

/-- A write that fits. -/
lemma write_ringLaw {pd : PrivData} {env : XferEnv} {src : ℕ → UInt8} {len : ℕ} (hb : RingRep b)
    (hfit : Fits b ⟨pd, env, .write src len⟩) :
    ∃ b' ret out, xferBody ⟨pd, env, .write src len⟩ b = some (b', ret, out) ∧
      RingLaw b b' ⟨pd, env, .write src len⟩ := by
  obtain ⟨err, hlens⟩ := writeLens_of_fits hb hfit
  simp only [xferBody]
  rw [hlens]
  by_cases hok : env.ok
  · have hroom : min len (bufSize - b.count) ≤ bufSize - b.count := min_le_right _ _
    have hlen : (transform pd.writesmode b (slice src 0 (min len (bufSize - b.count)))).length =
        min len (bufSize - b.count) := by simp
    rw [writeBody_eq hb hok.1 hok.2 (by omega)]
    refine ⟨_, _, _, rfl, hb.putBuf _ (by omega), ?_, by simp, ?_⟩
    · intro _ _ _ k hk
      exact putBuf_unread hb _ (by omega) hk
    · intro src' len' hreq _
      cases hreq
      simp [putBuf]
  · have hlaw : RingLaw b b ⟨pd, env, .write src len⟩ :=
      ⟨hb, fun _ _ _ _ _ => rfl, by simp, fun _ _ _ h => absurd h hok⟩
    unfold writeBody
    by_cases halloc : env.vmallocOk = false
    · exact ⟨b, -enomem, [], if_pos halloc, hlaw⟩
    · have hcopy : env.copyOk = false := by
        by_contra hcopy
        exact hok ⟨by simpa using halloc, by simpa using hcopy⟩
      refine ⟨b, -efault, [], ?_, hlaw⟩
      simp only
      rw [if_neg halloc, if_pos hcopy]

/-- **One call.** A call that fits a well-formed ring stays inside all arrays and keeps the law of
the ring. -/
theorem xferBody_ringLaw (hb : RingRep b) {x : Xfer} (hfit : Fits b x) :
    ∃ b' ret out, xferBody x b = some (b', ret, out) ∧ RingLaw b b' x := by
  obtain ⟨pd, env, req⟩ := x
  cases req with
  | read len => exact read_ringLaw hb hfit
  | write src len => exact write_ringLaw hb hfit

end ringLaw

/-- **The ring stays well formed.** In every sequence of transfers on a created buffer whose calls
all fit: the ring is well formed at every point, and every further call that fits stays inside all
arrays and keeps the law of the ring. -/
theorem ring_wellFormed {Fd : Type} [DecidableEq Fd] {d' : Device Fd} {id : ℤ}
    (hc : Created d' id) {s : Session} (hs : SessionBy id Fits d'.devBufs s) :
    ∃ b rest, s.bufs = b :: rest ∧ b.id = id ∧ RingRep b ∧
      ∀ x, x.pd.bufId = id → Fits b x →
        ∃ b' ret out, xfer s.bufs x = some (b' :: rest, ret, out) ∧ RingLaw b b' x := by
  obtain ⟨b, rest, hbufs, hbid, hb⟩ := SessionBy.invariant (I := fun b _ _ => RingRep b) hc
    (ringRep_freshBuf id) (by
      intro b _ _ x b' ret out hb hfit hbody
      obtain ⟨b'', ret', out', hbody', hlaw⟩ := xferBody_ringLaw hb hfit
      rw [hbody] at hbody'
      cases hbody'
      exact hlaw.rep) hs
  refine ⟨b, rest, hbufs, hbid, hb, ?_⟩
  intro x hx hfit
  obtain ⟨b', ret, out, hbody, hlaw⟩ := xferBody_ringLaw hb hfit
  refine ⟨b', ret, out, ?_, hlaw⟩
  have hpos := hc.fresh.1
  rw [hbufs]
  exact xfer_of_body rest (hbid.trans hx.symm) (by omega) hbody

/-! ### A new buffer -/

/-- The buffer created in `oneBuffer`. -/
def newBuf : DevBuf := freshBuf 1 true true fun _ => 0

/-- A descriptor attached to it that passes characters through. -/
def plainPd : PrivData := { newPrivData with bufId := 1 }

/-- Nothing fails outside the driver. -/
def goodEnv : XferEnv := ⟨true, fun _ => 0, true⟩

lemma created_oneBuffer : Created oneBuffer 1 :=
  ⟨oneFile, goodAlloc, (), _, reachable_oneFile, rfl, rfl, by decide⟩

lemma oneBuffer_devBufs : oneBuffer.devBufs = [newBuf] := rfl

/-- A write of 100 characters to a new buffer. -/
theorem ring_wellFormed_newBuf :
    ∃ b', RingRep b' ∧ b'.count = 100 ∧ ∃ ret out,
      xfer oneBuffer.devBufs ⟨plainPd, goodEnv, .write (fun _ => 7) 100⟩ =
        some ([b'], ret, out) := by
  obtain ⟨b, rest, hbufs, -, -, hcall⟩ := ring_wellFormed created_oneBuffer Reach.init
  obtain ⟨rfl, rfl⟩ := List.cons.inj (oneBuffer_devBufs.symm.trans hbufs)
  obtain ⟨b', ret, out, hxfer, hlaw⟩ :=
    hcall ⟨plainPd, goodEnv, .write (fun _ => 7) 100⟩ rfl (by decide)
  refine ⟨b', hlaw.rep, ?_, ret, out, hxfer⟩
  rw [hlaw.put _ 100 rfl ⟨rfl, rfl⟩]
  rfl

/-- A write of more than `BUF_SIZE` characters to a new buffer is not cut: it goes round the ring
and over itself, and all of it is counted. -/
lemma write_newBuf_long {n : ℕ} (hlow : bufSize < n) (hhigh : n ≤ 2 * bufSize) (src : ℕ → UInt8) :
    ∃ b', xfer oneBuffer.devBufs ⟨plainPd, goodEnv, .write src n⟩ = some ([b'], (n : ℤ), []) ∧
      b'.count = n := by
  have hlens : writeLens newBuf n = ⟨bufSize, n - bufSize, true, false⟩ := by
    have hover : ¬ writeOver newBuf n := fun h => absurd h.1 (by decide)
    have hoff : unsigned 64 ((newBuf.writeoff : ℤ) + n) = n := by
      rw [show ((newBuf.writeoff : ℤ) + n) = n from Int.zero_add n]
      exact unsigned_natCast (by unfold bufSize at hhigh; omega)
    have hrest : unsigned 64 ((newBuf.writeoff : ℤ) + n - bufSize) = n - bufSize := by
      rw [show ((newBuf.writeoff : ℤ) + n - bufSize) = ((n - bufSize : ℕ) : ℤ) by
        rw [show ((newBuf.writeoff : ℤ) + n) = n from Int.zero_add n, Nat.cast_sub hlow.le]]
      exact unsigned_natCast (by unfold bufSize at hhigh ⊢; omega)
    unfold writeLens
    simp only [if_neg hover, decide_eq_false hover]
    rw [if_pos (by rw [hoff]; exact hlow), hrest]
    rfl
  let temp : Block UInt8 := ⟨n, fun k => if k < n then src k else goodEnv.tempMem k⟩
  have hfrom : copyFromUser ⟨n, goodEnv.tempMem⟩ src n = some temp := if_pos le_rfl
  have hcopies := writeCopies_wrap (b := newBuf) (k := n - bufSize) false rfl
    (Nat.zero_add bufSize).le (by omega) (show bufSize + (n - bufSize) ≤ temp.size from
      (Nat.add_sub_cancel' hlow.le).le)
  have htotal : unsigned 64 ((bufSize : ℤ) + (n - bufSize : ℕ)) = n := by
    rw [← Nat.cast_add, Nat.add_sub_cancel' hlow.le]
    exact unsigned_natCast (by unfold bufSize at hhigh; omega)
  have hmode : applyMode plainPd.writesmode newBuf temp n =
      some (modeBuf plainPd.writesmode newBuf n, temp) := rfl
  have hwrite := writeBody_of_copies ⟨bufSize, n - bufSize, true, false⟩ rfl rfl hhigh
    htotal (Nat.zero_le bufSize) (by decide) hfrom hmode hcopies
  have hbody : xferBody ⟨plainPd, goodEnv, .write src n⟩ newBuf = _ :=
    (congrArg (writeBody goodEnv plainPd.writesmode newBuf src) hlens).trans hwrite
  exact ⟨_, xfer_of_body [] rfl (show plainPd.bufId ≠ 0 by decide) hbody, Nat.zero_add n⟩

/-- After a write of 9000 characters to a new buffer `count` is 9000. -/
theorem long_write_breaks_ring :
    Created oneBuffer 1 ∧ ∃ b' ret out,
      xfer oneBuffer.devBufs ⟨plainPd, goodEnv, .write (fun _ => 7) 9000⟩ =
        some ([b'], ret, out) ∧ b'.count = 9000 ∧ ¬ RingRep b' := by
  obtain ⟨b', hxfer, hcount⟩ := write_newBuf_long (n := 9000) (by decide) (by decide) fun _ => 7
  refine ⟨created_oneBuffer, b', _, _, hxfer, hcount, ?_⟩
  intro hrep
  have hle := hrep.count_le
  rw [hcount] at hle
  exact absurd hle (by decide)

end Comp3301.Crypto
