import Comp3301.Crypto.Commute

/-!
# The crypto device: rings

* `write_within_free`: a `device_write` of fewer characters than there is room for stores what the
  mode makes of them and touches nothing else.
* `Intact` is what every run of the driver keeps of a ring, whatever lengths its calls ask for
  (`ReachableBy.intact`). It says less than `RingRep`: `count` is left out, and `enc_last` and
  `dec_last` may become negative when a write of 4 GiB is made of a request that was too long.
-/

set_option linter.unusedSectionVars false

namespace Comp3301.Crypto

open Comp3301.Lib

variable {Fd : Type} [DecidableEq Fd]

/-! ## Writing into the free space -/

/-- **A write within the free space** returns its length, stores the characters that the mode makes
of the input from `writeoff` on round the ring, and leaves the rest of the ring alone, the unread
characters in particular. -/
theorem write_within_free {env : XferEnv} {bufs : List DevBuf} {pd : PrivData} {src : ℕ → UInt8}
    {len i : ℕ} {b : DevBuf} (hattached : pd.bufId ≠ 0)
    (hfound : searchEntry pd.bufId bufs = some (i, b)) (hsize : b.buf.size = bufSize)
    (hreadoff : b.readoff < bufSize) (hcount : b.count < bufSize)
    (hwriteoff : b.writeoff = (b.readoff + b.count) % bufSize)
    (henc : -1 ≤ b.encLast ∧ b.encLast < bufSize) (hdec : -1 ≤ b.decLast ∧ b.decLast < bufSize)
    (hpos : 1 ≤ len) (hlen : len < bufSize - b.count) (hok : env.ok) :
    ∃ b', deviceWrite env bufs pd src len = some (bufs.set i b', (len : ℤ), []) ∧
      (∀ k (hk : k < (transform pd.writesmode b (slice src 0 len)).length),
        b'.buf.cell ((b.writeoff + k) % bufSize) =
          (transform pd.writesmode b (slice src 0 len))[k]) ∧
      (∀ j < bufSize, (∀ k < len, j ≠ (b.writeoff + k) % bufSize) →
        b'.buf.cell j = b.buf.cell j) ∧
      (∀ k < b.count, b'.buf.cell ((b.readoff + k) % bufSize) =
        b.buf.cell ((b.readoff + k) % bufSize)) ∧
      b'.count = b.count + len ∧ b'.readoff = b.readoff ∧
      b'.writeoff = (b.writeoff + len) % bufSize := by
  have hw : b.writeoff < bufSize := by
    rw [hwriteoff]
    exact Nat.mod_lt _ (by decide)
  have hb : RingRep b := ⟨hsize, hreadoff, hw, hcount.le, hwriteoff, henc.1, henc.2, hdec.1, hdec.2⟩
  have hsized : Sized b ⟨pd, env, .write src len⟩ := ⟨hok, hpos, hlen⟩
  have hbody := write_sized hb hsized
  have hxs : (transform pd.writesmode b (slice src 0 len)).length = len := by simp
  refine ⟨_, xfer_of_search (x := ⟨pd, env, .write src len⟩) hattached hfound hbody, ?_, ?_, ?_, ?_,
    ?_, ?_⟩
  · intro k hk
    exact ringPut_of_lt hw (by omega) hk
  · intro j hj hne
    -- the cell lies behind the characters stored, at the distance `j + B - writeoff` or less
    obtain ⟨k, hk, rfl⟩ : ∃ k < bufSize, j = (b.writeoff + k) % bufSize := by
      refine ⟨(j + bufSize - b.writeoff) % bufSize, Nat.mod_lt _ (by decide), ?_⟩
      rw [Nat.add_mod_mod, show b.writeoff + (j + bufSize - b.writeoff) = j + bufSize by omega,
        Nat.add_mod_right, Nat.mod_eq_of_lt hj]
    have hkl : len ≤ k := by
      by_contra hlt
      exact hne k (Nat.not_le.mp hlt) rfl
    exact ringPut_of_ge hw (hxs.trans_le hkl) hk
  · intro k hk
    exact putBuf_unread hb _ (by omega) hk
  · simp [putBuf]
  · simp [putBuf]
  · simp [putBuf]

/-- Three characters are written to a new buffer. -/
theorem write_within_free_newBuf :
    ∃ b', deviceWrite goodEnv [newBuf] plainPd (fun _ => 7) 3 = some ([b'], 3, []) ∧
      b'.count = 3 ∧ b'.readoff = 0 ∧ b'.writeoff = 3 := by
  have hfound : searchEntry plainPd.bufId [newBuf] = some (0, newBuf) := rfl
  obtain ⟨b', hwrite, -, -, -, hcount, hreadoff, hwriteoff⟩ :=
    @write_within_free goodEnv [newBuf] plainPd (fun _ => 7) 3 0 newBuf (by decide) hfound rfl
      (by decide) (by decide) rfl (by decide) (by decide) (by decide) (by decide) ⟨rfl, rfl⟩
  exact ⟨b', hwrite, hcount, hreadoff, hwriteoff⟩

/-! ## What every run keeps of a buffer -/

/-- The ring has its size, the offsets are inside it, and `enc_last` and `dec_last` are below its
size in absolute value. -/
structure Intact (b : DevBuf) : Prop where
  size : b.buf.size = bufSize
  readoff_lt : b.readoff < bufSize
  writeoff_lt : b.writeoff < bufSize
  encLast_gt : -(bufSize : ℤ) < b.encLast
  encLast_lt : b.encLast < bufSize
  decLast_gt : -(bufSize : ℤ) < b.decLast
  decLast_lt : b.decLast < bufSize

/-- A buffer is born intact. -/
lemma intact_freshBuf (id : ℤ) (readRef writeRef : Bool) (mem : ℕ → UInt8) :
    Intact (freshBuf id readRef writeRef mem) := by
  constructor <;> simp [freshBuf, bufSize]

lemma bufSize_pos : 0 < bufSize := by decide

/-- The mode switch. -/
lemma Intact.applyMode {sm : CryptoSmode} {b b' : DevBuf} {temp temp' : Block UInt8} {len : ℤ}
    (hb : Intact b) (h : applyMode sm b temp len = some (b', temp')) :
    Intact b' ∧ b'.buf = b.buf := by
  have hB : (0 : ℤ) < bufSize := by exact_mod_cast bufSize_pos
  obtain ⟨dir, mode, key⟩ := sm
  cases mode with
  | enc =>
      simp only [Crypto.applyMode, encrypt, Option.bind_eq_bind, Option.bind_eq_some_iff] at h
      obtain ⟨plain, -, h⟩ := h
      cases h
      exact ⟨{ hb with
        encLast_gt := Int.lt_tmod_of_pos _ hB, encLast_lt := Int.tmod_lt_of_pos _ hB }, rfl⟩
  | dec =>
      simp only [Crypto.applyMode, decrypt, Option.bind_eq_bind, Option.bind_eq_some_iff] at h
      obtain ⟨cipher, -, h⟩ := h
      cases h
      exact ⟨{ hb with
        decLast_gt := Int.lt_tmod_of_pos _ hB, decLast_lt := Int.tmod_lt_of_pos _ hB }, rfl⟩
  | passthrough =>
      cases h
      exact ⟨hb, rfl⟩
  | other =>
      cases h
      exact ⟨hb, rfl⟩

/-- What the loop of `substr` has read and written was inside the arrays; it keeps their sizes. -/
lemma substrLoop_bounds {str sub sub' : Block UInt8} {off i s : ℤ} {n : ℕ}
    (h : substrLoop str off n i s sub = some sub') :
    sub'.size = sub.size ∧ (n = 0 ∨ off + i + n ≤ str.size ∧ s + n ≤ sub.size) := by
  induction n generalizing i s sub with
  | zero =>
      cases h
      exact ⟨rfl, Or.inl rfl⟩
  | succ n ih =>
      simp only [substrLoop, Option.bind_eq_bind, Option.bind_eq_some_iff] at h
      obtain ⟨c, hload, sub₁, hstore, hrec⟩ := h
      obtain ⟨hsize, hbounds⟩ := ih hrec
      unfold Block.load at hload
      unfold Block.store at hstore
      split_ifs at hload hstore with hin hout
      cases hstore
      refine ⟨hsize, Or.inr ?_⟩
      simp only at hbounds
      push_cast
      rcases hbounds with rfl | hbounds
      · simp only [Nat.cast_zero]
        omega
      · omega

lemma substr_bounds {str sub sub' : Block UInt8} {off s len : ℤ}
    (h : substr str sub off s len = some sub') :
    sub'.size = sub.size ∧ (len ≤ 0 ∨ off + len ≤ str.size ∧ s + len ≤ sub.size) := by
  obtain ⟨hsize, hbounds⟩ := substrLoop_bounds h
  refine ⟨hsize, ?_⟩
  rcases hbounds with hzero | hbounds
  · exact Or.inl (Int.toNat_eq_zero.mp hzero)
  · rcases le_or_gt len 0 with hneg | hpos
    · exact Or.inl hneg
    · rw [Int.toNat_of_nonneg hpos.le, add_zero] at hbounds
      exact Or.inr hbounds

lemma writeCopies_size {b : DevBuf} {n : Lens} {temp ring : Block UInt8}
    (h : writeCopies b n temp = some ring) : ring.size = b.buf.size := by
  simp only [writeCopies, Option.bind_eq_bind, Option.bind_eq_some_iff] at h
  obtain ⟨ring₁, hfirst, h⟩ := h
  split_ifs at h with hwrap
  · rw [(substr_bounds h).1, (substr_bounds hfirst).1]
  · cases h
    exact (substr_bounds hfirst).1

/-- A read. -/
lemma Intact.readBody {env : XferEnv} {sm : CryptoSmode} {b b' : DevBuf} {n : Lens}
    {r : ℤ × List UInt8} (hb : Intact b) (h : readBody env sm b n = some (b', r)) : Intact b' := by
  unfold Crypto.readBody at h
  by_cases halloc : env.vmallocOk = false
  · rw [if_pos halloc] at h
    cases h
    exact hb
  · rw [if_neg halloc] at h
    simp only [Option.bind_eq_bind, Option.bind_eq_some_iff] at h
    obtain ⟨temp, -, ⟨b₁, temp₁⟩, hmode, h⟩ := h
    have hb₁ := (hb.applyMode hmode).1
    by_cases hcopy : env.copyOk = false
    · rw [if_pos hcopy] at h
      cases h
      exact hb₁
    · rw [if_neg hcopy] at h
      simp only [Option.bind_eq_some_iff] at h
      obtain ⟨o, -, h⟩ := h
      cases h
      exact { hb₁ with readoff_lt := Nat.mod_lt _ bufSize_pos }

/-- A write. -/
lemma Intact.writeBody {env : XferEnv} {sm : CryptoSmode} {b b' : DevBuf} {src : ℕ → UInt8}
    {n : Lens} {r : ℤ × List UInt8} (hb : Intact b)
    (h : writeBody env sm b src n = some (b', r)) : Intact b' := by
  unfold Crypto.writeBody at h
  by_cases halloc : env.vmallocOk = false
  · rw [if_pos halloc] at h
    cases h
    exact hb
  · rw [if_neg halloc] at h
    by_cases hcopy : env.copyOk = false
    · rw [if_pos hcopy] at h
      cases h
      exact hb
    · rw [if_neg hcopy] at h
      simp only [Option.bind_eq_bind, Option.bind_eq_some_iff] at h
      obtain ⟨temp, -, ⟨b₁, temp₁⟩, hmode, ring, hring, h⟩ := h
      obtain ⟨hb₁, hbuf⟩ := hb.applyMode hmode
      cases h
      exact { hb₁ with
        size := (writeCopies_size hring).trans hb₁.size
        writeoff_lt := Nat.mod_lt _ bufSize_pos }

/-- A call. -/
lemma Intact.xferBody {x : Xfer} {b b' : DevBuf} {r : ℤ × List UInt8} (hb : Intact b)
    (h : xferBody x b = some (b', r)) : Intact b' := by
  obtain ⟨pd, env, req⟩ := x
  cases req with
  | read len => exact Intact.readBody hb h
  | write src len => exact Intact.writeBody hb h

/-- The ring does not depend on the reference count and the access flags. -/
lemma Intact.header {b : DevBuf} (hb : Intact b) (refcount : ℕ) (readRef writeRef : Bool) :
    Intact { b with refcount := refcount, readRef := readRef, writeRef := writeRef } :=
  { hb with }

/-- All buffers are intact. -/
def AllIntact (l : List DevBuf) : Prop := ∀ b ∈ l, Intact b

/-- An intact buffer is put in the place of another one. -/
lemma AllIntact.set {l : List DevBuf} (hl : AllIntact l) {b' : DevBuf} (hb' : Intact b') (i : ℕ) :
    AllIntact (l.set i b') := by
  intro b hb
  rcases List.mem_or_eq_of_mem_set hb with hb | rfl
  · exact hl b hb
  · exact hb'

/-- What `search_entry` reports is on the list. -/
lemma getElem?_of_searchEntry {id : ℤ} {l : List DevBuf} {i : ℕ} {b : DevBuf}
    (h : searchEntry id l = some (i, b)) : l[i]? = some b := by
  rcases searchEntry_cases id l with ⟨-, hs⟩ | ⟨pre, b', post, rfl, hs, -⟩
  · rw [hs] at h
    cases h
  · rw [hs] at h
    cases h
    simp

lemma AllIntact.found {id : ℤ} {l : List DevBuf} (hl : AllIntact l) {i : ℕ} {b : DevBuf}
    (h : searchEntry id l = some (i, b)) : Intact b :=
  hl b (List.mem_of_getElem? (getElem?_of_searchEntry h))

section runs

variable {a : Alloc} {d : Device Fd} {fd : Fd} {filp : File}

/-- `freebuf` takes buffers away only. -/
lemma AllIntact.freebufReturn (hd : AllIntact d.devBufs) (e : Entry) :
    AllIntact (freebufReturn a d e).1.devBufs := by
  intro b hb
  unfold Crypto.freebufReturn freebuf at hb
  split_ifs at hb
  · exact hd b hb
  · exact hd b hb
  · exact hd b (List.mem_of_mem_eraseIdx hb)
  · exact hd b (List.mem_of_mem_eraseIdx hb)

lemma AllIntact.release (hd : AllIntact d.devBufs) :
    AllIntact (deviceRelease a d filp).1.devBufs := by
  unfold deviceRelease
  by_cases hid : filp.privateData.bufId ≠ 0
  · rw [if_pos hid]
    rcases hs : searchEntry filp.privateData.bufId d.devBufs with _ | ⟨i, b⟩
    · exact hd
    · have hset := hd.set ((hd.found hs).header (unsigned 32 (b.refcount - 1)) b.readRef
        b.writeRef) i
      simp only
      split_ifs
      · exact AllIntact.freebufReturn hset _
      · exact hset
  · rw [if_neg hid]
    exact hd

lemma AllIntact.create (hd : AllIntact d.devBufs) :
    AllIntact (ioctlCreate a d fd filp).1.devBufs := by
  unfold ioctlCreate
  split_ifs
  · exact hd
  · exact hd
  · exact hd
  · exact hd
  · intro b hb
    rcases List.mem_cons.mp hb with rfl | hb
    · exact intact_freshBuf _ _ _ _
    · exact hd b hb

lemma AllIntact.delete (hd : AllIntact d.devBufs) (id : ℤ) :
    AllIntact (ioctlDelete a d fd filp id).1.devBufs := by
  unfold ioctlDelete
  rcases searchEntry id d.devBufs with _ | ⟨i, b⟩
  · exact hd
  · simp only
    split_ifs
    · exact hd
    · exact AllIntact.freebufReturn (d := d.setPriv fd filp _) hd _

lemma AllIntact.attach (hd : AllIntact d.devBufs) (id : ℤ) :
    AllIntact (ioctlAttach d fd filp id).1.devBufs := by
  unfold ioctlAttach
  by_cases hid : filp.privateData.bufId ≠ 0
  · rw [if_pos hid]
    exact hd
  · rw [if_neg hid]
    rcases hs : searchEntry id d.devBufs with _ | ⟨i, b⟩
    · exact hd
    · have hset := fun n r w => hd.set ((hd.found hs).header n r w) i
      by_cases hread : filp.fMode.read = true ∧ b.readRef = true
      · simpa only [if_pos hread] using hd
      · by_cases hwrite : filp.fMode.write = true ∧ b.writeRef = true
        · simpa only [if_neg hread, if_pos hwrite] using hd
        · simp only [if_neg hread, if_neg hwrite]
          exact hset _ _ _

lemma AllIntact.detach (hd : AllIntact d.devBufs) :
    AllIntact (ioctlDetach a d fd filp).1.devBufs := by
  unfold ioctlDetach
  by_cases hid : filp.privateData.bufId = 0
  · rw [if_pos hid]
    exact hd
  · rw [if_neg hid]
    rcases hs : searchEntry filp.privateData.bufId d.devBufs with _ | ⟨i, b⟩
    · exact hd
    · have hset := fun n r w => hd.set ((hd.found hs).header n r w) i
      by_cases hlast : unsigned 32 ((b.refcount : ℤ) - 1) = 0
      · simp only [if_pos hlast]
        exact AllIntact.freebufReturn (hset _ _ _) _
      · simp only [if_neg hlast]
        exact hset _ _ _

/-- An ioctl touches no ring but that of a new buffer. -/
lemma AllIntact.ioctl (hd : AllIntact d.devBufs) (cmd : Cmd) :
    AllIntact (deviceIoctl a d fd filp cmd).1.devBufs := by
  cases cmd with
  | create => exact hd.create
  | delete id => exact hd.delete id
  | attach id => exact hd.attach id
  | detach => exact hd.detach
  | smode arg =>
      cases arg with
      | none => exact hd
      | some sm =>
          simp only [deviceIoctl, ioctlSmode]
          split_ifs <;> exact hd
  | other => exact hd

lemma AllIntact.open (hd : AllIntact d.devBufs) (mode : FMode) :
    AllIntact (deviceOpen a d fd mode).1.devBufs := by
  unfold deviceOpen
  split_ifs <;> exact hd

/-- A transfer. -/
lemma AllIntact.xfer {l l' : List DevBuf} {x : Xfer} {r : ℤ × List UInt8} (hl : AllIntact l)
    (h : xfer l x = some (l', r)) : AllIntact l' := by
  rw [xfer_eq, onBuffer] at h
  split_ifs at h with hid
  · cases h
    exact hl
  · rcases hs : searchEntry x.pd.bufId l with _ | ⟨i, b⟩
    · rw [hs] at h
      cases h
      exact hl
    · rw [hs] at h
      simp only [Option.bind_eq_bind, Option.bind_eq_some_iff] at h
      obtain ⟨⟨b', ret, out⟩, hbody, hres⟩ := h
      cases hres
      exact hl.set ((hl.found hs).xferBody hbody) i

lemma AllIntact.transfer {d' : Device Fd} {env : XferEnv} {req : Req} {r : ℤ × List UInt8}
    (hd : AllIntact d.devBufs) (h : d.transfer fd env req = some (d', r)) :
    AllIntact d'.devBufs := by
  unfold Device.transfer at h
  simp only [Option.bind_eq_bind, Option.bind_eq_some_iff] at h
  obtain ⟨filp, -, ⟨bufs, r'⟩, hbufs, hres⟩ := h
  cases hres
  exact hd.xfer hbufs

/-- One call of the driver. -/
lemma AllIntact.step {d' : Device Fd} {call : Call Fd} {ret : ℤ} (hd : AllIntact d.devBufs)
    (h : step a d call = some (d', ret)) : AllIntact d'.devBufs := by
  have htransfer : ∀ fd env req, Crypto.step a d (Req.call req fd env) = some (d', ret) →
      AllIntact d'.devBufs := by
    intro fd env req hcall
    rw [step_call, Option.map_eq_some_iff] at hcall
    obtain ⟨⟨d₁, r⟩, htransfer, hres⟩ := hcall
    cases hres
    exact hd.transfer htransfer
  cases call with
  | «open» fd mode =>
      simp only [Crypto.step] at h
      split_ifs at h with hfd
      rw [show d' = (deviceOpen a d fd mode).1 by rw [Option.some.inj h]]
      exact hd.open mode
  | release fd =>
      simp only [Crypto.step, Option.bind_eq_bind, Option.bind_eq_some_iff] at h
      obtain ⟨filp, -, hres⟩ := h
      cases hres
      exact hd.release
  | ioctl fd cmd =>
      simp only [Crypto.step, Option.bind_eq_bind, Option.bind_eq_some_iff] at h
      obtain ⟨filp, -, hres⟩ := h
      rw [show d' = (deviceIoctl a d fd filp cmd).1 by rw [Option.some.inj hres]]
      exact hd.ioctl cmd
  | read fd env len => exact htransfer fd env (.read len) h
  | write fd env src len => exact htransfer fd env (.write src len) h

end runs

end Comp3301.Crypto
