import Comp3301.Crypto.Attachment

/-!
# The crypto device: sharing buffers, over whole runs

The results on attachments for the states of the driver.

* `attachments_wellFormed`: without deletes and allocation failures, attached files name live
  buffers, reference counts are the numbers of attached files, and no two attached files have the
  same kind of access.
* `safeDelete_iff_deleteOk`: a delete does what it should exactly if the entry that
  `search_entry` finds is shared, or is the one asked for and the requester is attached to it. A
  reference count of one does not say whose it is, and an id that is not live finds the last buffer.
* `attach_available`: a file can attach to a live buffer exactly if its kinds of access are not in
  use, in runs without deletes in which no file is closed that shares its buffer and has an access
  bit: `device_release`, unlike `CRYPTO_IOCDETACH`, does not clear the flags.
-/

set_option linter.unusedSectionVars false

namespace Comp3301.Crypto

open Comp3301.Lib

/-! ## Attachments of the driver -/

variable {Fd : Type}

/-- The file is open and attached to the buffer `id`. -/
def Device.AttachedTo (d : Device Fd) (id : ℤ) (fd : Fd) : Prop :=
  ∃ filp ∈ d.files fd, filp.privateData.bufId = id

instance (d : Device Fd) (id : ℤ) : DecidablePred (d.AttachedTo id) :=
  fun fd => inferInstanceAs (Decidable (∃ filp ∈ d.files fd, filp.privateData.bufId = id))

/-- The file is open, attached to the buffer `id`, and has the access bit. -/
def Device.AttachedFor (d : Device Fd) (id : ℤ) (acc : Access) (fd : Fd) : Prop :=
  ∃ filp ∈ d.files fd, filp.privateData.bufId = id ∧ filp.fMode.has acc = true

section registry

variable {d : Device Fd} {id : ℤ} {acc : Access} {fd : Fd}

lemma attachedTo_registry : AttachedTo d.registry.holders id fd ↔ d.AttachedTo id fd := by
  unfold AttachedTo Device.AttachedTo Device.registry
  cases h : d.files fd <;> simp [h, File.holder]

lemma attachedFor_registry :
    AttachedFor d.registry.holders id acc fd ↔ d.AttachedFor id acc fd := by
  unfold AttachedFor Device.AttachedFor Device.registry
  cases h : d.files fd <;> simp [h, File.holder]

lemma mem_registry_live {b : DevBuf} (hb : b ∈ d.devBufs) : b.header ∈ d.registry.live :=
  List.mem_map.mpr ⟨b, hb, rfl⟩

/-- `search_entry` finds one entry only. -/
lemma Resolves.entry_eq {l pre post : List Header} {e : Header} (h : Resolves id l pre e post) :
    (l.find? fun c => c.id = id).or l.getLast? = some e := by
  obtain ⟨rfl, ⟨he, hpre⟩ | ⟨rfl, hall⟩⟩ := h
  · have hnone : pre.find? (fun c => c.id = id) = none :=
      List.find?_eq_none.mpr fun c hc => by simpa using hpre c hc
    simp [List.find?_append, hnone, he]
  · have hnone : (pre ++ [e]).find? (fun c => c.id = id) = none :=
      List.find?_eq_none.mpr fun c hc => by simpa using hall c hc
    simp [hnone]

/-- A live id is found. -/
lemma searchEntry_of_mem {l : List DevBuf} (hnodup : (l.map DevBuf.id).Nodup) {b : DevBuf}
    (hb : b ∈ l) :
    ∃ pre post, l = pre ++ b :: post ∧ searchEntry b.id l = some (pre.length, b) := by
  obtain ⟨pre, post, rfl⟩ := List.append_of_mem hb
  refine ⟨pre, post, rfl, searchEntry_append ?_ rfl post⟩
  intro c hc hid
  rw [List.map_append, List.map_cons] at hnodup
  have hnot := (List.nodup_cons.mp (List.nodup_middle.mp hnodup)).1
  exact hnot (List.mem_append_left _ (List.mem_map.mpr ⟨c, hc, hid⟩))

end registry

/-! ## Runs -/

/-- The delete of `id` by `fd` is in order: the entry that `search_entry` finds is shared, or it is
the one asked for and the requester is attached to it. -/
def DeleteOk (d : Device Fd) (fd : Fd) (id : ℤ) : Prop :=
  ∀ e, searchEntry id d.devBufs = some e → 1 < e.2.refcount ∨ e.2.id = id ∧ d.AttachedTo id fd

/-- No allocation fails, and deletes are in order. -/
def CarefulCall (d : Device Fd) (k : Alloc × Call Fd) : Prop :=
  k.1.ok ∧ ∀ fd id, k.2 = .ioctl fd (.delete id) → DeleteOk d fd id

/-- No allocation fails, and nothing is deleted. -/
def DeleteFree (_ : Device Fd) (k : Alloc × Call Fd) : Prop :=
  k.1.ok ∧ ∀ fd id, k.2 ≠ .ioctl fd (.delete id)

lemma DeleteFree.careful {d : Device Fd} {k : Alloc × Call Fd} (h : DeleteFree d k) :
    CarefulCall d k :=
  ⟨h.1, fun fd id hk => absurd hk (h.2 fd id)⟩

lemma DeleteOk.registry {d : Device Fd} {fd : Fd} {id : ℤ} (h : DeleteOk d fd id) :
    d.registry.DeleteOk fd id := by
  intro pre e post hres
  rcases searchEntry_resolves id d.devBufs with ⟨hnil, -⟩ | ⟨pre', b, post', -, hs, hres'⟩
  · have hlive := hres.1
    simp [Device.registry, hnil] at hlive
  · have hsome : some e = some b.header := hres.entry_eq.symm.trans hres'.entry_eq
    obtain rfl : e = b.header := Option.some.inj hsome
    rw [attachedTo_registry]
    exact h (pre'.length, b) hs

variable [DecidableEq Fd] [Fintype Fd]

/-- Every careful run keeps the books. -/
lemma ReachableBy.bookkeeping (hcard : Fintype.card Fd < 2 ^ 32) {d : Device Fd}
    (hd : ReachableBy CarefulCall d) : Bookkeeping d.registry := by
  refine Reach.invariant (P := fun d => Bookkeeping d.registry) ?_ ?_ hd
  · exact ⟨IdsOk.init, by simp [Device.registry, Device.init],
      by simp [Device.registry, Device.init]⟩
  · intro s k s' _ hs hk hnext
    obtain ⟨ret, hret⟩ := hnext
    refine (registry_step hret).bookkeeping hcard ⟨hk.1, ?_⟩ hs
    intro fd id hc
    exact (hk.2 fd id hc).registry

/-- **Attachment bookkeeping.** In every run without deletes and allocation failures: an attached
file names a live buffer; the reference count of a live buffer is the number of files attached to
it and at least one; at most one attached file can read, and at most one can write. -/
theorem attachments_wellFormed (hcard : Fintype.card Fd < 2 ^ 32) {d : Device Fd}
    (hd : ReachableBy DeleteFree d) :
    (∀ fd filp, d.files fd = some filp → filp.privateData.bufId ≠ 0 →
      ∃ b ∈ d.devBufs, b.id = filp.privateData.bufId) ∧
    ∀ b ∈ d.devBufs,
      b.refcount = tally (d.AttachedTo b.id) ∧ 1 ≤ b.refcount ∧
        ∀ acc fd₁ fd₂, d.AttachedFor b.id acc fd₁ → d.AttachedFor b.id acc fd₂ → fd₁ = fd₂ := by
  have hB := ReachableBy.bookkeeping hcard (hd.mono fun _ _ => DeleteFree.careful)
  constructor
  · intro fd filp hfd hid
    have hmem := hB.named fd _ (registry_holders hfd) hid
    rw [registry_ids] at hmem
    exact List.mem_map.mp hmem
  · intro b hb
    have hA := hB.agrees _ (mem_registry_live hb)
    refine ⟨?_, hA.pos, ?_⟩
    · exact hA.refcount.trans (tally_congr fun fd => attachedTo_registry)
    · intro acc fd₁ fd₂ h₁ h₂
      exact hA.exclusive acc fd₁ fd₂ (attachedFor_registry.mpr h₁) (attachedFor_registry.mpr h₂)

/-! ### A reader and a writer -/

/-- The file `false` is open for reading and has created a buffer, the file `true` is open for
writing. -/
def readerCreated : Device Bool :=
  let d := (deviceOpen goodAlloc Device.init false ⟨true, false⟩).1
  let d := (deviceOpen goodAlloc d true ⟨false, true⟩).1
  (deviceIoctl goodAlloc d false ⟨⟨true, false⟩, newPrivData⟩ .create).1

/-- The writer has attached to the buffer of the reader. -/
def writerAttached : Device Bool :=
  (deviceIoctl goodAlloc readerCreated true ⟨⟨false, true⟩, newPrivData⟩ (.attach 1)).1

lemma goodAlloc_ok : goodAlloc.ok := ⟨rfl, rfl, rfl, rfl, rfl⟩

section runs

variable {guard : Device Bool → Alloc × Call Bool → Prop}

lemma reachable_readerCreated (hopen : ∀ d fd mode, guard d (goodAlloc, .open fd mode))
    (hcreate : ∀ d fd, guard d (goodAlloc, .ioctl fd .create)) :
    ReachableBy guard readerCreated :=
  ((Reach.init.step (hopen _ false ⟨true, false⟩) ⟨0, rfl⟩).step (hopen _ true ⟨false, true⟩)
    ⟨0, rfl⟩).step (hcreate _ false) ⟨1, rfl⟩

lemma reachable_writerAttached (hopen : ∀ d fd mode, guard d (goodAlloc, .open fd mode))
    (hcreate : ∀ d fd, guard d (goodAlloc, .ioctl fd .create))
    (hattach : ∀ d fd id, guard d (goodAlloc, .ioctl fd (.attach id))) :
    ReachableBy guard writerAttached :=
  (reachable_readerCreated hopen hcreate).step (hattach _ true 1) ⟨0, rfl⟩

end runs

theorem attachments_wellFormed_writerAttached :
    (writerAttached.devBufs.map fun b => (b.id, b.refcount)) = [(1, 2)] ∧
      ∀ b ∈ writerAttached.devBufs, b.refcount = tally (writerAttached.AttachedTo b.id) := by
  refine ⟨rfl, fun b hb => ((attachments_wellFormed (by decide) ?_).2 b hb).1⟩
  apply reachable_writerAttached
  · intro d fd mode
    exact ⟨goodAlloc_ok, by simp⟩
  · intro d fd
    exact ⟨goodAlloc_ok, by simp⟩
  · intro d fd id
    exact ⟨goodAlloc_ok, by simp⟩

/-! ## Deletes -/

/-- What a delete of `id` by `fd` should do. It succeeds exactly if the buffer is live and no other
file is attached to it; then exactly this buffer disappears, the requester's attachment is cleared
exactly if it was to this buffer, and no file is attached to it any more. -/
def SafeDelete (a : Alloc) (d : Device Fd) (fd : Fd) (filp : File) (id : ℤ) : Prop :=
  ((deviceIoctl a d fd filp (.delete id)).2 = 0 ↔
    id ∈ d.devBufs.map DevBuf.id ∧ ∀ fd', d.AttachedTo id fd' → fd' = fd) ∧
  ((deviceIoctl a d fd filp (.delete id)).2 = 0 →
    (deviceIoctl a d fd filp (.delete id)).1.devBufs = d.devBufs.filter (fun b => b.id ≠ id) ∧
    (deviceIoctl a d fd filp (.delete id)).1.files =
      Function.update d.files fd (some { filp with
        privateData := { filp.privateData with
          bufId := if filp.privateData.bufId = id then 0 else filp.privateData.bufId } }) ∧
    ∀ fd', ¬ (deviceIoctl a d fd filp (.delete id)).1.AttachedTo id fd')

section delete

variable {a : Alloc} {d : Device Fd} {fd : Fd} {filp : File} {id : ℤ} {pre post : List DevBuf}
  {b : DevBuf}

/-- The delete of a shared buffer is refused. -/
lemma delete_shared (hs : searchEntry id d.devBufs = some (pre.length, b)) (hb : 1 < b.refcount) :
    deviceIoctl a d fd filp (.delete id) = (d, -enotsup) := by
  unfold deviceIoctl ioctlDelete
  simp only [hs]
  exact if_pos hb

/-- A delete that is carried out. -/
lemma delete_last (ha : a.idnode = true) (hl : d.devBufs = pre ++ b :: post)
    (hs : searchEntry id d.devBufs = some (pre.length, b)) (hb : ¬ 1 < b.refcount) :
    deviceIoctl a d fd filp (.delete id) =
      ({ d.setPriv fd filp { filp.privateData with bufId := 0 } with
          devBufs := pre ++ post
          detachedIds := b.id :: d.detachedIds }, 0) := by
  have herase : d.devBufs.eraseIdx pre.length = pre ++ post := by
    rw [hl, List.eraseIdx_append_of_length_le le_rfl, Nat.sub_self, List.eraseIdx_cons_zero]
  unfold deviceIoctl ioctlDelete
  simp only [hs]
  rw [if_neg hb, freebufReturn_ok ha]
  simp only [Device.setPriv, herase]

/-- A found buffer that is shared has another file attached. -/
lemma exists_other (hB : Bookkeeping d.registry) (hb : b ∈ d.devBufs) (hshared : 1 < b.refcount)
    (fd : Fd) : ∃ fd', d.AttachedTo b.id fd' ∧ fd' ≠ fd := by
  by_contra hnone
  have hone : ∀ fd', d.AttachedTo b.id fd' → fd' = fd := by
    intro fd' hfd'
    by_contra hne
    exact hnone ⟨fd', hfd', hne⟩
  have hcount : b.refcount = tally (AttachedTo d.registry.holders b.id) :=
    (hB.agrees _ (mem_registry_live hb)).refcount
  have hle : tally (AttachedTo d.registry.holders b.id) ≤ 1 := by
    apply tally_le_one_iff.mpr
    intro i j hi hj
    rw [hone i (attachedTo_registry.mp hi), hone j (attachedTo_registry.mp hj)]
  omega

/-- A found buffer that is not shared has exactly one file attached. -/
lemma exists_only (hB : Bookkeeping d.registry) (hb : b ∈ d.devBufs) (hlast : ¬ 1 < b.refcount) :
    ∃ fd, d.AttachedTo b.id fd ∧ ∀ fd', d.AttachedTo b.id fd' → fd' = fd := by
  have hA := hB.agrees _ (mem_registry_live hb)
  have hpos : 0 < tally (AttachedTo d.registry.holders b.id) := by
    have hcount : b.refcount = tally (AttachedTo d.registry.holders b.id) := hA.refcount
    have h1 : 1 ≤ b.refcount := hA.pos
    omega
  obtain ⟨fd, hfd⟩ := tally_pos.mp hpos
  refine ⟨fd, attachedTo_registry.mp hfd, ?_⟩
  intro fd' hfd'
  exact hA.eq_of_last (not_lt.mp hlast) hfd (attachedTo_registry.mpr hfd')

/-- The delete in order that is carried out is safe. -/
lemma safeDelete_own (hB : Bookkeeping d.registry) (ha : a.idnode = true)
    (hfd : d.files fd = some filp) (hl : d.devBufs = pre ++ b :: post)
    (hs : searchEntry b.id d.devBufs = some (pre.length, b)) (hb : ¬ 1 < b.refcount)
    (hown : d.AttachedTo b.id fd) : SafeDelete a d fd filp b.id := by
  have hmem : b ∈ d.devBufs := by simp [hl]
  obtain ⟨fd₀, -, honly⟩ := exists_only hB hmem hb
  have honly : ∀ fd', d.AttachedTo b.id fd' → fd' = fd := by
    intro fd' hfd'
    rw [honly fd' hfd', honly fd hown]
  have hbufId : filp.privateData.bufId = b.id := by
    obtain ⟨x, hx, hid⟩ := hown
    rw [hfd] at hx
    cases hx
    exact hid
  have hne : ∀ c ∈ pre ++ post, c.id ≠ b.id := by
    intro c hc hid
    have hlive : d.registry.live = pre.map DevBuf.header ++ b.header :: post.map DevBuf.header := by
      simp [Device.registry, hl]
    refine hB.id_ne hlive (c := c.header) ?_ hid.symm
    rw [← List.map_append]
    exact List.mem_map.mpr ⟨c, hc, rfl⟩
  have hfilter : (pre ++ post).filter (fun c => c.id ≠ b.id) = pre ++ post :=
    List.filter_eq_self.mpr fun c hc => by simpa using hne c hc
  unfold SafeDelete
  rw [delete_last ha hl hs hb]
  refine ⟨iff_of_true rfl ⟨List.mem_map.mpr ⟨b, hmem, rfl⟩, honly⟩, fun _ => ⟨?_, ?_, ?_⟩⟩
  · rw [hl, List.filter_append, List.filter_cons_of_neg (by simp), ← List.filter_append]
    exact hfilter.symm
  · rw [if_pos hbufId]
    rfl
  · rintro fd' ⟨x, hx, hid⟩
    simp only [Device.setPriv] at hx
    by_cases hfd' : fd' = fd
    · subst hfd'
      rw [Function.update_self] at hx
      cases hx
      exact hB.ne_zero (mem_registry_live hmem) hid.symm
    · rw [Function.update_of_ne hfd'] at hx
      exact hfd' (honly fd' ⟨x, hx, hid⟩)

/-- The condition on deletes is exact where the books are kept. -/
lemma safeDelete_iff (hB : Bookkeeping d.registry) (ha : a.idnode = true)
    (hfd : d.files fd = some filp) : SafeDelete a d fd filp id ↔ DeleteOk d fd id := by
  rcases searchEntry_cases id d.devBufs with ⟨hnil, hs⟩ | ⟨pre, b, post, hl, hs, hcase⟩
  · -- no buffers: the delete fails, as it should
    have hfail : deviceIoctl a d fd filp (.delete id) = (d, -einval) := by
      unfold deviceIoctl ioctlDelete
      simp only [hs]
    refine iff_of_true ?_ (by simp [DeleteOk, hs])
    unfold SafeDelete
    rw [hfail, hnil]
    simp [einval]
  have hmem : b ∈ d.devBufs := by simp [hl]
  have hlive : id ∈ d.devBufs.map DevBuf.id → b.id = id := by
    intro hid
    rcases hcase with ⟨hid', -⟩ | ⟨-, hall⟩
    · exact hid'
    · obtain ⟨c, hc, hcid⟩ := List.mem_map.mp hid
      exact absurd hcid (hall c hc)
  by_cases hb : 1 < b.refcount
  · -- the buffer found is shared: the delete fails, as it should
    apply iff_of_true
    · unfold SafeDelete
      rw [delete_shared hs hb]
      refine ⟨iff_of_false (by simp [enotsup]) ?_, by simp [enotsup]⟩
      rintro ⟨hid, hall⟩
      obtain ⟨fd', hfd', hne⟩ := exists_other hB hmem hb fd
      rw [hlive hid] at hfd'
      exact hne (hall fd' hfd')
    · intro e he
      rw [hs] at he
      cases he
      exact Or.inl hb
  · constructor
    · intro hsafe e he
      rw [hs] at he
      cases he
      have hzero : (deviceIoctl a d fd filp (.delete id)).2 = 0 := by
        rw [delete_last ha hl hs hb]
      obtain ⟨hid, hall⟩ := hsafe.1.mp hzero
      obtain ⟨fd', hfd', -⟩ := exists_only hB hmem hb
      rw [hlive hid] at hfd'
      rw [hall fd' hfd'] at hfd'
      exact Or.inr ⟨hlive hid, hfd'⟩
    · intro hok
      rcases hok _ hs with hshared | ⟨hid, hown⟩
      · exact absurd hshared hb
      · subst hid
        exact safeDelete_own hB ha hfd hl hs hb hown

end delete

/-- **When a delete is safe.** In every state of every run without allocation failures whose deletes
are in order: a delete is safe exactly if it is in order; and a file that creates a buffer, with a
new id or one that is used again, is the only one attached to it. -/
theorem safeDelete_iff_deleteOk (hcard : Fintype.card Fd < 2 ^ 32) {d : Device Fd}
    (hd : ReachableBy CarefulCall d) {a : Alloc} (ha : a.ok) {fd : Fd} {filp : File}
    (hfd : d.files fd = some filp) :
    (∀ id, SafeDelete a d fd filp id ↔ DeleteOk d fd id) ∧
      ∀ id, (deviceIoctl a d fd filp .create).2 = id → 0 < id →
        ∀ fd', (deviceIoctl a d fd filp .create).1.AttachedTo id fd' → fd' = fd := by
  have hB := ReachableBy.bookkeeping hcard hd
  refine ⟨fun id => safeDelete_iff hB ha.2.2.2.2 hfd, ?_⟩
  intro id hret hpos fd' hfd'
  -- the new buffer has a reference count of one, which is its creator's
  have hd' : ReachableBy CarefulCall (deviceIoctl a d fd filp .create).1 := by
    refine hd.step (k := (a, .ioctl fd .create)) ⟨ha, by simp⟩ ⟨id, ?_⟩
    simp [step, hfd, ← hret]
  have hB' := ReachableBy.bookkeeping hcard hd'
  have hid0 : filp.privateData.bufId = 0 := by
    by_contra hne
    have hneg : (deviceIoctl a d fd filp .create).2 = -enotsup := by
      unfold deviceIoctl ioctlCreate
      rw [if_pos hne]
    rw [hneg] at hret
    simp only [enotsup] at hret
    omega
  obtain ⟨-, hdev, hring, hnode, -⟩ := ha
  have hcreate : deviceIoctl a d fd filp .create =
      ({ ({ d with newId := (takeId d).2.1, detachedIds := (takeId d).2.2 } : Device Fd).setPriv fd
          filp { filp.privateData with bufId := (takeId d).1 } with
          devBufs := freshBuf (takeId d).1 filp.fMode.read filp.fMode.write a.ringMem ::
            d.devBufs }, (takeId d).1) := by
    simp [deviceIoctl, ioctlCreate, hid0, hdev, hring, hnode, Device.setPriv]
  rw [hcreate] at hret hfd' hB'
  simp only at hret
  subst hret
  refine (hB'.agrees _ (mem_registry_live List.mem_cons_self)).eq_of_last le_rfl ?_
    (attachedTo_registry.mpr hfd')
  exact attachedTo_registry.mpr ⟨_, Function.update_self _ _ _, rfl⟩

/-- The reader deletes the buffer it has created. -/
theorem safeDelete_iff_deleteOk_readerCreated :
    DeleteOk readerCreated false 1 ∧
      SafeDelete goodAlloc readerCreated false
        ⟨⟨true, false⟩, { newPrivData with bufId := 1 }⟩ 1 := by
  have hok : DeleteOk readerCreated false 1 := by
    intro e he
    cases he
    exact Or.inr ⟨rfl, _, rfl, rfl⟩
  refine ⟨hok, ((safeDelete_iff_deleteOk (by decide) ?_ goodAlloc_ok rfl).1 1).mpr hok⟩
  apply reachable_readerCreated
  · intro d fd mode
    exact ⟨goodAlloc_ok, by simp⟩
  · intro d fd
    exact ⟨goodAlloc_ok, by simp⟩

/-- The writer, which is not attached, deletes the buffer of the reader. The reader keeps the id,
and the next buffer with this id, created by the writer, is the reader's as well. -/
theorem delete_of_other_not_safe :
    Reachable readerCreated ∧
      (deviceIoctl goodAlloc readerCreated true ⟨⟨false, true⟩, newPrivData⟩ (.delete 1)).2 = 0 ∧
      readerCreated.AttachedTo 1 false ∧
      (deviceIoctl goodAlloc readerCreated true ⟨⟨false, true⟩, newPrivData⟩
        (.delete 1)).1.AttachedTo 1 false ∧
      ¬ SafeDelete goodAlloc readerCreated true ⟨⟨false, true⟩, newPrivData⟩ 1 := by
  refine ⟨?_, rfl, ⟨_, rfl, rfl⟩, ⟨_, rfl, rfl⟩, ?_⟩
  · exact reachable_readerCreated (fun _ _ _ => trivial) (fun _ _ => trivial)
  · intro hsafe
    have hother := (hsafe.1.mp rfl).2 false ⟨_, rfl, rfl⟩
    cases hother

/-! ## Attaching -/

/-- Access flags are set only while a file uses the access. -/
def FlagsExact (r : Registry Fd) : Prop :=
  ∀ e ∈ r.live, ∀ acc, e.flag acc = true → ∃ fd, AttachedFor r.holders e.id acc fd

/-- The close of `fd` leaves no flag behind: the file is not attached, or it has no access bit, or
it is the last one attached to its buffer. -/
def CleanRelease (d : Device Fd) (fd : Fd) : Prop :=
  ∀ filp ∈ d.files fd, filp.privateData.bufId = 0 ∨
    (filp.fMode.read = false ∧ filp.fMode.write = false) ∨
    ∃ b ∈ d.devBufs, b.id = filp.privateData.bufId ∧ b.refcount = 1

/-- No allocation fails, nothing is deleted, and files are closed cleanly. -/
def CleanCall (d : Device Fd) (k : Alloc × Call Fd) : Prop :=
  DeleteFree d k ∧ ∀ fd, k.2 = .release fd → CleanRelease d fd

section flags

variable {r : Registry Fd} {fd : Fd}

/-- A user other than the moving file remains. -/
lemma AttachedFor.persist {holders : Fd → Option Holder} {id : ℤ} {acc : Access} {fd' : Fd}
    {h : Option Holder} (hold : ∀ x ∈ holders fd, x.bufId ≠ id)
    (hfd' : AttachedFor holders id acc fd') :
    AttachedFor (Function.update holders fd h) id acc fd' := by
  refine (attachedFor_update_of_ne ?_).mpr hfd'
  rintro rfl
  obtain ⟨x, hx, hid, -⟩ := hfd'
  exact hold x hx hid

/-- The flags of buffers that the moving file was not attached to. -/
lemma FlagsExact.others (hF : FlagsExact r) {c : Header} (hc : c ∈ r.live) {h : Option Holder}
    (hold : ∀ x ∈ r.holders fd, x.bufId ≠ c.id) (acc : Access) (hflag : c.flag acc = true) :
    ∃ fd', AttachedFor (Function.update r.holders fd h) c.id acc fd' := by
  obtain ⟨fd', hfd'⟩ := hF c hc acc hflag
  exact ⟨fd', hfd'.persist hold⟩

/-- A file that moves without having been attached. -/
lemma FlagsExact.unattached (hF : FlagsExact r) (hB : Bookkeeping r) {h : Option Holder}
    (hold : ∀ x ∈ r.holders fd, x.bufId = 0) :
    ∀ c ∈ r.live, ∀ acc, c.flag acc = true →
      ∃ fd', AttachedFor (Function.update r.holders fd h) c.id acc fd' := by
  intro c hc
  apply hF.others hc
  intro x hx
  rw [hold x hx]
  exact (hB.ne_zero hc).symm

/-- The buffer `e` changes, or disappears, together with a file that may have been attached to
it. -/
lemma FlagsExact.apart (hF : FlagsExact r) (hB : Bookkeeping r) {pre post : List Header}
    {e : Header} (hl : r.live = pre ++ e :: post) {h : Option Holder}
    (hold : ∀ x ∈ r.holders fd, x.bufId = 0 ∨ x.bufId = e.id) :
    ∀ c ∈ pre ++ post, ∀ acc, c.flag acc = true →
      ∃ fd', AttachedFor (Function.update r.holders fd h) c.id acc fd' := by
  intro c hc
  obtain ⟨hmem, hne⟩ := hB.apart hl hc
  exact hF.others hmem fun x hx => hne x (hold x hx)

/-- The buffer `e` changes. -/
lemma FlagsExact.replace (hF : FlagsExact r) (hB : Bookkeeping r) {pre post : List Header}
    {e e' : Header} (hl : r.live = pre ++ e :: post) {h : Option Holder}
    (hold : ∀ x ∈ r.holders fd, x.bufId = 0 ∨ x.bufId = e.id)
    (he' : ∀ acc, e'.flag acc = true →
      ∃ fd', AttachedFor (Function.update r.holders fd h) e'.id acc fd') :
    FlagsExact
      { r with
        live := pre ++ e' :: post
        holders := Function.update r.holders fd h } := by
  intro c hc
  have hothers := hF.apart hB hl (h := h) hold c
  simp only [List.mem_append, List.mem_cons] at hc hothers
  rcases hc with hpre | rfl | hpost
  · exact hothers (Or.inl hpre)
  · exact he'
  · exact hothers (Or.inr hpost)

end flags

/-- What the flags need to know of a close, in the registry. -/
def Registry.CleanRelease (r : Registry Fd) (fd : Fd) : Prop :=
  ∀ h ∈ r.holders fd, h.bufId = 0 ∨ (∀ acc, h.mode.has acc = false) ∨
    ∃ e ∈ r.live, e.id = h.bufId ∧ e.refcount = 1

/-- When a file leaves a buffer that stays, the flags that remain set are not those of its own
accesses. -/
lemma Bookkeeping.not_flag_of_leaves {r : Registry Fd} (hB : Bookkeeping r)
    (hcard : Fintype.card Fd < 2 ^ 32) {fd : Fd} {mode : FMode} {c : Call Fd} {clear : Bool}
    {h : Option Holder} {e : Header} (he : e ∈ r.live) (hleaves : Leaves fd mode c clear h)
    (hfd : r.holders fd = some ⟨mode, e.id⟩) (hstay : (e.leave mode clear).refcount ≠ 0)
    (hrelease : ∀ fd, c = .release fd → r.CleanRelease fd) {acc : Access}
    (hacc : mode.has acc = true) : (e.leave mode clear).flag acc ≠ true := by
  rw [Header.leave_flag]
  cases hleaves with
  | release =>
      exfalso
      rcases hrelease fd rfl _ hfd with h0 | hnone | ⟨e', he', heid, hone⟩
      · exact hB.ne_zero he h0
      · rw [hnone acc] at hacc
        cases hacc
      · have hlast : e' = e := List.inj_on_of_nodup_map hB.ids.live_nodup he' he heid
        rw [hlast] at hone
        rw [(hB.agrees e he).leave_refcount hcard, hone] at hstay
        exact hstay rfl
  | detach => simp [hacc]

/-- **Every call keeps the flags exact**, a close if it is clean. -/
theorem RegStep.flagsExact {a : Alloc} {r r' : Registry Fd} {c : Call Fd}
    (hcard : Fintype.card Fd < 2 ^ 32) (hstep : RegStep a r c r') (hok : r.CallOk a c)
    (hrelease : ∀ fd, c = .release fd → r.CleanRelease fd) (hB : Bookkeeping r)
    (hF : FlagsExact r) : FlagsExact r' := by
  obtain ⟨⟨-, -, -, hnode, hidnode⟩, hdelete⟩ := hok
  cases hstep with
  | idle => exact hF
  | opened hfd => exact hF.unattached hB (by simp [hfd])
  | closed hfd hcase =>
      rcases hcase with h0 | hnil
      · exact hF.unattached hB (by simpa [hfd] using h0)
      · intro e he
        simp only [Registry.hold, hnil, List.not_mem_nil] at he
  | @created fd mode hfd =>
      intro e he acc hflag
      rcases List.mem_cons.mp he with rfl | he
      · refine ⟨fd, _, Function.update_self _ _ _, rfl, ?_⟩
        cases acc <;> exact hflag
      · exact hF.unattached hB (by simp [hfd]) e he acc hflag
  | leaked _ hfail =>
      rw [hnode] at hfail
      cases hfail
  | @attached fd mode id pre post e hfd hres =>
      refine hF.replace hB hres.1 (by simp [hfd]) ?_
      intro acc hflag
      rw [Header.attach_flag, Bool.or_eq_true] at hflag
      rcases hflag with hacc | hflag
      · exact ⟨fd, _, Function.update_self _ _ _, rfl, hacc⟩
      · exact hF.unattached hB (by simp [hfd]) e (by simp [hres.1]) acc hflag
  | @stayed fd c mode clear h id pre post e hleaves hfd hid hres hcount =>
      have he : e ∈ r.live := by simp [hres.1]
      obtain rfl := hB.resolves_own hfd hid hres
      have hstay : (e.leave mode clear).refcount ≠ 0 := hcount.resolve_right (by simp [hidnode])
      refine hF.replace hB hres.1 (by simp [hfd]) ?_
      intro acc hflag
      have hkept : e.flag acc = true := by
        rw [Header.leave_flag, Bool.and_eq_true] at hflag
        exact hflag.1
      obtain ⟨fd', hfd'⟩ := hF e he acc hkept
      refine ⟨fd', (attachedFor_update_of_ne ?_).mpr hfd'⟩
      -- the user of the access is not the file that leaves
      rintro rfl
      obtain ⟨x, hx, -, hacc⟩ := hfd'
      rw [hfd] at hx
      cases hx
      exact hB.not_flag_of_leaves hcard he hleaves hfd hstay hrelease hacc hflag
  | @freed fd c mode clear h id pre post e hleaves hfd hid hres hcount =>
      obtain rfl := hB.resolves_own hfd hid hres
      exact hF.apart hB hres.1 (by simp [hfd])
  | @deleted fd mode own id pre post e hfd hres hcount =>
      rcases hdelete fd id rfl pre e post hres with hshared | ⟨rfl, x, hx, hown⟩
      · exact absurd hshared (not_lt.mpr hcount)
      · rw [hfd] at hx
        cases hx
        subst hown
        exact hF.apart hB hres.1 (by simp [hfd])
  | deleteFailed _ hfail =>
      rw [hidnode] at hfail
      cases hfail

lemma CleanRelease.registry {d : Device Fd} {fd : Fd} (h : CleanRelease d fd) :
    d.registry.CleanRelease fd := by
  intro x hx
  obtain ⟨filp, hfilp, rfl⟩ := Option.mem_map.mp hx
  rcases h filp hfilp with h0 | ⟨hread, hwrite⟩ | ⟨b, hb, hid, hone⟩
  · exact Or.inl h0
  · refine Or.inr (Or.inl ?_)
    intro acc
    cases acc
    · exact hread
    · exact hwrite
  · exact Or.inr (Or.inr ⟨b.header, mem_registry_live hb, hid, hone⟩)

/-- Every clean run keeps the flags exact. -/
lemma ReachableBy.flagsExact (hcard : Fintype.card Fd < 2 ^ 32) {d : Device Fd}
    (hd : ReachableBy CleanCall d) : FlagsExact d.registry := by
  refine Reach.invariant (P := fun d => FlagsExact d.registry) ?_ ?_ hd
  · simp [FlagsExact, Device.registry, Device.init]
  · intro s k s' hreach hs hk hnext
    obtain ⟨ret, hret⟩ := hnext
    have hB := ReachableBy.bookkeeping hcard (hreach.mono fun _ _ h => h.1.careful)
    refine (registry_step hret).flagsExact hcard ⟨hk.1.1, ?_⟩ ?_ hB hs
    · intro fd id hc
      exact absurd hc (hk.1.2 fd id)
    · intro fd hc
      exact (hk.2 fd hc).registry

/-- An unattached file attaches to a live buffer exactly if the flags allow it. -/
lemma attach_return {d : Device Fd} (hnodup : (d.devBufs.map DevBuf.id).Nodup) {b : DevBuf}
    (hb : b ∈ d.devBufs) (a : Alloc) (fd : Fd) {filp : File} (hid : filp.privateData.bufId = 0) :
    (deviceIoctl a d fd filp (.attach b.id)).2 = 0 ↔
      ∀ acc, ¬ (filp.fMode.has acc = true ∧ b.header.flag acc = true) := by
  obtain ⟨pre, post, -, hs⟩ := searchEntry_of_mem hnodup hb
  have hacc : (∀ acc, ¬ (filp.fMode.has acc = true ∧ b.header.flag acc = true)) ↔
      ¬ (filp.fMode.read = true ∧ b.readRef = true) ∧
        ¬ (filp.fMode.write = true ∧ b.writeRef = true) := by
    constructor
    · intro h
      exact ⟨h .read, h .write⟩
    · rintro ⟨hread, hwrite⟩ (_ | _)
      · exact hread
      · exact hwrite
  rw [hacc]
  unfold deviceIoctl ioctlAttach
  simp only [hid, hs]
  by_cases hread : filp.fMode.read = true ∧ b.readRef = true
  · simp [hread, enotsup]
  by_cases hwrite : filp.fMode.write = true ∧ b.writeRef = true
  · simp [hwrite, enotsup]
  · simp [hread, hwrite]

/-- What an attach should do: an unattached file can attach to a live buffer exactly if no attached
file has an access bit of the requester. -/
def AttachAvailable (a : Alloc) (d : Device Fd) (fd : Fd) (filp : File) (b : DevBuf) : Prop :=
  (deviceIoctl a d fd filp (.attach b.id)).2 = 0 ↔
    ∀ acc, filp.fMode.has acc = true → ∀ fd', ¬ d.AttachedFor b.id acc fd'

/-- **Attach availability.** In every state of every run without deletes and allocation failures in
which files are closed cleanly, an unattached file can attach to a live buffer exactly if no
attached file has an access bit of its own. -/
theorem attach_available (hcard : Fintype.card Fd < 2 ^ 32) {d : Device Fd}
    (hd : ReachableBy CleanCall d) (a : Alloc) {fd : Fd} {filp : File}
    (_ : d.files fd = some filp) (hid : filp.privateData.bufId = 0) {b : DevBuf}
    (hb : b ∈ d.devBufs) : AttachAvailable a d fd filp b := by
  have hB := ReachableBy.bookkeeping hcard (hd.mono fun _ _ h => h.1.careful)
  have hF := ReachableBy.flagsExact hcard hd
  have hnodup := hB.ids.live_nodup
  rw [registry_ids] at hnodup
  unfold AttachAvailable
  rw [attach_return hnodup hb a fd hid]
  constructor
  · intro h acc hacc fd' hfd'
    refine h acc ⟨hacc, ?_⟩
    exact (hB.agrees _ (mem_registry_live hb)).flag acc fd' (attachedFor_registry.mpr hfd')
  · rintro h acc ⟨hacc, hflag⟩
    obtain ⟨fd', hfd'⟩ := hF _ (mem_registry_live hb) acc hflag
    exact h acc hacc fd' (attachedFor_registry.mp hfd')

/-- The writer can attach to the buffer of the reader. -/
theorem attach_available_readerCreated :
    ∃ b ∈ readerCreated.devBufs, b.id = 1 ∧
      AttachAvailable goodAlloc readerCreated true ⟨⟨false, true⟩, newPrivData⟩ b := by
  refine ⟨_, List.mem_cons_self, rfl, ?_⟩
  refine attach_available (by decide) ?_ goodAlloc rfl rfl List.mem_cons_self
  apply reachable_readerCreated
  · intro d fd mode
    exact ⟨⟨goodAlloc_ok, by simp⟩, by simp⟩
  · intro d fd
    exact ⟨⟨goodAlloc_ok, by simp⟩, by simp⟩

/-- The reader has closed its file, with the writer attached, and has opened it again. -/
def readerBack : Device Bool :=
  let d := (deviceRelease goodAlloc writerAttached
    ⟨⟨true, false⟩, { newPrivData with bufId := 1 }⟩).1.close false
  (deviceOpen goodAlloc d false ⟨true, false⟩).1

/-- No attached file can read, and yet no reader can attach any more. -/
theorem attach_refused_after_close :
    ReachableBy DeleteFree readerBack ∧
      readerBack.files false = some ⟨⟨true, false⟩, newPrivData⟩ ∧
      ∃ b ∈ readerBack.devBufs, b.id = 1 ∧
        (∀ fd, ¬ readerBack.AttachedFor 1 .read fd) ∧
        (deviceIoctl goodAlloc readerBack false ⟨⟨true, false⟩, newPrivData⟩
          (.attach b.id)).2 = -enotsup ∧
        ¬ AttachAvailable goodAlloc readerBack false ⟨⟨true, false⟩, newPrivData⟩ b := by
  have hnone : ∀ fd, ¬ readerBack.AttachedFor 1 .read fd := by
    rintro (_ | _) ⟨x, hx, hid, hacc⟩
    · cases hx
      cases hid
    · cases hx
      cases hacc
  refine ⟨?_, rfl, _, List.mem_cons_self, rfl, hnone, rfl, ?_⟩
  · have hattached : ReachableBy DeleteFree writerAttached := by
      apply reachable_writerAttached
      · intro d fd mode
        exact ⟨goodAlloc_ok, by simp⟩
      · intro d fd
        exact ⟨goodAlloc_ok, by simp⟩
      · intro d fd id
        exact ⟨goodAlloc_ok, by simp⟩
    have hclosed := hattached.step (k := (goodAlloc, .release false)) ⟨goodAlloc_ok, by simp⟩
      ⟨0, rfl⟩
    exact hclosed.step (k := (goodAlloc, .open false ⟨true, false⟩)) ⟨goodAlloc_ok, by simp⟩
      ⟨0, rfl⟩
  · intro havail
    refine absurd (havail.mpr ?_) (by decide)
    rintro (_ | _) hacc fd
    · exact hnone fd
    · cases hacc

end Comp3301.Crypto
