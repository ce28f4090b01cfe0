import Comp3301.Crypto.Registry

/-!
# The crypto device: ids, and what a failed ioctl leaves behind

* `IdsOk n live free` is the discipline of the ids: live ids and free ids are each distinct, the
  two are disjoint, and all of them lie in `1 … n - 1`. Taking an id (from the free list or the
  counter), losing it and giving it back keep the discipline, so every call does
  (`RegStep.idsOk`), allocation failures and ids resolved to another buffer included.
* A failed ioctl leaves the driver as it was except in three places, where an allocation fails
  after something has been changed; `FailsClean` names them and is exact
  (`ioctl_atomic_iff_failsClean`).
* An id that is not live is rejected only by a driver without buffers, since `search_entry` reports
  the last buffer when it finds none with the id (`unknown_rejected_iff`).
-/

set_option linter.unusedSectionVars false

namespace Comp3301.Crypto

open Comp3301.Lib

/-! ## The discipline of ids -/

/-- Live and free ids are distinct, disjoint, and in `1 … n - 1`. -/
structure IdsOk (n : ℤ) (live free : List ℤ) : Prop where
  live_nodup : live.Nodup
  free_nodup : free.Nodup
  disjoint : List.Disjoint live free
  range : ∀ id ∈ live ++ free, 1 ≤ id ∧ id ≤ n - 1
  pos : 1 ≤ n

namespace IdsOk

variable {n : ℤ} {live free pre post : List ℤ} {id : ℤ}

/-- A new driver. -/
lemma init : IdsOk 1 [] [] := by
  constructor <;> simp

/-- A live id can be forgotten. -/
lemma lose (h : IdsOk n (id :: live) free) : IdsOk n live free where
  live_nodup := (List.nodup_cons.mp h.live_nodup).2
  free_nodup := h.free_nodup
  disjoint := (List.disjoint_cons_left.mp h.disjoint).2
  range := fun x hx => h.range x (by simp at hx ⊢; tauto)
  pos := h.pos

/-- The counter gives out an id that is neither live nor free. -/
lemma count (h : IdsOk n live []) : IdsOk (n + 1) (n :: live) [] where
  live_nodup := by
    refine List.nodup_cons.mpr ⟨?_, h.live_nodup⟩
    intro hn
    have := (h.range n (by simpa using hn)).2
    omega
  free_nodup := List.nodup_nil
  disjoint := by simp
  range := by
    intro x hx
    simp only [List.append_nil, List.mem_cons] at hx
    rcases hx with rfl | hx
    · exact ⟨h.pos, by omega⟩
    · have := h.range x (by simpa using hx)
      exact ⟨this.1, by omega⟩
  pos := by
    have := h.pos
    omega

/-- The free list gives out an id that is not live. -/
lemma reuse (h : IdsOk n live (id :: free)) : IdsOk n (id :: live) free where
  live_nodup := by
    refine List.nodup_cons.mpr ⟨?_, h.live_nodup⟩
    intro hid
    exact h.disjoint hid List.mem_cons_self
  free_nodup := (List.nodup_cons.mp h.free_nodup).2
  disjoint := by
    refine List.disjoint_cons_left.mpr ⟨(List.nodup_cons.mp h.free_nodup).1, ?_⟩
    exact (List.disjoint_cons_right.mp h.disjoint).2
  range := fun x hx => h.range x (by simp at hx ⊢; tauto)
  pos := h.pos

/-- A live id is given back. -/
lemma giveBack (h : IdsOk n (pre ++ id :: post) free) : IdsOk n (pre ++ post) (id :: free) where
  live_nodup := (List.nodup_middle.mp h.live_nodup).of_cons
  free_nodup := by
    refine List.nodup_cons.mpr ⟨?_, h.free_nodup⟩
    intro hid
    exact h.disjoint (by simp) hid
  disjoint := by
    refine List.disjoint_cons_right.mpr ⟨?_, ?_⟩
    · exact (List.nodup_cons.mp (List.nodup_middle.mp h.live_nodup)).1
    · intro x hx
      exact h.disjoint (by simp at hx ⊢; tauto)
  range := fun x hx => h.range x (by simp at hx ⊢; tauto)
  pos := h.pos

end IdsOk

variable {Fd : Type} [DecidableEq Fd]

/-- The ids of the live buffers. -/
def Registry.ids (r : Registry Fd) : List ℤ := r.live.map Header.id

/-- The id taken for a new buffer is neither live nor free afterwards. -/
lemma IdsOk.takeId {r : Registry Fd} (h : IdsOk r.newId r.ids r.free) :
    IdsOk r.takeId.2.1 (r.takeId.1 :: r.ids) r.takeId.2.2 := by
  unfold Registry.takeId
  rcases hfree : r.free with _ | ⟨id, rest⟩
  · rw [hfree] at h
    exact h.count
  · rw [hfree] at h
    exact h.reuse

/-- **Every call keeps the discipline of ids.** -/
theorem RegStep.idsOk {a : Alloc} {r r' : Registry Fd} {c : Call Fd} (hstep : RegStep a r c r')
    (h : IdsOk r.newId r.ids r.free) : IdsOk r'.newId r'.ids r'.free := by
  cases hstep with
  | idle => exact h
  | opened => exact h
  | closed => exact h
  | created => exact h.takeId
  | leaked => exact h.takeId.lose
  | attached _ hres =>
      rw [Registry.ids, hres.1] at h
      simpa [Registry.ids] using h
  | stayed _ _ _ hres =>
      rw [Registry.ids, hres.1] at h
      simpa [Registry.ids] using h
  | freed _ _ _ hres =>
      rw [Registry.ids, hres.1] at h
      simp only [List.map_append, List.map_cons] at h
      simpa [Registry.ids] using h.giveBack
  | deleted _ hres =>
      rw [Registry.ids, hres.1] at h
      simp only [List.map_append, List.map_cons] at h
      simpa [Registry.ids] using h.giveBack
  | deleteFailed => exact h

/-- Every run keeps the discipline of ids. -/
lemma ReachableBy.idsOk {guard : Device Fd → Alloc × Call Fd → Prop} {d : Device Fd}
    (hd : ReachableBy guard d) :
    IdsOk d.registry.newId d.registry.ids d.registry.free := by
  refine Reach.invariant (P := fun d => IdsOk d.registry.newId d.registry.ids d.registry.free)
    IdsOk.init ?_ hd
  intro s k s' _ hs _ hnext
  obtain ⟨ret, hret⟩ := hnext
  exact (registry_step hret).idsOk hs

lemma registry_ids (d : Device Fd) : d.registry.ids = d.devBufs.map DevBuf.id := by
  simp [Registry.ids, Device.registry, DevBuf.header]

/-- The return value of `CRYPTO_IOCCREATE`: an error code, or the id that was taken. -/
lemma ioctlCreate_return (a : Alloc) (d : Device Fd) (fd : Fd) (filp : File) :
    (ioctlCreate a d fd filp).2 < 0 ∨ (ioctlCreate a d fd filp).2 = (takeId d).1 := by
  unfold ioctlCreate
  split_ifs <;> simp [enotsup, enomem]

/-- **Id allocation.** In every run the ids of the live buffers are distinct, the free ids are
distinct, the two are disjoint and lie in `1 … new_id - 1`; and `CRYPTO_IOCCREATE` does not return
the id of a live buffer. -/
theorem ids_wellFormed {d : Device Fd} (hd : Reachable d) :
    (d.devBufs.map DevBuf.id).Nodup ∧ d.detachedIds.Nodup ∧
      List.Disjoint (d.devBufs.map DevBuf.id) d.detachedIds ∧
      (∀ id ∈ d.devBufs.map DevBuf.id ++ d.detachedIds, 1 ≤ id ∧ id ≤ d.newId - 1) ∧
      ∀ a fd filp, d.files fd = some filp →
        (deviceIoctl a d fd filp .create).2 ∉ d.devBufs.map DevBuf.id := by
  have h := ReachableBy.idsOk hd
  have hids := registry_ids d
  rw [hids] at h
  refine ⟨h.live_nodup, h.free_nodup, h.disjoint, h.range, ?_⟩
  intro a fd filp _ hmem
  have hnew := (ReachableBy.idsOk hd).takeId.live_nodup
  rw [hids, takeId_registry] at hnew
  rcases ioctlCreate_return a d fd filp with hneg | hid
  · have := (h.range _ (List.mem_append_left _ hmem)).1
    simp only [deviceIoctl] at this
    omega
  · simp only [deviceIoctl, hid] at hmem
    exact (List.nodup_cons.mp hnew).1 hmem

/-! ### A file with a buffer -/

/-- All allocations succeed, and `vmalloc` delivers zeroed memory. -/
def goodAlloc : Alloc := ⟨true, true, true, true, true, fun _ => 0⟩

/-- One file, opened for reading and writing. -/
def oneFile : Device Unit := (deviceOpen goodAlloc Device.init () ⟨true, true⟩).1

/-- The file has created a buffer. -/
def oneBuffer : Device Unit :=
  (deviceIoctl goodAlloc oneFile () ⟨⟨true, true⟩, newPrivData⟩ .create).1

lemma reachable_oneFile : Reachable oneFile :=
  Reach.init.step (k := (goodAlloc, .open () ⟨true, true⟩)) trivial ⟨0, rfl⟩

lemma reachable_oneBuffer : Reachable oneBuffer :=
  reachable_oneFile.step (k := (goodAlloc, .ioctl () .create)) trivial ⟨1, rfl⟩

theorem ids_wellFormed_oneBuffer :
    oneBuffer.devBufs.map DevBuf.id = [1] ∧ (oneBuffer.devBufs.map DevBuf.id).Nodup ∧
      oneBuffer.detachedIds.Nodup ∧ ∀ id ∈ [1], 1 ≤ id ∧ id ≤ oneBuffer.newId - 1 := by
  obtain ⟨hlive, hfree, -, hrange, -⟩ := ids_wellFormed reachable_oneBuffer
  exact ⟨rfl, hlive, hfree, fun id hid => hrange id (List.mem_append_left _ hid)⟩

/-! ## Failed ioctls -/

/-- The reference counts of a run fit an `unsigned int`. -/
theorem RegStep.refcount_lt {a : Alloc} {r r' : Registry Fd} {c : Call Fd}
    (hstep : RegStep a r c r') (h : ∀ e ∈ r.live, e.refcount < 2 ^ 32) :
    ∀ e ∈ r'.live, e.refcount < 2 ^ 32 := by
  have hu : ∀ x : ℤ, unsigned 32 x < 2 ^ 32 := by
    intro x
    unfold unsigned
    omega
  have hsub : ∀ {pre post : List Header} {e : Header}, r.live = pre ++ e :: post →
      ∀ x ∈ pre ++ post, x.refcount < 2 ^ 32 := by
    intro pre post e hl x hx
    exact h x (by rw [hl]; simp at hx ⊢; tauto)
  cases hstep with
  | idle => exact h
  | opened => exact h
  | closed => exact h
  | created =>
      intro e he
      rcases List.mem_cons.mp he with rfl | he
      · norm_num
      · exact h e he
  | leaked => exact h
  | @attached _ _ _ _ _ c _ hres =>
      intro e he
      simp only [List.mem_append, List.mem_cons] at he
      rcases he with he | rfl | he
      · exact hsub hres.1 e (by simp [he])
      · exact hu (c.refcount + 1)
      · exact hsub hres.1 e (by simp [he])
  | stayed _ _ _ hres =>
      intro e he
      simp only [List.mem_append, List.mem_cons] at he
      rcases he with he | rfl | he
      · exact hsub hres.1 e (by simp [he])
      · unfold Header.leave
        exact hu _
      · exact hsub hres.1 e (by simp [he])
  | freed _ _ _ hres => exact hsub hres.1
  | deleted _ hres => exact hsub hres.1
  | deleteFailed => exact h

lemma ReachableBy.refcount_lt {guard : Device Fd → Alloc × Call Fd → Prop} {d : Device Fd}
    (hd : ReachableBy guard d) : ∀ b ∈ d.devBufs, b.refcount < 2 ^ 32 := by
  have h : ∀ e ∈ d.registry.live, e.refcount < 2 ^ 32 := by
    refine Reach.invariant (P := fun d => ∀ e ∈ d.registry.live, e.refcount < 2 ^ 32)
      (by simp [Device.registry, Device.init]) ?_ hd
    intro s k s' _ hs _ hnext
    obtain ⟨ret, hret⟩ := hnext
    exact (registry_step hret).refcount_lt hs
  intro b hb
  exact h b.header (List.mem_map.mpr ⟨b, hb, rfl⟩)

/-- A failed ioctl changes nothing. -/
def IoctlAtomic (a : Alloc) (d : Device Fd) (fd : Fd) (filp : File) (cmd : Cmd) : Prop :=
  (deviceIoctl a d fd filp cmd).2 < 0 → (deviceIoctl a d fd filp cmd).1 = d

/-- No allocation fails at a point where something has been changed already: the last one of a
create that gets that far; the one of `freebuf` when the delete has cleared an attachment; the one
of `freebuf` when the detaching file is the last one. -/
def FailsClean (a : Alloc) (d : Device Fd) (filp : File) : Cmd → Prop
  | .create =>
      ¬ (filp.privateData.bufId = 0 ∧ a.devBuf = true ∧ a.ring = true ∧ a.node = false)
  | .delete arg =>
      ¬ (a.idnode = false ∧ filp.privateData.bufId ≠ 0 ∧
        ∃ e, searchEntry arg d.devBufs = some e ∧ e.2.refcount ≤ 1)
  | .detach =>
      ¬ (a.idnode = false ∧ filp.privateData.bufId ≠ 0 ∧
        ∃ e, searchEntry filp.privateData.bufId d.devBufs = some e ∧ e.2.refcount = 1)
  | _ => True

section atomic

variable {a : Alloc} {d : Device Fd} {fd : Fd} {filp : File}

/-- A changed `buf_id` is a change. -/
lemma setPriv_ne {d₁ : Device Fd} {pd : PrivData} (hfd : d.files fd = some filp)
    (hpd : pd.bufId ≠ filp.privateData.bufId) : d₁.setPriv fd filp pd ≠ d := by
  intro h
  have hfile := congrFun (congrArg Device.files h) fd
  simp only [Device.setPriv, Function.update_self, hfd, Option.some.injEq] at hfile
  exact hpd (congrArg (fun f : File => f.privateData.bufId) hfile)

/-- Storing what the file holds already is no change. -/
lemma setPriv_self {pd : PrivData} (hfd : d.files fd = some filp) (hpd : pd = filp.privateData) :
    d.setPriv fd filp pd = d := by
  unfold Device.setPriv
  rw [hpd, ← hfd, Function.update_eq_self]

/-- A reference count reaches zero from one only. -/
lemma unsigned_pred_eq_zero {n : ℕ} (hn : n < 2 ^ 32) : unsigned 32 (n - 1) = 0 ↔ n = 1 := by
  unfold unsigned
  omega

lemma atomic_create (hd : Reachable d) (hfd : d.files fd = some filp) :
    IoctlAtomic a d fd filp .create ↔ FailsClean a d filp .create := by
  have hpos : 1 ≤ (takeId d).1 := by
    have h := (ReachableBy.idsOk hd).takeId.range d.registry.takeId.1 (by simp)
    exact h.1
  unfold IoctlAtomic FailsClean deviceIoctl ioctlCreate
  by_cases hid : filp.privateData.bufId = 0
  · rw [if_neg (not_not.mpr hid)]
    by_cases hdev : a.devBuf = true
    · rw [if_neg (by simp [hdev])]
      by_cases hring : a.ring = true
      · rw [if_neg (by simp [hring])]
        by_cases hnode : a.node = false
        · -- the id has been taken and stored in the file when the node cannot be allocated
          rw [if_pos hnode]
          simp only [hid, hdev, hring, hnode, and_self, not_true_eq_false, iff_false]
          intro h
          exact setPriv_ne hfd (by simp only; omega) (h (by decide))
        · rw [if_neg hnode]
          constructor
          · rintro - ⟨-, -, -, h⟩
            exact hnode h
          · intro _ h
            exact absurd (lt_of_lt_of_le h (le_of_lt zero_lt_one)) (not_lt.mpr hpos)
      · simp [hring]
    · simp [hdev]
  · simp [hid]

/-- `freebuf` leaves a failed call where it was when it fails. -/
lemma freebufReturn_neg {d₁ : Device Fd} {e : Entry} :
    (freebufReturn a d₁ e).2 < 0 ↔ a.idnode = false := by
  by_cases hnode : a.idnode = false
  · rw [freebufReturn_fail hnode]
    simp [hnode, enomem]
  · rw [freebufReturn_ok (by simpa using hnode)]
    simp [hnode]

lemma atomic_delete (arg : ℤ) (hfd : d.files fd = some filp) :
    IoctlAtomic a d fd filp (.delete arg) ↔ FailsClean a d filp (.delete arg) := by
  unfold IoctlAtomic FailsClean deviceIoctl ioctlDelete
  rcases hs : searchEntry arg d.devBufs with _ | ⟨i, b⟩
  · simp [hs]
  · simp only [hs, Option.some.injEq, exists_eq_left']
    by_cases hcount : b.refcount > 1
    · rw [if_pos hcount]
      simp [Nat.not_le.mpr hcount]
    · rw [if_neg hcount, freebufReturn_neg]
      constructor
      · rintro h ⟨hnode, hid, -⟩
        have hsame := h hnode
        rw [freebufReturn_fail hnode] at hsame
        exact setPriv_ne hfd hid.symm hsame
      · intro h hnode
        have hid : filp.privateData.bufId = 0 := by
          by_contra hid
          exact h ⟨hnode, hid, not_lt.mp hcount⟩
        rw [freebufReturn_fail hnode]
        exact setPriv_self hfd (by rw [← hid])

lemma atomic_detach (hd : Reachable d) (hfd : d.files fd = some filp) :
    IoctlAtomic a d fd filp .detach ↔ FailsClean a d filp .detach := by
  unfold IoctlAtomic FailsClean deviceIoctl ioctlDetach
  by_cases hid : filp.privateData.bufId = 0
  · simp [hid]
  rw [if_neg hid]
  rcases searchEntry_cases filp.privateData.bufId d.devBufs with
    ⟨-, hs⟩ | ⟨pre, b, post, hl, hs, -⟩
  · simp [hs]
  · have hlt : b.refcount < 2 ^ 32 := ReachableBy.refcount_lt hd b (by simp [hl])
    simp only [hs, Option.some.injEq, exists_eq_left']
    by_cases hone : b.refcount = 1
    · rw [if_pos ((unsigned_pred_eq_zero hlt).mpr hone), freebufReturn_neg]
      constructor
      · rintro h ⟨hnode, -, -⟩
        have hsame := h hnode
        rw [freebufReturn_fail hnode] at hsame
        exact setPriv_ne hfd (Ne.symm hid) hsame
      · intro h hnode
        exact absurd ⟨hnode, hid, hone⟩ h
    · rw [if_neg (fun h => hone ((unsigned_pred_eq_zero hlt).mp h))]
      simp [hone]

lemma atomic_attach (arg : ℤ) : IoctlAtomic a d fd filp (.attach arg) := by
  intro h
  have hstep : deviceIoctl a d fd filp (.attach arg) = ioctlAttach d fd filp arg := rfl
  rw [hstep] at h ⊢
  unfold ioctlAttach at h ⊢
  by_cases hid : filp.privateData.bufId ≠ 0
  · rw [if_pos hid]
  rw [if_neg hid] at h ⊢
  rcases hs : searchEntry arg d.devBufs with _ | ⟨i, b⟩
  · rfl
  · simp only [hs] at h ⊢
    by_cases hread : filp.fMode.read = true ∧ b.readRef = true
    · rw [if_pos hread]
    rw [if_neg hread] at h ⊢
    by_cases hwrite : filp.fMode.write = true ∧ b.writeRef = true
    · rw [if_pos hwrite]
    · rw [if_neg hwrite] at h
      exact absurd h (lt_irrefl 0)

lemma atomic_smode (arg : Option CryptoSmode) : IoctlAtomic a d fd filp (.smode arg) := by
  intro h
  cases arg with
  | none => rfl
  | some tempsmode =>
      have hzero : (ioctlSmode d fd filp (some tempsmode)).2 = 0 := by
        unfold ioctlSmode
        simp only
        split_ifs <;> rfl
      exact absurd hzero (ne_of_lt h)

end atomic

/-- **When a failed ioctl is atomic.** In every state of every run, and whichever allocations fail:
a failed ioctl leaves everything as it was exactly if the call fails clean. -/
theorem ioctl_atomic_iff_failsClean {d : Device Fd} (hd : Reachable d) {fd : Fd} {filp : File}
    (hfd : d.files fd = some filp) (a : Alloc) (cmd : Cmd) :
    IoctlAtomic a d fd filp cmd ↔ FailsClean a d filp cmd := by
  cases cmd with
  | create => exact atomic_create hd hfd
  | delete arg => exact atomic_delete arg hfd
  | attach arg => exact iff_of_true (atomic_attach arg) trivial
  | detach => exact atomic_detach hd hfd
  | smode arg => exact iff_of_true (atomic_smode arg) trivial
  | other => exact iff_of_true (fun _ => rfl) trivial

/-- A call that fails clean: detaching a file that is not attached. -/
theorem ioctl_atomic_iff_failsClean_oneFile :
    (deviceIoctl goodAlloc oneFile () ⟨⟨true, true⟩, newPrivData⟩ .detach).2 = -enotsup ∧
      IoctlAtomic goodAlloc oneFile () ⟨⟨true, true⟩, newPrivData⟩ .detach := by
  refine ⟨rfl, ?_⟩
  refine (ioctl_atomic_iff_failsClean reachable_oneFile rfl goodAlloc .detach).mpr ?_
  rintro ⟨hnode, -, -⟩
  exact absurd hnode (by decide)

/-- A create whose list node cannot be allocated: `-ENOMEM`, with the id taken and stored in the
file. -/
theorem failed_create_not_atomic :
    Reachable oneFile ∧ oneFile.files () = some ⟨⟨true, true⟩, newPrivData⟩ ∧
      (deviceIoctl { goodAlloc with node := false } oneFile () ⟨⟨true, true⟩, newPrivData⟩
        .create).2 = -enomem ∧
      (deviceIoctl { goodAlloc with node := false } oneFile () ⟨⟨true, true⟩, newPrivData⟩
        .create).1.newId ≠ oneFile.newId ∧
      ¬ IoctlAtomic { goodAlloc with node := false } oneFile () ⟨⟨true, true⟩, newPrivData⟩
        .create := by
  refine ⟨reachable_oneFile, rfl, rfl, by decide, ?_⟩
  intro h
  have hid := congrArg Device.newId (h (by decide))
  exact absurd hid (by decide)

/-! ## Unknown ids -/

/-- `search_entry` reports an entry with the id, or `NULL` when there is none. -/
def FindsOrNull (id : ℤ) (l : List DevBuf) : Prop :=
  match searchEntry id l with
  | some (i, b) => l[i]? = some b ∧ b.id = id
  | none => ∀ b ∈ l, b.id ≠ id

/-- It does when there is an entry with the id, and when there is no entry at all. -/
lemma findsOrNull_iff (id : ℤ) (l : List DevBuf) :
    FindsOrNull id l ↔ l = [] ∨ ∃ b ∈ l, b.id = id := by
  unfold FindsOrNull
  rcases searchEntry_cases id l with ⟨rfl, hs⟩ | ⟨pre, b, post, rfl, hs, hcases⟩
  · simp [hs]
  · rw [hs]
    simp only [List.append_eq_nil_iff, List.cons_ne_nil, and_false, false_or]
    rcases hcases with ⟨hb, -⟩ | ⟨-, hne⟩
    · exact iff_of_true ⟨by simp, hb⟩ ⟨b, by simp, hb⟩
    · refine iff_of_false (fun h => hne b (by simp) h.2) ?_
      rintro ⟨c, hc, hcid⟩
      exact hne c hc hcid

section unknown

variable {d : Device Fd} {id : ℤ} (a : Alloc) (fd : Fd) (filp : File)

/-- `search_entry` reports nothing exactly if there are no buffers. -/
lemma searchEntry_eq_none_iff {l : List DevBuf} : searchEntry id l = none ↔ l = [] := by
  rcases searchEntry_cases id l with ⟨rfl, hs⟩ | ⟨pre, b, post, rfl, hs, -⟩ <;> simp [hs]

/-- A delete is rejected as invalid exactly if there are no buffers. -/
lemma delete_einval_iff :
    deviceIoctl a d fd filp (.delete id) = (d, -einval) ↔ d.devBufs = [] := by
  have hnone : searchEntry id d.devBufs = none ↔ d.devBufs = [] := searchEntry_eq_none_iff
  rw [← hnone, show deviceIoctl a d fd filp (.delete id) =
    ioctlDelete a d fd filp id from rfl, ioctlDelete]
  rcases hs : searchEntry id d.devBufs with _ | ⟨i, b⟩
  · simp
  · refine iff_of_false ?_ (by simp)
    intro h
    have hret := congrArg Prod.snd h
    simp only [freebufReturn] at hret
    split_ifs at hret <;> simp [enotsup, einval, enomem] at hret

/-- So is an attach by a file that is not attached. -/
lemma attach_einval_iff (hattached : filp.privateData.bufId = 0) :
    deviceIoctl a d fd filp (.attach id) = (d, -einval) ↔ d.devBufs = [] := by
  have hnone : searchEntry id d.devBufs = none ↔ d.devBufs = [] := searchEntry_eq_none_iff
  rw [← hnone, show deviceIoctl a d fd filp (.attach id) =
    ioctlAttach d fd filp id from rfl, ioctlAttach, if_neg (not_not.mpr hattached)]
  rcases hs : searchEntry id d.devBufs with _ | ⟨i, b⟩
  · simp
  · refine iff_of_false ?_ (by simp)
    intro h
    have hret := congrArg Prod.snd h
    simp only at hret
    split_ifs at hret <;> simp [enotsup, einval] at hret

end unknown

/-- **An id that is not live is rejected without effect exactly if there are no buffers at all**,
in every state and by every file: a delete, an attach by a file that is not attached, and the
lookup behind both on any list. -/
theorem unknown_rejected_iff {d : Device Fd} {id : ℤ} (hid : ∀ b ∈ d.devBufs, b.id ≠ id) :
    (∀ (a : Alloc) (fd : Fd) (filp : File),
      (deviceIoctl a d fd filp (.delete id) = (d, -einval) ↔ d.devBufs = []) ∧
      (filp.privateData.bufId = 0 →
        (deviceIoctl a d fd filp (.attach id) = (d, -einval) ↔ d.devBufs = []))) ∧
    (FindsOrNull id d.devBufs ↔ d.devBufs = []) ∧
    ∀ k l, FindsOrNull k l ↔ l = [] ∨ ∃ b ∈ l, b.id = k := by
  refine ⟨?_, ?_, findsOrNull_iff⟩
  · intro a fd filp
    exact ⟨delete_einval_iff a fd filp, attach_einval_iff a fd filp⟩
  · rw [findsOrNull_iff]
    refine or_iff_left ?_
    rintro ⟨b, hb, hbid⟩
    exact hid b hb hbid

/-- Without buffers a delete of 7 is rejected. -/
theorem unknown_rejected_oneFile :
    (∀ b ∈ oneFile.devBufs, b.id ≠ 7) ∧
      deviceIoctl goodAlloc oneFile () ⟨⟨true, true⟩, newPrivData⟩ (.delete 7) =
        (oneFile, -einval) := by
  have hid : ∀ b ∈ oneFile.devBufs, b.id ≠ 7 := by
    intro b hb
    cases hb
  exact ⟨hid, (((unknown_rejected_iff hid).1 goodAlloc () _).1).mpr rfl⟩

/-- The creator of buffer 1 deletes 7, and with it buffer 1. -/
theorem unknown_deleted_oneBuffer :
    Reachable oneBuffer ∧ (∀ b ∈ oneBuffer.devBufs, b.id ≠ 7) ∧
      ∃ filp, oneBuffer.files () = some filp ∧
        (deviceIoctl goodAlloc oneBuffer () filp (.delete 7)).2 = 0 ∧
        (deviceIoctl goodAlloc oneBuffer () filp (.delete 7)).1.devBufs = [] := by
  refine ⟨reachable_oneBuffer, ?_, _, rfl, rfl, rfl⟩
  intro b hb
  have hid : b.id ∈ oneBuffer.devBufs.map DevBuf.id := List.mem_map_of_mem hb
  rw [show oneBuffer.devBufs.map DevBuf.id = [1] from rfl, List.mem_singleton] at hid
  omega

end Comp3301.Crypto
