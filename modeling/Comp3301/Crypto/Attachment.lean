import Comp3301.Crypto.Ids

/-!
# The crypto device: attachments

A live buffer keeps a reference count and two access flags, and every open file keeps the id of
the buffer it is attached to. `Header.Agrees` says how the record of one buffer fits the files:
the count is the number of attached files and not zero, no two attached files have the same kind
of access, and a kind of access in use has its flag set. A flag may be set without being in use:
`device_release` leaves the flags alone.

* `Bookkeeping` is the invariant of the registry: the discipline of ids, attached files name live
  buffers, every record agrees. All calls keep it (`RegStep.bookkeeping`) except a delete that
  takes a buffer away from a file that is attached to it; `DeleteOk` rules these out and
  is exact (`safeDelete_iff_deleteOk`).
* `FlagsExact` adds that a flag is set only while in use. It is kept by runs in which no file is
  closed that shares its buffer and has an access bit (`attach_available`).

The number of files is assumed to be below `2 ^ 32`, so that the reference count, an
`unsigned int`, cannot wrap around.
-/

set_option linter.unusedSectionVars false

namespace Comp3301.Crypto

open Comp3301.Lib

/-! ## Kinds of access -/

/-- The two kinds of access. -/
inductive Access where
  | read
  | write
  deriving DecidableEq, Repr

/-- The access bit of a mode. -/
def FMode.has (m : FMode) : Access → Bool
  | .read => m.read
  | .write => m.write

/-- The access flag of a buffer. -/
def Header.flag (e : Header) : Access → Bool
  | .read => e.readRef
  | .write => e.writeRef

lemma Header.attach_flag (e : Header) (mode : FMode) (acc : Access) :
    (e.attach mode).flag acc = (mode.has acc || e.flag acc) := by
  cases acc with
  | read => cases h : mode.read <;> simp [Header.attach, Header.flag, FMode.has, h]
  | write => cases h : mode.write <;> simp [Header.attach, Header.flag, FMode.has, h]

lemma Header.leave_flag (e : Header) (mode : FMode) (clear : Bool) (acc : Access) :
    (e.leave mode clear).flag acc = (e.flag acc && !(clear && mode.has acc)) := by
  cases acc with
  | read => cases h : clear && mode.read <;> simp [Header.leave, Header.flag, FMode.has, h]
  | write => cases h : clear && mode.write <;> simp [Header.leave, Header.flag, FMode.has, h]

variable {Fd : Type}

/-- The file is attached to the buffer `id`. -/
def AttachedTo (holders : Fd → Option Holder) (id : ℤ) (fd : Fd) : Prop :=
  ∃ h ∈ holders fd, h.bufId = id

instance (holders : Fd → Option Holder) (id : ℤ) : DecidablePred (AttachedTo holders id) :=
  fun fd => inferInstanceAs (Decidable (∃ h ∈ holders fd, h.bufId = id))

/-- The file is attached to the buffer `id` and has the access bit. -/
def AttachedFor (holders : Fd → Option Holder) (id : ℤ) (acc : Access) (fd : Fd) : Prop :=
  ∃ h ∈ holders fd, h.bufId = id ∧ h.mode.has acc = true

variable {holders : Fd → Option Holder} {id : ℤ} {acc : Access} {fd fd' : Fd}

lemma AttachedFor.attachedTo (h : AttachedFor holders id acc fd) : AttachedTo holders id fd := by
  obtain ⟨x, hx, hid, -⟩ := h
  exact ⟨x, hx, hid⟩

variable [DecidableEq Fd]

lemma attachedTo_update_of_ne {h : Option Holder} (hne : fd' ≠ fd) :
    AttachedTo (Function.update holders fd h) id fd' ↔ AttachedTo holders id fd' := by
  unfold AttachedTo
  rw [Function.update_of_ne hne]

lemma attachedFor_update_of_ne {h : Option Holder} (hne : fd' ≠ fd) :
    AttachedFor (Function.update holders fd h) id acc fd' ↔ AttachedFor holders id acc fd' := by
  unfold AttachedFor
  rw [Function.update_of_ne hne]

lemma not_attachedTo_update {h : Option Holder} (hnew : ∀ x ∈ h, x.bufId ≠ id) :
    ¬ AttachedTo (Function.update holders fd h) id fd := by
  rintro ⟨x, hx, hid⟩
  rw [Function.update_self] at hx
  exact hnew x hx hid

lemma attachedTo_of_holders {mode : FMode} (h : holders fd = some ⟨mode, id⟩) :
    AttachedTo holders id fd :=
  ⟨⟨mode, id⟩, h, rfl⟩

/-! ## The record of one buffer -/

variable [Fintype Fd]

/-- The record of a live buffer fits the files attached to it. -/
structure Header.Agrees (e : Header) (holders : Fd → Option Holder) : Prop where
  refcount : e.refcount = tally (AttachedTo holders e.id)
  pos : 1 ≤ e.refcount
  exclusive : ∀ acc fd₁ fd₂, AttachedFor holders e.id acc fd₁ →
    AttachedFor holders e.id acc fd₂ → fd₁ = fd₂
  flag : ∀ acc fd, AttachedFor holders e.id acc fd → e.flag acc = true

namespace Header.Agrees

variable {e : Header} {mode : FMode}

/-- A file that is not attached to the buffer before or after does not matter. -/
lemma frame (hA : e.Agrees holders) {h : Option Holder} (hold : ∀ x ∈ holders fd, x.bufId ≠ e.id)
    (hnew : ∀ x ∈ h, x.bufId ≠ e.id) : e.Agrees (Function.update holders fd h) := by
  have hfor : ∀ acc fd', AttachedFor (Function.update holders fd h) e.id acc fd' →
      AttachedFor holders e.id acc fd' := by
    intro acc fd' hfd'
    by_cases hne : fd' = fd
    · subst hne
      exact absurd hfd'.attachedTo (not_attachedTo_update hnew)
    · exact (attachedFor_update_of_ne hne).mp hfd'
  refine ⟨?_, hA.pos, ?_, ?_⟩
  · rw [hA.refcount]
    apply tally_congr
    intro fd'
    by_cases hne : fd' = fd
    · subst hne
      refine iff_of_false ?_ (not_attachedTo_update hnew)
      rintro ⟨x, hx, hid⟩
      exact hold x hx hid
    · exact (attachedTo_update_of_ne hne).symm
  · intro acc fd₁ fd₂ h₁ h₂
    exact hA.exclusive acc fd₁ fd₂ (hfor acc fd₁ h₁) (hfor acc fd₂ h₂)
  · intro acc fd' hfd'
    exact hA.flag acc fd' (hfor acc fd' hfd')

/-- A new buffer is attached to the file that created it. -/
lemma fresh (hid : ∀ fd', ¬ AttachedTo holders id fd') :
    Header.Agrees ⟨id, 1, mode.read, mode.write⟩
      (Function.update holders fd (some ⟨mode, id⟩)) := by
  have honly : ∀ fd', AttachedTo (Function.update holders fd (some ⟨mode, id⟩)) id fd' →
      fd' = fd := by
    intro fd' hfd'
    by_contra hne
    exact hid fd' ((attachedTo_update_of_ne hne).mp hfd')
  refine ⟨?_, le_rfl, ?_, ?_⟩
  · have hzero : tally (AttachedTo holders id) = 0 := tally_eq_zero.mpr hid
    have hsucc := tally_succ (fun fd' hne => (attachedTo_update_of_ne hne).symm) (hid fd)
      (attachedTo_of_holders (Function.update_self fd (some ⟨mode, id⟩) holders))
    rw [hzero] at hsucc
    exact hsucc.symm
  · intro acc fd₁ fd₂ h₁ h₂
    rw [honly fd₁ h₁.attachedTo, honly fd₂ h₂.attachedTo]
  · intro acc fd' hfd'
    obtain rfl := honly fd' hfd'.attachedTo
    obtain ⟨x, hx, -, hacc⟩ := hfd'
    rw [Function.update_self] at hx
    cases hx
    cases acc <;> exact hacc

/-- An unattached file attaches; its kinds of access were not in use. -/
lemma attach (hA : e.Agrees holders) (hcard : Fintype.card Fd < 2 ^ 32) (hid : e.id ≠ 0)
    (hfd : holders fd = some ⟨mode, 0⟩)
    (hfree : ∀ acc, ¬ (mode.has acc = true ∧ e.flag acc = true)) :
    (e.attach mode).Agrees (Function.update holders fd (some ⟨mode, e.id⟩)) := by
  have hnot : ¬ AttachedTo holders e.id fd := by
    rintro ⟨x, hx, hxid⟩
    rw [hfd] at hx
    cases hx
    exact hid hxid.symm
  have hself := Function.update_self fd (some (⟨mode, e.id⟩ : Holder)) holders
  -- who has a kind of access afterwards had it before, or is the new file
  have hfor : ∀ acc fd', AttachedFor (Function.update holders fd (some ⟨mode, e.id⟩)) e.id acc fd' →
      fd' ≠ fd ∧ AttachedFor holders e.id acc fd' ∧ e.flag acc = true ∨
        fd' = fd ∧ mode.has acc = true := by
    intro acc fd' hfd'
    by_cases hne : fd' = fd
    · subst hne
      obtain ⟨x, hx, -, hacc⟩ := hfd'
      rw [hself] at hx
      cases hx
      exact Or.inr ⟨rfl, hacc⟩
    · have hold := (attachedFor_update_of_ne hne).mp hfd'
      exact Or.inl ⟨hne, hold, hA.flag acc fd' hold⟩
  have hsucc : tally (AttachedTo (Function.update holders fd (some ⟨mode, e.id⟩)) e.id) =
      e.refcount + 1 := by
    rw [hA.refcount]
    exact tally_succ (fun fd' hne => (attachedTo_update_of_ne hne).symm) hnot
      (attachedTo_of_holders hself)
  have hcount : (e.attach mode).refcount = e.refcount + 1 := by
    have hle : e.refcount + 1 < 2 ^ 32 := by
      rw [← hsucc]
      exact lt_of_le_of_lt tally_le_card hcard
    have hcast : ((e.refcount : ℤ) + 1) = ((e.refcount + 1 : ℕ) : ℤ) := by push_cast; rfl
    unfold Header.attach
    rw [hcast]
    exact unsigned_natCast hle
  refine ⟨?_, ?_, ?_, ?_⟩
  · rw [hcount, Header.attach_id, hsucc]
  · rw [hcount]
    exact Nat.le_add_left 1 _
  · rintro acc fd₁ fd₂ h₁ h₂
    rcases hfor acc fd₁ h₁ with ⟨-, h₁, hflag⟩ | ⟨rfl, hacc⟩
    · rcases hfor acc fd₂ h₂ with ⟨-, h₂, -⟩ | ⟨rfl, hacc⟩
      · exact hA.exclusive acc fd₁ fd₂ h₁ h₂
      · exact absurd ⟨hacc, hflag⟩ (hfree acc)
    · rcases hfor acc fd₂ h₂ with ⟨-, -, hflag⟩ | ⟨rfl, -⟩
      · exact absurd ⟨hacc, hflag⟩ (hfree acc)
      · rfl
  · intro acc fd' hfd'
    rw [Header.attach_flag]
    rcases hfor acc fd' hfd' with ⟨-, -, hflag⟩ | ⟨-, hacc⟩
    · simp [hflag]
    · simp [hacc]

/-- The reference count after an attached file has left. -/
lemma leave_refcount (hA : e.Agrees holders) (hcard : Fintype.card Fd < 2 ^ 32) (clear : Bool) :
    (e.leave mode clear).refcount = e.refcount - 1 := by
  have hlt : e.refcount < 2 ^ 32 := by
    rw [hA.refcount]
    exact lt_of_le_of_lt tally_le_card hcard
  have hcast : ((e.refcount : ℤ) - 1) = ((e.refcount - 1 : ℕ) : ℤ) := by
    have := hA.pos
    omega
  unfold Header.leave
  rw [hcast]
  exact unsigned_natCast (by omega)

/-- An attached file leaves, and others stay. -/
lemma leave (hA : e.Agrees holders) (hcard : Fintype.card Fd < 2 ^ 32)
    (hfd : holders fd = some ⟨mode, e.id⟩) {h : Option Holder} (hnew : ∀ x ∈ h, x.bufId ≠ e.id)
    {clear : Bool} (hstay : (e.leave mode clear).refcount ≠ 0) :
    (e.leave mode clear).Agrees (Function.update holders fd h) := by
  have hfor : ∀ acc fd', AttachedFor (Function.update holders fd h) e.id acc fd' →
      fd' ≠ fd ∧ AttachedFor holders e.id acc fd' := by
    intro acc fd' hfd'
    by_cases hne : fd' = fd
    · subst hne
      exact absurd hfd'.attachedTo (not_attachedTo_update hnew)
    · exact ⟨hne, (attachedFor_update_of_ne hne).mp hfd'⟩
  refine ⟨?_, Nat.one_le_iff_ne_zero.mpr hstay, ?_, ?_⟩
  · rw [hA.leave_refcount hcard, hA.refcount, Header.leave_id]
    have hsucc : tally (AttachedTo holders e.id) =
        tally (AttachedTo (Function.update holders fd h) e.id) + 1 :=
      tally_succ (fun fd' hne => attachedTo_update_of_ne hne) (not_attachedTo_update hnew)
        (attachedTo_of_holders hfd)
    rw [hsucc, Nat.add_sub_cancel]
  · intro acc fd₁ fd₂ h₁ h₂
    exact hA.exclusive acc fd₁ fd₂ (hfor acc fd₁ h₁).2 (hfor acc fd₂ h₂).2
  · intro acc fd' hfd'
    obtain ⟨hne, hold⟩ := hfor acc fd' hfd'
    rw [Header.leave_flag, hA.flag acc fd' hold]
    -- only the leaving file had the access whose flag is cleared
    have hacc : mode.has acc = false := by
      by_contra hacc
      exact hne (hA.exclusive acc fd' fd hold ⟨_, hfd, rfl, by simpa using hacc⟩)
    simp [hacc]

/-- With a reference count of one, an attached file is the only one. -/
lemma eq_of_last (hA : e.Agrees holders) (hlast : e.refcount ≤ 1)
    (hfd : AttachedTo holders e.id fd) (hfd' : AttachedTo holders e.id fd') : fd' = fd := by
  rw [hA.refcount] at hlast
  exact tally_le_one_iff.mp hlast fd' fd hfd' hfd

end Header.Agrees

/-! ## The bookkeeping invariant -/

/-- The invariant of the registry. -/
structure Bookkeeping (r : Registry Fd) : Prop where
  ids : IdsOk r.newId r.ids r.free
  named : ∀ fd h, r.holders fd = some h → h.bufId ≠ 0 → h.bufId ∈ r.ids
  agrees : ∀ e ∈ r.live, e.Agrees r.holders

/-- The condition on deletes, in the registry: the entry found for `id` is shared, or it is the one
asked for and the requester is attached to it. -/
def Registry.DeleteOk (r : Registry Fd) (fd : Fd) (id : ℤ) : Prop :=
  ∀ pre e post, Resolves id r.live pre e post →
    1 < e.refcount ∨ e.id = id ∧ AttachedTo r.holders id fd

/-- What the bookkeeping needs to know of a call: no allocation fails, and a delete meets the
condition. -/
def Registry.CallOk (r : Registry Fd) (a : Alloc) (c : Call Fd) : Prop :=
  a.ok ∧ ∀ fd id, c = .ioctl fd (.delete id) → r.DeleteOk fd id

namespace Bookkeeping

variable {r : Registry Fd} {pre post : List Header} {e : Header} {mode : FMode}

lemma ne_zero (hB : Bookkeeping r) (he : e ∈ r.live) : e.id ≠ 0 := by
  have hmem : e.id ∈ r.ids ++ r.free := List.mem_append_left _ (List.mem_map.mpr ⟨e, he, rfl⟩)
  have := (hB.ids.range e.id hmem).1
  omega

/-- Distinct buffers have distinct ids. -/
lemma id_ne (hB : Bookkeeping r) (hl : r.live = pre ++ e :: post) {c : Header}
    (hc : c ∈ pre ++ post) : e.id ≠ c.id := by
  have hnodup := hB.ids.live_nodup
  rw [Registry.ids, hl, List.map_append, List.map_cons] at hnodup
  have hnot := (List.nodup_cons.mp (List.nodup_middle.mp hnodup)).1
  rw [← List.map_append] at hnot
  intro hid
  exact hnot (List.mem_map.mpr ⟨c, hc, hid.symm⟩)

/-- An attached file finds its own buffer. -/
lemma resolves_own (hB : Bookkeeping r) {h : Holder} (hfd : r.holders fd = some h)
    (hid : h.bufId ≠ 0) (hres : Resolves h.bufId r.live pre e post) : e.id = h.bufId := by
  rcases hres.2 with ⟨he, -⟩ | ⟨-, hall⟩
  · exact he
  · obtain ⟨c, hc, hcid⟩ := List.mem_map.mp (hB.named fd h hfd hid)
    exact absurd hcid (hall c hc)

/-- A file with no buffer or with the buffer `e` is not attached to another one. -/
lemma apart (hB : Bookkeeping r) (hl : r.live = pre ++ e :: post) {c : Header}
    (hc : c ∈ pre ++ post) :
    c ∈ r.live ∧ ∀ x : Holder, x.bufId = 0 ∨ x.bufId = e.id → x.bufId ≠ c.id := by
  have hmem : c ∈ r.live := by
    rw [hl]
    rcases List.mem_append.mp hc with hpre | hpost
    · exact List.mem_append_left _ hpre
    · exact List.mem_append_right _ (List.mem_cons_of_mem e hpost)
  refine ⟨hmem, ?_⟩
  rintro x (hx | hx)
  · rw [hx]
    exact (hB.ne_zero hmem).symm
  · rw [hx]
    exact hB.id_ne hl hc

/-- The records of the other buffers, when a file moves between no buffer and the buffer `e`. -/
lemma others (hB : Bookkeeping r) (hl : r.live = pre ++ e :: post) {h : Option Holder}
    (hold : ∀ x ∈ r.holders fd, x.bufId = 0 ∨ x.bufId = e.id)
    (hnew : ∀ x ∈ h, x.bufId = 0 ∨ x.bufId = e.id) :
    ∀ c ∈ pre ++ post, c.Agrees (Function.update r.holders fd h) := by
  intro c hc
  obtain ⟨hmem, hne⟩ := hB.apart hl hc
  exact (hB.agrees c hmem).frame (fun x hx => hne x (hold x hx)) (fun x hx => hne x (hnew x hx))

/-- Opening and closing a file that is not attached. -/
lemma hold_unattached (hB : Bookkeeping r) {h : Option Holder}
    (hold : ∀ x ∈ r.holders fd, x.bufId = 0) (hnew : ∀ x ∈ h, x.bufId = 0) :
    Bookkeeping (r.hold fd h) := by
  refine ⟨hB.ids, ?_, ?_⟩
  · intro fd' x hx hid
    by_cases hne : fd' = fd
    · subst hne
      simp only [Registry.hold, Function.update_self] at hx
      exact absurd (hnew x hx) hid
    · simp only [Registry.hold, Function.update_of_ne hne] at hx
      exact hB.named fd' x hx hid
  · intro c hc
    refine (hB.agrees c hc).frame ?_ ?_
    · intro x hx
      rw [hold x hx]
      exact (hB.ne_zero hc).symm
    · intro x hx
      rw [hnew x hx]
      exact (hB.ne_zero hc).symm

/-- The last attached file gives up its buffer, which disappears. -/
lemma drop (hB : Bookkeeping r) (hl : r.live = pre ++ e :: post)
    (hfd : r.holders fd = some ⟨mode, e.id⟩) (hlast : e.refcount ≤ 1) {h : Option Holder}
    (hnew : ∀ x ∈ h, x.bufId = 0) :
    Bookkeeping
      { r with
        live := pre ++ post
        free := e.id :: r.free
        holders := Function.update r.holders fd h } := by
  have he : e ∈ r.live := by simp [hl]
  refine ⟨?_, ?_, ?_⟩
  · have hids := hB.ids
    rw [Registry.ids, hl, List.map_append, List.map_cons] at hids
    simpa [Registry.ids] using hids.giveBack
  · intro fd' x hx hid
    by_cases hne : fd' = fd
    · subst hne
      simp only [Function.update_self] at hx
      exact absurd (hnew x hx) hid
    · simp only [Function.update_of_ne hne] at hx
      obtain ⟨c, hc, hcid⟩ := List.mem_map.mp (hB.named fd' x hx hid)
      rw [hl] at hc
      simp only [List.mem_append, List.mem_cons] at hc
      have hce : c ≠ e := by
        rintro rfl
        exact hne ((hB.agrees c he).eq_of_last hlast (attachedTo_of_holders hfd) ⟨x, hx, hcid.symm⟩)
      refine List.mem_map.mpr ⟨c, ?_, hcid⟩
      simp only [List.mem_append]
      tauto
  · refine hB.others hl ?_ (fun x hx => Or.inl (hnew x hx))
    intro x hx
    rw [hfd] at hx
    cases hx
    exact Or.inr rfl

/-- A file creates a buffer. -/
lemma create (hB : Bookkeeping r) (hfd : r.holders fd = some ⟨mode, 0⟩) :
    Bookkeeping
      { newId := r.takeId.2.1
        free := r.takeId.2.2
        live := ⟨r.takeId.1, 1, mode.read, mode.write⟩ :: r.live
        holders := Function.update r.holders fd (some ⟨mode, r.takeId.1⟩) } := by
  have hids := hB.ids.takeId
  have hnew : r.takeId.1 ∉ r.ids := (List.nodup_cons.mp hids.live_nodup).1
  have hnone : ∀ fd', ¬ AttachedTo r.holders r.takeId.1 fd' := by
    rintro fd' ⟨x, hx, hxid⟩
    have hpos := (hids.range r.takeId.1 (by simp)).1
    apply hnew
    rw [← hxid]
    exact hB.named fd' x hx (by omega)
  refine ⟨hids, ?_, ?_⟩
  · intro fd' x hx hid
    by_cases hne : fd' = fd
    · subst hne
      simp only [Function.update_self] at hx
      cases hx
      exact List.mem_cons_self
    · simp only [Function.update_of_ne hne] at hx
      exact List.mem_cons_of_mem _ (hB.named fd' x hx hid)
  · intro c hc
    rcases List.mem_cons.mp hc with rfl | hc
    · exact Header.Agrees.fresh hnone
    · refine (hB.agrees c hc).frame ?_ ?_
      · intro x hx
        rw [hfd] at hx
        cases hx
        exact (hB.ne_zero hc).symm
      · intro x hx
        cases hx
        intro hcid
        exact hnew (List.mem_map.mpr ⟨c, hc, hcid.symm⟩)

/-- A buffer's record is replaced, with one file moving. -/
lemma replace (hB : Bookkeeping r) (hl : r.live = pre ++ e :: post) {e' : Header}
    (hid : e'.id = e.id) {h : Option Holder}
    (hold : ∀ x ∈ r.holders fd, x.bufId = 0 ∨ x.bufId = e.id)
    (hnew : ∀ x ∈ h, x.bufId = 0 ∨ x.bufId = e.id)
    (hA : e'.Agrees (Function.update r.holders fd h)) :
    Bookkeeping
      { r with
        live := pre ++ e' :: post
        holders := Function.update r.holders fd h } := by
  have hids : (pre ++ e' :: post).map Header.id = r.ids := by
    simp [Registry.ids, hl, hid]
  refine ⟨?_, ?_, ?_⟩
  · unfold Registry.ids
    rw [hids]
    exact hB.ids
  · intro fd' x hx hxid
    unfold Registry.ids
    rw [hids]
    by_cases hne : fd' = fd
    · subst hne
      simp only [Function.update_self] at hx
      rcases hnew x hx with h0 | he
      · exact absurd h0 hxid
      · rw [he]
        exact List.mem_map.mpr ⟨e, by simp [hl], rfl⟩
    · simp only [Function.update_of_ne hne] at hx
      exact hB.named fd' x hx hxid
  · intro c hc
    simp only [List.mem_append, List.mem_cons] at hc
    rcases hc with hc | rfl | hc
    · exact hB.others hl hold hnew c (List.mem_append_left _ hc)
    · exact hA
    · exact hB.others hl hold hnew c (List.mem_append_right _ hc)

end Bookkeeping

/-- A file that has left is attached to nothing. -/
lemma Leaves.unattached {mode : FMode} {c : Call Fd} {clear : Bool} {h : Option Holder}
    (hleaves : Leaves fd mode c clear h) : ∀ x ∈ h, x.bufId = 0 := by
  cases hleaves with
  | release => simp
  | detach =>
      intro x hx
      cases hx
      rfl

namespace Bookkeeping

/-- A file without a buffer, or without a list to look in, is closed. -/
lemma closed (hB : Bookkeeping r) {x : Holder} (hfd : r.holders fd = some x)
    (hcase : x.bufId = 0 ∨ r.live = []) : Bookkeeping (r.hold fd none) := by
  refine hB.hold_unattached ?_ (by simp)
  intro y hy
  rw [hfd] at hy
  obtain rfl := Option.some.inj hy
  rcases hcase with hzero | hnil
  · exact hzero
  · by_contra hid
    have hmem := hB.named fd x hfd hid
    simp [Registry.ids, hnil] at hmem

/-- A file attaches to a buffer whose accesses it asks for are free. -/
lemma attached (hB : Bookkeeping r) (hcard : Fintype.card Fd < 2 ^ 32)
    (hfd : r.holders fd = some ⟨mode, 0⟩) (hl : r.live = pre ++ e :: post)
    (hread : ¬ (mode.read = true ∧ e.readRef = true))
    (hwrite : ¬ (mode.write = true ∧ e.writeRef = true)) :
    Bookkeeping
      { r with
        live := pre ++ e.attach mode :: post
        holders := Function.update r.holders fd (some ⟨mode, e.id⟩) } := by
  have he : e ∈ r.live := by simp [hl]
  have hagrees := (hB.agrees e he).attach hcard (hB.ne_zero he) hfd fun acc => by
    cases acc
    · exact hread
    · exact hwrite
  refine hB.replace hl (e.attach_id mode) ?_ ?_ hagrees
  · intro x hx
    rw [hfd] at hx
    obtain rfl := Option.some.inj hx
    exact Or.inl rfl
  · intro x hx
    obtain rfl := Option.some.inj hx
    exact Or.inr rfl

/-- A file leaves a buffer that others still use. -/
lemma stayed (hB : Bookkeeping r) (hcard : Fintype.card Fd < 2 ^ 32) {clear : Bool}
    {h : Option Holder} (hfd : r.holders fd = some ⟨mode, e.id⟩) (hl : r.live = pre ++ e :: post)
    (hzero : ∀ x ∈ h, x.bufId = 0) (hstay : (e.leave mode clear).refcount ≠ 0) :
    Bookkeeping
      { r with
        live := pre ++ e.leave mode clear :: post
        holders := Function.update r.holders fd h } := by
  have he : e ∈ r.live := by simp [hl]
  have hagrees := (hB.agrees e he).leave hcard hfd
    (fun x hx => by rw [hzero x hx]; exact (hB.ne_zero he).symm) hstay
  refine hB.replace hl (e.leave_id mode clear) ?_ (fun x hx => Or.inl (hzero x hx)) hagrees
  intro x hx
  rw [hfd] at hx
  obtain rfl := Option.some.inj hx
  exact Or.inr rfl

end Bookkeeping

/-- **Every call that meets its condition keeps the books.** -/
theorem RegStep.bookkeeping {a : Alloc} {r r' : Registry Fd} {c : Call Fd}
    (hcard : Fintype.card Fd < 2 ^ 32) (hstep : RegStep a r c r') (hok : r.CallOk a c)
    (hB : Bookkeeping r) : Bookkeeping r' := by
  obtain ⟨⟨-, -, -, hnode, hidnode⟩, hdelete⟩ := hok
  cases hstep with
  | idle => exact hB
  | opened hfd =>
      apply hB.hold_unattached
      · simp [hfd]
      · intro x hx
        cases hx
        rfl
  | closed hfd hcase => exact hB.closed hfd hcase
  | created hfd => exact hB.create hfd
  | leaked _ hfail =>
      rw [hnode] at hfail
      cases hfail
  | attached hfd hres hread hwrite => exact hB.attached hcard hfd hres.1 hread hwrite
  | stayed hleaves hfd hid hres hcount =>
      obtain rfl := hB.resolves_own hfd hid hres
      exact hB.stayed hcard hfd hres.1 hleaves.unattached
        (hcount.resolve_right (by simp [hidnode]))
  | @freed fd c mode clear h id pre post e hleaves hfd hid hres hcount =>
      have he : e ∈ r.live := by simp [hres.1]
      obtain rfl := hB.resolves_own hfd hid hres
      rw [(hB.agrees e he).leave_refcount hcard] at hcount
      exact hB.drop hres.1 hfd (by omega) hleaves.unattached
  | @deleted fd mode own id pre post e hfd hres hcount =>
      rcases hdelete fd id rfl pre e post hres with hshared | ⟨rfl, x, hx, hown⟩
      · exact absurd hshared (not_lt.mpr hcount)
      · rw [hfd] at hx
        cases hx
        subst hown
        refine hB.drop hres.1 hfd hcount ?_
        intro x hx
        cases hx
        rfl
  | deleteFailed _ hfail =>
      rw [hidnode] at hfail
      cases hfail

end Comp3301.Crypto
