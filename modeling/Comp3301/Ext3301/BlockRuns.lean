import Comp3301.Ext3301.NewBlocksSpec
import Comp3301.Ext3301.FreeBlocks
import Comp3301.Lib.Refine
import Comp3301.Lib.System

/-!
# Runs of the block allocator

Any sequence of allocations, frees and operations on the reservation windows, for any inodes.

* `BlockFs.run_sound`: no run hits a `BUG`, and after it all counts are exact, no system block is
  free and the reservation windows are disjoint, whatever is freed, as long as no range reaches over
  both ends of an inode table.
* `Held`: the blocks that each inode has been given and has not freed since.
* `BlockFs.ledger`: in a run where every inode frees only what it holds, no block is ever held
  twice, free and held blocks add up, and an inode is charged for the blocks it holds.
* `BlockFs.ledger_error`: with readable bitmaps such a run reports no error.
-/

namespace Comp3301.Ext3301

open Comp3301.Lib Reservations

/-- The operations. -/
inductive BallocOp where
  | newBlocks (env : BallocEnv) (ino goal count : ℕ)
  | freeBlocks (env : BallocEnv) (ino block count : ℕ)
  | initBlockAllocInfo (ino : ℕ) (reservation : Bool)
  | discardReservation (ino : ℕ)
  | clearInode (ino : ℕ)
  | setRsvSize (ino : ℕ) (reservation : Bool) (size : ℕ)

namespace BallocOp

/-- What an operation answers: the blocks or the error of an allocation. -/
abbrev Answer := Option (Except AllocError (ℕ × ℕ))

/-- A step; `none` is a `BUG`. The block allocation info of an inode is made only once. -/
def apply (rb : RbTree) (sb : BallocSb) (op : BallocOp) (fs : BlockFs) :
    Option (Answer × BlockFs) :=
  match op with
  | newBlocks env ino goal count =>
      (ext2NewBlocks rb env sb fs ino goal count).map fun (r, fs) => (some r, fs)
  | freeBlocks env ino block count =>
      (ext2FreeBlocks env sb fs ino block count).map fun fs => (none, fs)
  | initBlockAllocInfo ino reservation =>
      some (none, if fs.rsv.allocInfo ino then fs
        else { fs with rsv := fs.rsv.ext2InitBlockAllocInfo ino reservation })
  | discardReservation ino => some (none, { fs with rsv := fs.rsv.ext2DiscardReservation rb ino })
  | clearInode ino => some (none, { fs with rsv := fs.rsv.ext2ClearInode rb ino })
  | setRsvSize ino reservation size =>
      some (none, { fs with rsv := fs.rsv.setRsvSize ino reservation size })

/-- The inode of an operation. -/
def ino : BallocOp → ℕ
  | newBlocks _ ino _ _ => ino
  | freeBlocks _ ino _ _ => ino
  | initBlockAllocInfo ino _ => ino
  | discardReservation ino => ino
  | clearInode ino => ino
  | setRsvSize ino _ _ => ino

/-- Inodes are not numbered `0`, at least one block is asked for or freed, and no range that is
freed reaches over both ends of an inode table. -/
def Safe (sb : BallocSb) (fs : BlockFs) (op : BallocOp) : Prop :=
  op.ino ≠ rsvWindowHead ∧
    match op with
    | newBlocks _ _ _ count => 0 < count
    | freeBlocks _ _ block count =>
        0 < count ∧ ∀ g < sb.groupsCount, ¬ Engulfs sb (fs.desc g) block count
    | _ => True

end BallocOp

variable {rb : RbTree} {sb : BallocSb} {fs fs' fs₀ : BlockFs} {op : BallocOp}

/-- An operation on the windows alone. -/
lemma BlockFs.WF.setRsv (h : fs.WF sb) {w : Reservations} (hw : w.WF) :
    ({ fs with rsv := w } : BlockFs).WF sb :=
  ⟨SameLayout.mounted (show SameLayout fs _ from fun _ => ⟨rfl, rfl, rfl⟩) h.mounted, hw,
    h.groupCount, h.counter, h.system, h.padding⟩

/-- The operations that only touch the windows. -/
structure OnlyRsv (fs fs' : BlockFs) : Prop where
  bitmap : fs'.bitmap = fs.bitmap
  desc : fs'.desc = fs.desc
  quota : fs'.quota = fs.quota
  error : fs'.error = fs.error

/-- **What a step does.** -/
lemma BallocOp.apply_cases (hwf : fs.WF sb) (rb : RbTree) (hsafe : op.Safe sb fs) :
    ∃ r fs', op.apply rb sb fs = some (r, fs') ∧ fs'.WF sb ∧ SameLayout fs fs' ∧
      match op with
      | .newBlocks env ino _ count =>
          ∃ r', r = some r' ∧ NewBlocksSpec env sb ino count fs r' fs'
      | .freeBlocks env ino block count =>
          r = none ∧ ∃ stop freed, FreeBlocksSpec env sb ino block count fs stop freed fs'
      | _ => r = none ∧ OnlyRsv fs fs' := by
  obtain ⟨hino, hsafe⟩ := hsafe
  cases op with
  | newBlocks env ino goal count =>
      have hino : ino ≠ rsvWindowHead := hino
      obtain ⟨r, fs', hcall, hspec⟩ := ext2NewBlocks_spec hwf rb env hino hsafe goal
      refine ⟨some r, fs', ?_, hspec.wf, hspec.layout, r, rfl, hspec⟩
      rw [BallocOp.apply, hcall, Option.map_some]
  | freeBlocks env ino block count =>
      obtain ⟨fs', stop, freed, hcall, hspec⟩ :=
        ext2FreeBlocks_spec hwf env ino hsafe.1 hsafe.2
      refine ⟨none, fs', ?_, hspec.wf, hspec.layout, rfl, stop, freed, hspec⟩
      rw [BallocOp.apply, hcall, Option.map_some]
  | initBlockAllocInfo ino reservation =>
      rw [BallocOp.apply]
      split_ifs with hinfo
      · exact ⟨none, fs, rfl, hwf, SameLayout.refl fs, rfl, rfl, rfl, rfl, rfl⟩
      · exact ⟨none, _, rfl, hwf.setRsv (hwf.rsv.ext2InitBlockAllocInfo hino
          (Bool.not_eq_true _ ▸ hinfo) reservation), fun _ => ⟨rfl, rfl, rfl⟩, rfl, rfl, rfl, rfl,
          rfl⟩
  | discardReservation ino =>
      exact ⟨none, _, rfl, hwf.setRsv (hwf.rsv.ext2DiscardReservation rb hino).1,
        fun _ => ⟨rfl, rfl, rfl⟩, rfl, rfl, rfl, rfl, rfl⟩
  | clearInode ino =>
      exact ⟨none, _, rfl, hwf.setRsv (hwf.rsv.ext2ClearInode rb hino), fun _ => ⟨rfl, rfl, rfl⟩,
        rfl, rfl, rfl, rfl, rfl⟩
  | setRsvSize ino reservation size =>
      exact ⟨none, _, rfl, hwf.setRsv (hwf.rsv.setRsvSize hino reservation size),
        fun _ => ⟨rfl, rfl, rfl⟩, rfl, rfl, rfl, rfl, rfl⟩

lemma BallocOp.Safe.of_layout (h : op.Safe sb fs) (hlayout : SameLayout fs fs') :
    op.Safe sb fs' := by
  obtain ⟨hino, h⟩ := h
  refine ⟨hino, ?_⟩
  cases op with
  | freeBlocks env ino block count =>
      refine ⟨h.1, fun g hg => ?_⟩
      rw [Engulfs, (hlayout g).2.2]
      exact h.2 g hg
  | newBlocks env ino goal count => exact h
  | initBlockAllocInfo ino reservation => trivial
  | discardReservation ino => trivial
  | clearInode ino => trivial
  | setRsvSize ino reservation size => trivial

/-- **Every run of safe operations keeps the file system sound**, and hits no `BUG`. -/
theorem BlockFs.run_sound (hwf : fs.WF sb) (rb : RbTree) {ops : List BallocOp}
    (hops : ∀ op ∈ ops, op.Safe sb fs) :
    ∃ rs fs', stepAll (BallocOp.apply rb sb) ops fs = some (rs, fs') ∧ fs'.WF sb := by
  have hstep : ∀ (op : BallocOp) (fs₁ : BlockFs), op.Safe sb fs → fs₁.WF sb ∧ SameLayout fs fs₁ →
      ∃ r fs₂, op.apply rb sb fs₁ = some (r, fs₂) ∧ fs₂.WF sb ∧ SameLayout fs fs₂ := by
    rintro op fs₁ hsafe ⟨hwf₁, hlayout⟩
    obtain ⟨r, fs₂, hstep, hwf₂, hlayout₂, -⟩ :=
      BallocOp.apply_cases hwf₁ rb (hsafe.of_layout hlayout)
    exact ⟨r, fs₂, hstep, hwf₂, hlayout.trans hlayout₂⟩
  obtain ⟨rs, fs', hrun, hwf', -⟩ := stepAll_total hstep hops ⟨hwf, SameLayout.refl fs⟩
  exact ⟨rs, fs', hrun, hwf'⟩

/-- Two blocks are asked for, and the block behind the inode table is freed. -/
def takeAndGive : List BallocOp :=
  [.initBlockAllocInfo 12 true, .newBlocks BallocEnv.calm 12 4 2, .freeBlocks BallocEnv.calm 12 4 1]

/-- In a small file system. -/
theorem BlockFs.run_sound_small :
    ∃ rs fs', stepAll (BallocOp.apply RbTree.spine smallSb) takeAndGive smallFs = some (rs, fs') ∧
      fs'.WF smallSb := by
  refine BlockFs.run_sound smallFs_wf RbTree.spine fun op hop => ?_
  rcases List.mem_cons.mp hop with rfl | hop
  · exact ⟨by decide, trivial⟩
  · rcases List.mem_cons.mp hop with rfl | hop
    · exact ⟨by decide, by decide⟩
    · rw [List.mem_singleton.mp hop]
      refine ⟨by decide, by decide, fun g _ hengulfs => ?_⟩
      exact absurd (show 4 < 3 from hengulfs.1) (by decide)

/-! ## Who holds a block -/

/-- The blocks that inodes hold, as pairs of an inode and a block. -/
abbrev Held := Finset (ℕ × ℕ)

namespace BallocOp

/-- Who holds what after an operation with its answer: the blocks of an allocation are held, and
those that a call has freed no longer. -/
def hold (sb : BallocSb) (op : BallocOp) (r : Answer) (fs' : BlockFs) (held : Held) : Held :=
  match op, r with
  | newBlocks _ ino _ _, some (.ok (ret, num)) =>
      held ∪ (Finset.Ico ret (ret + num)).image fun x => (ino, x)
  | freeBlocks _ ino block count, _ =>
      held.filter fun p =>
        ¬ (p.1 = ino ∧ block ≤ p.2 ∧ p.2 < block + count ∧ fs'.inUse sb p.2 = false)
  | _, _ => held

/-- A step, with who holds what. -/
def Next (rb : RbTree) (sb : BallocSb) (s : BlockFs × Held) (op : BallocOp) (s' : BlockFs × Held) :
    Prop :=
  ∃ r, op.apply rb sb s.1 = some (r, s'.1) ∧ s'.2 = op.hold sb r s'.1 s.2

/-- An inode frees only what it holds. -/
def Promise (s : BlockFs × Held) (op : BallocOp) : Prop :=
  op.ino ≠ rsvWindowHead ∧
    match op with
    | newBlocks _ _ _ count => 0 < count
    | freeBlocks _ ino block count =>
        0 < count ∧ ∀ x, block ≤ x → x < block + count → (ino, x) ∈ s.2
    | _ => True

/-- The bitmaps can be read. -/
def Reads : BallocOp → Prop
  | newBlocks env _ _ _ => ∀ g, env.readErr g = false
  | freeBlocks env _ _ _ => ∀ g, env.readErr g = false
  | _ => True

end BallocOp

/-- The books are in order, with `fs₀` at the start. -/
structure Ledger (sb : BallocSb) (fs₀ : BlockFs) (s : BlockFs × Held) : Prop where
  wf : s.1.WF sb
  layout : SameLayout fs₀ s.1
  held : ∀ p ∈ s.2, (sb.sFirstDataBlock ≤ p.2 ∧ p.2 < sb.sBlocksCount) ∧
    s.1.inUse sb p.2 = true ∧ ∀ g < sb.groupsCount, ¬ SystemBlock sb (fs₀.desc g) p.2
  unique : ∀ p ∈ s.2, ∀ q ∈ s.2, p.2 = q.2 → p = q
  total : s.1.freeBlocks sb + s.2.card = fs₀.freeBlocks sb
  quota : ∀ i, s.1.quota i = fs₀.quota i + (s.2.filter fun p => p.1 = i).card

namespace Ledger

variable {s s' : BlockFs × Held} {ino a n : ℕ} {H : Held}

/-- At the start nobody holds anything. -/
lemma init (hwf : fs.WF sb) : Ledger sb fs (fs, ∅) := by
  refine ⟨hwf, SameLayout.refl fs, fun p hp => absurd hp (Finset.notMem_empty p),
    fun p hp => absurd hp (Finset.notMem_empty p), rfl, fun i => ?_⟩
  rw [Finset.filter_empty, Finset.card_empty, Nat.cast_zero, add_zero]

/-- An inode holds `n` more blocks. -/
lemma card_union (hout : ∀ x, a ≤ x → x < a + n → (ino, x) ∉ H) :
    (H ∪ (Finset.Ico a (a + n)).image fun x => (ino, x)).card = H.card + n ∧
      ∀ i, ((H ∪ (Finset.Ico a (a + n)).image fun x => (ino, x)).filter fun p => p.1 = i).card =
        (H.filter fun p => p.1 = i).card + if i = ino then n else 0 := by
  have hinj : Function.Injective fun x : ℕ => (ino, x) := fun x y h => (Prod.mk.inj h).2
  have hcard : ((Finset.Ico a (a + n)).image fun x => (ino, x)).card = n := by
    rw [Finset.card_image_of_injective _ hinj, Nat.card_Ico, Nat.add_sub_cancel_left]
  have hdisj : Disjoint H ((Finset.Ico a (a + n)).image fun x => (ino, x)) := by
    rw [Finset.disjoint_right]
    intro p hp
    obtain ⟨x, hx, rfl⟩ := Finset.mem_image.mp hp
    obtain ⟨hlow, hhigh⟩ := Finset.mem_Ico.mp hx
    exact hout x hlow hhigh
  refine ⟨by rw [Finset.card_union_of_disjoint hdisj, hcard], fun i => ?_⟩
  rw [Finset.filter_union,
    Finset.card_union_of_disjoint (Finset.disjoint_filter_filter hdisj)]
  congr 1
  split_ifs with hi
  · rw [Finset.filter_true_of_mem, hcard]
    intro p hp
    obtain ⟨x, -, rfl⟩ := Finset.mem_image.mp hp
    exact hi.symm
  · rw [Finset.filter_false_of_mem, Finset.card_empty]
    intro p hp
    obtain ⟨x, -, rfl⟩ := Finset.mem_image.mp hp
    exact fun h => hi h.symm

/-- An inode that frees only what it holds frees no system block. -/
lemma safe (h : Ledger sb fs₀ s) (hpromise : op.Promise s) : op.Safe sb s.1 := by
  obtain ⟨hino, hpromise⟩ := hpromise
  refine ⟨hino, ?_⟩
  cases op with
  | freeBlocks env ino block count =>
      obtain ⟨hcount, hheld⟩ := hpromise
      refine ⟨hcount, fun g hg hengulfs => ?_⟩
      obtain ⟨x, hsys, hlow, hhigh⟩ := (inSystemZone_or_engulfs_iff h.wf.mounted.itb hcount
        (s.1.desc g) block).mp (Or.inr hengulfs)
      exact (h.held _ (hheld x hlow hhigh)).2.2 g hg ((h.layout.systemBlock_iff g x).mp hsys)
  | newBlocks env ino goal count => exact hpromise
  | initBlockAllocInfo ino reservation => trivial
  | discardReservation ino => trivial
  | clearInode ino => trivial
  | setRsvSize ino reservation size => trivial

/-- **Blocks that are allocated are held by nobody.** -/
lemma newBlocks (h : Ledger sb fs₀ s) {count ret num : ℕ} (hwf : fs'.WF sb)
    (hlayout : SameLayout s.1 fs') (hquota : fs'.quota =
      Function.update s.1.quota ino (s.1.quota ino + num))
    (halloc : Allocated sb count ret num s.1 fs') :
    Ledger sb fs₀ (fs', s.2 ∪ (Finset.Ico ret (ret + num)).image fun x => (ino, x)) := by
  have hout : ∀ i x, ret ≤ x → x < ret + num → (i, x) ∉ s.2 := by
    intro i x hlow hhigh hmem
    have huse := (h.held _ hmem).2.1
    rw [halloc.free x hlow hhigh] at huse
    cases huse
  obtain ⟨hcard, hfilter⟩ := card_union (hout ino)
  refine ⟨hwf, h.layout.trans hlayout, fun p hp => ?_, fun p hp q hq hpq => ?_, ?_, fun i => ?_⟩
  · rcases Finset.mem_union.mp hp with hp | hp
    · obtain ⟨hrange, huse, hsys⟩ := h.held p hp
      exact ⟨hrange, (halloc.inUse p.2 hrange.1).mpr (Or.inl huse), hsys⟩
    · obtain ⟨x, hx, rfl⟩ := Finset.mem_image.mp hp
      obtain ⟨hlow, hhigh⟩ := Finset.mem_Ico.mp hx
      have hfirst := halloc.range.1.trans hlow
      refine ⟨⟨hfirst, hhigh.trans_le halloc.range.2⟩,
        (halloc.inUse x hfirst).mpr (Or.inr ⟨hlow, hhigh⟩), fun g hg hsys => ?_⟩
      exact halloc.system x hlow hhigh g hg ((h.layout.systemBlock_iff g x).mpr hsys)
  · rcases Finset.mem_union.mp hp with hp | hp
    · rcases Finset.mem_union.mp hq with hq | hq
      · exact h.unique p hp q hq hpq
      · obtain ⟨x, hx, rfl⟩ := Finset.mem_image.mp hq
        obtain ⟨hlow, hhigh⟩ := Finset.mem_Ico.mp hx
        obtain ⟨i, y⟩ := p
        obtain rfl : y = x := hpq
        exact absurd hp (hout i y hlow hhigh)
    · obtain ⟨x, hx, rfl⟩ := Finset.mem_image.mp hp
      obtain ⟨hlow, hhigh⟩ := Finset.mem_Ico.mp hx
      rcases Finset.mem_union.mp hq with hq | hq
      · obtain ⟨i, y⟩ := q
        obtain rfl : x = y := hpq
        exact absurd hq (hout i x hlow hhigh)
      · obtain ⟨y, -, rfl⟩ := Finset.mem_image.mp hq
        obtain rfl : x = y := hpq
        rfl
  · simp only [hcard]
    have htotal := h.total
    have hfree := halloc.freeBlocks
    omega
  · simp only [hfilter, hquota, Function.update_apply]
    split_ifs with hi
    · subst hi
      rw [h.quota, Nat.cast_add, add_assoc]
    · rw [h.quota, Nat.add_zero]

/-- **Blocks that are freed are held no longer.** -/
lemma freeBlocks (h : Ledger sb fs₀ s) {env : BallocEnv} {block count stop freed : ℕ}
    (hheld : ∀ x, block ≤ x → x < block + count → (ino, x) ∈ s.2)
    (hspec : FreeBlocksSpec env sb ino block count s.1 stop freed fs') :
    Ledger sb fs₀ (fs', s.2.filter fun p =>
      ¬ (p.1 = ino ∧ block ≤ p.2 ∧ p.2 < block + count ∧ fs'.inUse sb p.2 = false)) := by
  obtain ⟨hle, hstop⟩ := hspec.range
  have hgone : ∀ x, block ≤ x → x < stop → fs'.inUse sb x = false := by
    intro x hlow hhigh
    have hrange := (h.held _ (hheld x hlow (by omega))).1
    rw [← Bool.not_eq_true, hspec.inUse x hrange.1]
    exact fun huse => huse.2 ⟨hlow, hhigh⟩
  have hstays : ∀ p ∈ s.2, fs'.inUse sb p.2 = false → block ≤ p.2 ∧ p.2 < stop := by
    intro p hp hclear
    obtain ⟨hrange, huse, -⟩ := h.held p hp
    rw [← Bool.not_eq_true, hspec.inUse p.2 hrange.1, not_and, not_not] at hclear
    exact hclear huse
  have hfreed : freed = stop - block :=
    hspec.all fun x hlow hhigh => (h.held _ (hheld x hlow (by omega))).2.1
  generalize hH : (s.2.filter fun p =>
    ¬ (p.1 = ino ∧ block ≤ p.2 ∧ p.2 < block + count ∧ fs'.inUse sb p.2 = false)) = H
  have hmem : ∀ p, p ∈ H ↔ p ∈ s.2 ∧
      ¬ (p.1 = ino ∧ block ≤ p.2 ∧ p.2 < block + count ∧ fs'.inUse sb p.2 = false) := by
    intro p
    rw [← hH, Finset.mem_filter]
  -- what was held is what is held still, with the blocks that are freed
  have hsplit : s.2 = H ∪ (Finset.Ico block (block + freed)).image fun x => (ino, x) := by
    ext p
    rw [Finset.mem_union, hmem, Finset.mem_image]
    constructor
    · intro hp
      by_cases hfree : p.1 = ino ∧ block ≤ p.2 ∧ p.2 < block + count ∧ fs'.inUse sb p.2 = false
      · obtain ⟨hlow, hhigh⟩ := hstays p hp hfree.2.2.2
        refine Or.inr ⟨p.2, Finset.mem_Ico.mpr ⟨hlow, by omega⟩, ?_⟩
        rw [← hfree.1]
      · exact Or.inl ⟨hp, hfree⟩
    · rintro (⟨hp, -⟩ | ⟨x, hx, rfl⟩)
      · exact hp
      · obtain ⟨hlow, hhigh⟩ := Finset.mem_Ico.mp hx
        exact hheld x hlow (by omega)
  have hout : ∀ x, block ≤ x → x < block + freed → (ino, x) ∉ H := by
    intro x hlow hhigh hp
    exact ((hmem _).mp hp).2 ⟨rfl, hlow, by omega, hgone x hlow (by omega)⟩
  obtain ⟨hcard, hfilter⟩ := card_union hout
  rw [← hsplit] at hcard hfilter
  refine ⟨hspec.wf, h.layout.trans hspec.layout, fun p hp => ?_, fun p hp q hq =>
    h.unique p ((hmem p).mp hp).1 q ((hmem q).mp hq).1, ?_, fun i => ?_⟩
  · obtain ⟨hp, hkeep⟩ := (hmem p).mp hp
    obtain ⟨hrange, huse, hsys⟩ := h.held p hp
    refine ⟨hrange, ?_, hsys⟩
    by_contra hclear
    rw [Bool.not_eq_true] at hclear
    obtain ⟨hlow, hhigh⟩ := hstays p hp hclear
    -- the block is one of those that the inode holds and frees
    have heq := h.unique p hp (ino, p.2) (hheld p.2 hlow (by omega)) rfl
    exact hkeep ⟨congrArg Prod.fst heq, hlow, by omega, hclear⟩
  · have htotal := h.total
    have hfree := hspec.freeBlocks
    simp only
    omega
  · simp only [hspec.quota, Function.update_apply]
    have hi' := hfilter i
    split_ifs at hi' ⊢ with hi
    · subst hi
      rw [h.quota, hi', Nat.cast_add]
      ring
    · rw [h.quota, hi', Nat.add_zero]

/-- Freeing what is held reports no error. -/
lemma freeBlocks_error (h : Ledger sb fs₀ s) {env : BallocEnv} {block count stop freed : ℕ}
    (hcount : 0 < count) (hheld : ∀ x, block ≤ x → x < block + count → (ino, x) ∈ s.2)
    (hread : ∀ g, env.readErr g = false)
    (hspec : FreeBlocksSpec env sb ino block count s.1 stop freed fs') :
    fs'.error = s.1.error := by
  have hfirst := (h.held _ (hheld block (le_refl _) (Nat.lt_add_of_pos_right hcount))).1
  have hlast := (h.held _ (hheld (block + count - 1) (by omega) (by omega))).1
  rcases hspec.error with heq | hout | ⟨g, hg⟩ | ⟨g, hg, x, hsys, hlow, hhigh⟩ |
    ⟨x, hlow, hhigh, hclear⟩
  · exact heq
  · simp only at hfirst hlast
    omega
  · rw [hread g] at hg
    cases hg
  · exact absurd ((h.layout.systemBlock_iff g x).mp hsys)
      ((h.held _ (hheld x hlow hhigh)).2.2 g hg)
  · have huse := (h.held _ (hheld x hlow hhigh)).2.1
    rw [hclear] at huse
    cases huse

/-- An operation on the windows does not touch the books. -/
lemma onlyRsv (h : Ledger sb fs₀ s) (hwf : fs'.WF sb) (hlayout : SameLayout s.1 fs')
    (honly : OnlyRsv s.1 fs') : Ledger sb fs₀ (fs', s.2) := by
  refine ⟨hwf, h.layout.trans hlayout, fun p hp => ?_, h.unique, ?_, fun i => ?_⟩
  · rw [BlockFs.inUse, honly.bitmap]
    exact h.held p hp
  · rw [BlockFs.freeBlocks, honly.bitmap]
    exact h.total
  · rw [honly.quota]
    exact h.quota i

/-- **A step keeps the books in order**; with readable bitmaps it reports no error. -/
lemma step (h : Ledger sb fs₀ s) (rb : RbTree) (hpromise : op.Promise s) :
    ∃ r s', op.apply rb sb s.1 = some (r, s'.1) ∧ s'.2 = op.hold sb r s'.1 s.2 ∧
      Ledger sb fs₀ s' ∧ (op.Reads → s'.1.error = s.1.error) := by
  obtain ⟨r, fs', happly, hwf, hlayout, hcases⟩ := BallocOp.apply_cases h.wf rb (h.safe hpromise)
  refine ⟨r, (fs', op.hold sb r fs' s.2), happly, rfl, ?_⟩
  cases op with
  | newBlocks env ino goal count =>
      obtain ⟨r', rfl, hspec⟩ := hcases
      have herror : BallocOp.Reads (.newBlocks env ino goal count) → fs'.error = s.1.error := by
        intro hread
        rcases hspec.error with heq | ⟨g, herr⟩
        · exact heq
        · rw [hread g] at herr
          cases herr
      refine ⟨?_, herror⟩
      rcases r' with e | ⟨ret, num⟩
      · obtain ⟨hbitmap, -, -⟩ := hspec.failed e rfl
        have hquota := hspec.quota
        rw [taken, Nat.cast_zero, add_zero, Function.update_eq_self] at hquota
        refine ⟨hwf, h.layout.trans hlayout, fun p hp => ?_, h.unique, ?_, fun i => ?_⟩
        · rw [BlockFs.inUse, hbitmap]
          exact h.held p hp
        · rw [BlockFs.freeBlocks, hbitmap]
          exact h.total
        · rw [hquota]
          exact h.quota i
      · exact h.newBlocks hwf hlayout hspec.quota (hspec.ok ret num rfl).1
  | freeBlocks env ino block count =>
      obtain ⟨rfl, stop, freed, hspec⟩ := hcases
      have hheld : ∀ x, block ≤ x → x < block + count → (ino, x) ∈ s.2 := hpromise.2.2
      exact ⟨h.freeBlocks hheld hspec, fun hread =>
        h.freeBlocks_error hpromise.2.1 hheld hread hspec⟩
  | initBlockAllocInfo ino reservation =>
      exact ⟨h.onlyRsv hwf hlayout hcases.2, fun _ => hcases.2.error⟩
  | discardReservation ino =>
      exact ⟨h.onlyRsv hwf hlayout hcases.2, fun _ => hcases.2.error⟩
  | clearInode ino =>
      exact ⟨h.onlyRsv hwf hlayout hcases.2, fun _ => hcases.2.error⟩
  | setRsvSize ino reservation size =>
      exact ⟨h.onlyRsv hwf hlayout hcases.2, fun _ => hcases.2.error⟩

/-- The step that is taken keeps the books in order. -/
lemma next (h : Ledger sb fs₀ s) (hpromise : op.Promise s) (hnext : op.Next rb sb s s') :
    Ledger sb fs₀ s' ∧ (op.Reads → s'.1.error = s.1.error) := by
  obtain ⟨r, happly, hheld⟩ := hnext
  obtain ⟨r', t, happly', hheld', hledger, herror⟩ := h.step rb hpromise
  rw [happly, Option.some_inj, Prod.mk.injEq] at happly'
  obtain ⟨rfl, hfs⟩ := happly'
  rw [← hfs, ← hheld] at hheld'
  obtain rfl : t = s' := Prod.ext hfs.symm hheld'
  exact ⟨hledger, herror⟩

end Ledger

/-- **The books are always in order**: in a run where every inode frees only what it holds, no block
is held twice, no system block is held, free and held blocks add up, an inode is charged for what
it holds, and the next call hits no `BUG`. -/
theorem BlockFs.ledger (hwf : fs.WF sb) (rb : RbTree) {s : BlockFs × Held}
    (hs : Reach (fs, ∅) (fun s (op : BallocOp) s' => op.Next rb sb s s')
      (fun s op => op.Promise s) s) :
    Ledger sb fs s ∧ ∀ op : BallocOp, op.Promise s → ∃ s', op.Next rb sb s s' := by
  have hledger : Ledger sb fs s := by
    refine hs.invariant (Ledger.init hwf) ?_
    intro s op s' _ h hpromise hnext
    exact (h.next hpromise hnext).1
  refine ⟨hledger, fun op hpromise => ?_⟩
  obtain ⟨r, s', happly, hheld, -⟩ := hledger.step rb hpromise
  exact ⟨s', r, happly, hheld⟩

/-- A first allocation by an inode that holds nothing, in a small file system. -/
def takeTwo : BallocOp := .newBlocks BallocEnv.calm 12 4 2

lemma promise_takeTwo : takeTwo.Promise (smallFs, ∅) := ⟨by decide, Nat.zero_lt_two⟩

/-- The state behind it. -/
lemma exists_takeTwo : ∃ s, takeTwo.Next RbTree.spine smallSb (smallFs, ∅) s := by
  obtain ⟨r, s, happly, hheld, -⟩ := (Ledger.init smallFs_wf).step RbTree.spine promise_takeTwo
  exact ⟨s, r, happly, hheld⟩

/-- After an allocation. -/
theorem BlockFs.ledger_small :
    ∃ s, takeTwo.Next RbTree.spine smallSb (smallFs, ∅) s ∧ Ledger smallSb smallFs s ∧
      ∀ op : BallocOp, op.Promise s → ∃ s', op.Next RbTree.spine smallSb s s' := by
  obtain ⟨s, hnext⟩ := exists_takeTwo
  exact ⟨s, hnext, BlockFs.ledger smallFs_wf RbTree.spine
    (Reach.init.step (k := takeTwo) promise_takeTwo hnext)⟩

/-- **Such a run reports no error** as long as the bitmaps can be read. -/
theorem BlockFs.ledger_error (hwf : fs.WF sb) (rb : RbTree) {s : BlockFs × Held}
    (hs : Reach (fs, ∅) (fun s (op : BallocOp) s' => op.Next rb sb s s')
      (fun s op => op.Promise s ∧ op.Reads) s) : s.1.error = fs.error := by
  have hboth : Ledger sb fs s ∧ s.1.error = fs.error := by
    induction hs with
    | init => exact ⟨Ledger.init hwf, rfl⟩
    | step _ hguard hnext ih =>
        obtain ⟨hledger, herror⟩ := ih.1.next hguard.1 hnext
        exact ⟨hledger, (herror hguard.2).trans ih.2⟩
  exact hboth.2

/-- After an allocation. -/
theorem BlockFs.ledger_error_small :
    ∃ s, takeTwo.Next RbTree.spine smallSb (smallFs, ∅) s ∧ s.1.error = smallFs.error := by
  obtain ⟨s, hnext⟩ := exists_takeTwo
  exact ⟨s, hnext, BlockFs.ledger_error smallFs_wf RbTree.spine
    (Reach.init.step (k := takeTwo) ⟨promise_takeTwo, fun _ => rfl⟩ hnext)⟩

end Comp3301.Ext3301
