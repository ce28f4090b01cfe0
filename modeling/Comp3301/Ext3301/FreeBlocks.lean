import Comp3301.Ext3301.NewBlocks

/-!
# What `ext2_free_blocks` does

The range is freed group by group, from its first block on, and the call stops at a group whose
bitmap cannot be read or where the range meets a system block.

* `Freed`: the blocks from the first one to some block have been freed, and all counts adjusted.
* `ext2FreeBlocks_spec`: on a sound file system that is what a call comes to, for every range that
  does not reach over both ends of an inode table.
-/

namespace Comp3301.Ext3301

open Comp3301.Lib Reservations

variable {env : BallocEnv} {sb : BallocSb} {fs fs' : BlockFs} {b : Bits}
  {bit block count n ino stop freed : ℕ}

/-- The loop that clears bits. -/
lemma clearBits_spec (b : Bits) (bit n : ℕ) :
    (clearBits b bit n).1 = wipe b bit n ∧ (clearBits b bit n).2.1 = ones b bit n ∧
      ((clearBits b bit n).2.2 = true ↔ ∃ j, bit ≤ j ∧ j < bit + n ∧ b j = false) := by
  induction n with
  | zero =>
      refine ⟨(wipe_zero b bit).symm, (ones_zero b bit).symm, ?_⟩
      exact iff_of_false Bool.false_ne_true
        fun ⟨j, hlow, hhigh, _⟩ => absurd hlow (not_le.mpr hhigh)
  | succ n ih =>
      obtain ⟨hbits, hfreed, herr⟩ := ih
      have hbit : wipe b bit n (bit + n) = b (bit + n) := by
        rw [Bool.eq_iff_iff, wipe_apply_iff]
        exact and_iff_left fun h => absurd h.2 (lt_irrefl _)
      have hlast : ∀ P : ℕ → Prop, (∃ j, bit ≤ j ∧ j < bit + (n + 1) ∧ P j) ↔
          (∃ j, bit ≤ j ∧ j < bit + n ∧ P j) ∨ P (bit + n) := by
        intro P
        constructor
        · rintro ⟨j, hlow, hhigh, hj⟩
          rcases Nat.lt_succ_iff_lt_or_eq.mp hhigh with hhigh | rfl
          · exact Or.inl ⟨j, hlow, hhigh, hj⟩
          · exact Or.inr hj
        · rintro (⟨j, hlow, hhigh, hj⟩ | hj)
          · exact ⟨j, hlow, Nat.lt_succ_of_lt hhigh, hj⟩
          · exact ⟨bit + n, Nat.le_add_right _ _, Nat.lt_succ_self _, hj⟩
      rw [clearBits]
      simp only [hbits, hfreed, hbit, clearBit_wipe]
      rw [ones_succ, hlast]
      rcases Bool.eq_false_or_eq_true (b (bit + n)) with hset | hclear
      · rw [hset, if_neg (by decide), if_pos rfl]
        exact ⟨rfl, rfl, herr.trans (or_iff_left (by decide)).symm⟩
      · rw [hclear, if_pos rfl, if_neg (by decide)]
        exact ⟨rfl, rfl, iff_of_true rfl (Or.inr rfl)⟩

/-! ## A round -/

/-- The blocks from `block` to `stop` have been freed, `freed` of them had been in use, and the
count of the mount is still to be adjusted. -/
structure Freed (sb : BallocSb) (fs : BlockFs) (block stop freed : ℕ) (fs' : BlockFs) : Prop where
  wf : (fs'.count freed).WF sb
  layout : SameLayout fs fs'
  rsv : fs'.rsv = fs.rsv
  quota : fs'.quota = fs.quota
  inUse : ∀ x, sb.sFirstDataBlock ≤ x →
    (fs'.inUse sb x = true ↔ fs.inUse sb x = true ∧ ¬ (block ≤ x ∧ x < stop))
  freeBlocks : fs'.freeBlocks sb = fs.freeBlocks sb + freed
  all : (∀ x, block ≤ x → x < stop → fs.inUse sb x = true) → freed = stop - block

/-- The file system once the `n` bits of group `g` from `bit` on are cleared, and its count is
adjusted. -/
def BlockFs.freeGroup (fs : BlockFs) (g bit n : ℕ) (error : Bool) : BlockFs :=
  { fs with error := error }.setGroup g (wipe (fs.bitmap g) bit n)
    ((fs.desc g).groupAdjustBlocks (ones (fs.bitmap g) bit n : ℕ))

section freeGroup

variable (fs : BlockFs) (g bit n : ℕ) (error : Bool)

lemma BlockFs.freeGroup_bitmap_self :
    (fs.freeGroup g bit n error).bitmap g = wipe (fs.bitmap g) bit n :=
  Function.update_self g _ fs.bitmap

lemma BlockFs.freeGroup_bitmap_ne {j : ℕ} (h : j ≠ g) :
    (fs.freeGroup g bit n error).bitmap j = fs.bitmap j :=
  Function.update_of_ne h _ fs.bitmap

lemma BlockFs.freeGroup_desc_self :
    (fs.freeGroup g bit n error).desc g =
      (fs.desc g).groupAdjustBlocks (ones (fs.bitmap g) bit n : ℕ) :=
  Function.update_self g _ fs.desc

lemma BlockFs.freeGroup_desc_ne {j : ℕ} (h : j ≠ g) :
    (fs.freeGroup g bit n error).desc j = fs.desc j :=
  Function.update_of_ne h _ fs.desc

lemma BlockFs.sameLayout_freeGroup : SameLayout fs (fs.freeGroup g bit n error) := by
  intro j
  rcases eq_or_ne j g with rfl | hj
  · rw [freeGroup_desc_self]
    exact ⟨rfl, rfl, rfl⟩
  · rw [freeGroup_desc_ne fs g bit n error hj]
    exact ⟨rfl, rfl, rfl⟩

/-- The blocks of the range are free then. -/
lemma BlockFs.freeGroup_inUse {sb : BallocSb} {x : ℕ} (hblocks : 0 < sb.blocksPerGroup)
    (hn : bit + n ≤ sb.blocksPerGroup) (hx : sb.sFirstDataBlock ≤ x) :
    (fs.freeGroup g bit n error).inUse sb x = true ↔ fs.inUse sb x = true ∧
      ¬ (sb.groupFirstBlockNo g + bit ≤ x ∧ x < sb.groupFirstBlockNo g + bit + n) := by
  have hbit := BallocSb.bitOf_lt hblocks x
  have hblock := BallocSb.groupFirstBlockNo_add_bitOf hx
  rw [BlockFs.inUse, BlockFs.inUse]
  rcases eq_or_ne (sb.groupOf x) g with hgroup | hgroup
  · rw [hgroup] at hblock ⊢
    rw [freeGroup_bitmap_self, wipe_apply_iff]
    apply and_congr_right'
    apply not_congr
    constructor
    · rintro ⟨hlow, hhigh⟩
      constructor <;> omega
    · rintro ⟨hlow, hhigh⟩
      constructor <;> omega
  · rw [freeGroup_bitmap_ne fs g bit n error hgroup]
    refine (and_iff_left ?_).symm
    rintro ⟨hlow, hhigh⟩
    obtain ⟨hgroup', -⟩ := sb.groupOf_add (j := x - sb.groupFirstBlockNo g) (by omega) g
    rw [Nat.add_sub_cancel' (by omega)] at hgroup'
    exact hgroup hgroup'

lemma BlockFs.freeGroup_freeBlocks {sb : BallocSb} {g : ℕ} (hg : g < sb.groupsCount)
    (hn : bit + n ≤ sb.blocksPerGroup) :
    (fs.freeGroup g bit n error).freeBlocks sb =
      fs.freeBlocks sb + ones (fs.bitmap g) bit n := by
  symm
  apply sum_range_eq_add hg
  · rw [freeGroup_bitmap_self, zeros_wipe hn]
  · intro j hj
    rw [freeGroup_bitmap_ne fs g bit n error hj]

end freeGroup

/-- **The blocks of one group are freed.** -/
lemma Freed.group (h : Freed sb fs block stop freed fs') (hfirst : sb.sFirstDataBlock ≤ block)
    (hle : block ≤ stop) (hn : sb.bitOf stop + n ≤ sb.blocksPerGroup)
    (hend : stop + n ≤ sb.sBlocksCount) (hpos : 0 < n)
    (hsys : ∀ x, stop ≤ x → x < stop + n → ¬ SystemBlock sb (fs'.desc (sb.groupOf stop)) x)
    (error : Bool) :
    Freed sb fs block (stop + n) (freed + ones (fs'.bitmap (sb.groupOf stop)) (sb.bitOf stop) n)
      (fs'.freeGroup (sb.groupOf stop) (sb.bitOf stop) n error) := by
  have hblocks := h.wf.mounted.blocks
  have hstop := BallocSb.groupFirstBlockNo_add_bitOf (hfirst.trans hle)
  have hg : sb.groupOf stop < sb.groupsCount := h.wf.mounted.groupOf_lt (by omega)
  generalize sb.groupOf stop = g at hsys hstop hg ⊢
  generalize sb.bitOf stop = bit at hn hstop ⊢
  have hlayout := BlockFs.sameLayout_freeGroup fs' g bit n error
  have hfree := BlockFs.freeGroup_freeBlocks fs' bit n error hg hn
  have hinUse : ∀ x, sb.sFirstDataBlock ≤ x →
      ((fs'.freeGroup g bit n error).inUse sb x = true ↔
        fs.inUse sb x = true ∧ ¬ (block ≤ x ∧ x < stop + n)) := by
    intro x hx
    rw [BlockFs.freeGroup_inUse fs' g bit n error hblocks.1 hn hx, h.inUse x hx, and_assoc, hstop]
    apply and_congr_right'
    constructor
    · rintro ⟨hbefore, hhere⟩ ⟨hlow, hhigh⟩
      exact hhere ⟨not_lt.mp fun hlt => hbefore ⟨hlow, hlt⟩, hhigh⟩
    · intro hout
      exact ⟨fun hin => hout ⟨hin.1, by omega⟩, fun hin => hout ⟨by omega, hin.2⟩⟩
  refine ⟨?_, h.layout.trans hlayout, h.rsv, h.quota, hinUse, ?_, fun hall => ?_⟩
  · refine h.wf.of_group (g := g) hlayout h.wf.rsv
      (fun j hj => BlockFs.freeGroup_bitmap_ne fs' g bit n error hj)
      (fun j hj => BlockFs.freeGroup_desc_ne fs' g bit n error hj) ?_ ?_ (fun j hj => ?_)
    · show ((fs'.freeGroup g bit n error).desc g).bgFreeBlocksCount =
        zeros ((fs'.freeGroup g bit n error).bitmap g) sb.blocksPerGroup
      rw [BlockFs.freeGroup_desc_self, BlockFs.freeGroup_bitmap_self, zeros_wipe hn]
      have hcount : (fs'.desc g).bgFreeBlocksCount = zeros (fs'.bitmap g) sb.blocksPerGroup :=
        h.wf.groupCount g hg
      apply GroupDesc.groupAdjustBlocks_eq
      · rw [hcount, Nat.cast_add]
      · rw [← zeros_wipe hn]
        exact (zeros_le _ _).trans_lt hblocks.2
    · have hcounter : fs'.freeblocksCounter + freed = fs'.freeBlocks sb := h.wf.counter
      show fs'.freeblocksCounter + ((freed + ones (fs'.bitmap g) bit n : ℕ) : ℤ) =
        (fs'.freeGroup g bit n error).freeBlocks sb
      rw [hfree, Nat.cast_add, Nat.cast_add, ← hcounter, add_assoc]
    · show (fs'.freeGroup g bit n error).bitmap g j = true ∨ _
      rw [BlockFs.freeGroup_bitmap_self, wipe_apply_iff]
      by_cases hin : bit ≤ j ∧ j < bit + n
      · refine Or.inr ⟨by omega, by omega, ?_⟩
        exact hsys _ (by omega) (by omega)
      · exact Or.inl ⟨hj, hin⟩
  · rw [hfree, h.freeBlocks, Nat.add_assoc]
  · have hfreed := h.all fun x hlow hhigh => hall x hlow (by omega)
    have hones : ones (fs'.bitmap g) bit n = n := by
      apply ones_eq
      intro j hlow hhigh
      obtain ⟨hgroup, hbit⟩ := sb.groupOf_add (j := j) (by omega) g
      have hset := (h.inUse (sb.groupFirstBlockNo g + j) (by omega)).mpr
        ⟨hall _ (by omega) (by omega), fun hin => absurd hin.2 (by omega)⟩
      rw [BlockFs.inUse, hgroup, hbit] at hset
      exact hset
    rw [hfreed, hones]
    omega

lemma Freed.ext2Error (h : Freed sb fs block stop freed fs') :
    Freed sb fs block stop freed fs'.ext2Error :=
  ⟨h.wf.ext2Error, h.layout, h.rsv, h.quota, h.inUse, h.freeBlocks, h.all⟩

/-- The range has a system block in it. -/
def MeetsSystem (sb : BallocSb) (fs : BlockFs) (block count : ℕ) : Prop :=
  ∃ g < sb.groupsCount, ∃ x, SystemBlock sb (fs.desc g) x ∧ block ≤ x ∧ x < block + count

/-- A call has a reason to report an error. -/
def Trouble (env : BallocEnv) (sb : BallocSb) (fs : BlockFs) (block count : ℕ) : Prop :=
  (∃ g, env.readErr g = true) ∨ MeetsSystem sb fs block count ∨
    ∃ x, block ≤ x ∧ x < block + count ∧ fs.inUse sb x = false

/-- What holds at `do_more`. -/
structure Freeing (env : BallocEnv) (sb : BallocSb) (fs : BlockFs) (block count : ℕ)
    (s : BlockFs × ℕ × ℕ × ℕ) : Prop where
  freed : Freed sb fs block s.2.1 s.2.2.2 s.1
  le : block ≤ s.2.1
  end_eq : s.2.1 + s.2.2.1 = block + count
  pos : 0 < s.2.2.1
  error : s.1.error = fs.error ∨ Trouble env sb fs block count

/-- What the loop comes to. -/
def FreedUpTo (env : BallocEnv) (sb : BallocSb) (fs : BlockFs) (block count : ℕ)
    (r : BlockFs × ℕ) : Prop :=
  ∃ stop, Freed sb fs block stop r.2 r.1 ∧ (block ≤ stop ∧ stop ≤ block + count) ∧
    (stop = block + count ∨ (∃ g, env.readErr g = true) ∨ MeetsSystem sb fs block count) ∧
    (r.1.error = fs.error ∨ Trouble env sb fs block count)

/-- The tail of a round, with the bits cleared. -/
lemma clearBits_freeGroup (fs : BlockFs) (g bit n : ℕ) :
    ((if (clearBits (fs.bitmap g) bit n).2.2 = true then fs.ext2Error else fs).setGroup g
        (clearBits (fs.bitmap g) bit n).1
        (((if (clearBits (fs.bitmap g) bit n).2.2 = true then fs.ext2Error else fs).desc
          g).groupAdjustBlocks ((clearBits (fs.bitmap g) bit n).2.1 : ℕ))) =
      fs.freeGroup g bit n ((clearBits (fs.bitmap g) bit n).2.2 || fs.error) := by
  obtain ⟨hbits, hfreed, -⟩ := clearBits_spec (fs.bitmap g) bit n
  rw [hbits, hfreed]
  rcases (clearBits (fs.bitmap g) bit n).2.2 with _ | _
  · rfl
  · rfl

/-- **A round at `do_more`.** -/
lemma freeRound_advances (hwf : fs.WF sb) (hfirst : sb.sFirstDataBlock ≤ block)
    (hlast : block + count ≤ sb.sBlocksCount)
    (hspare : ∀ g < sb.groupsCount, ¬ Engulfs sb (fs.desc g) block count)
    {s : BlockFs × ℕ × ℕ × ℕ} (hs : Freeing env sb fs block count s) :
    Advances (freeRound env sb) (Freeing env sb fs block count) (fun s => s.2.2.1)
      (FreedUpTo env sb fs block count) s := by
  obtain ⟨fs₁, stop, left, freed⟩ := s
  obtain ⟨hfreed, hle, hend, hpos, herror⟩ := hs
  simp only at hfreed hle hend hpos herror
  have hblocks := hwf.mounted.blocks.1
  have hbit := BallocSb.bitOf_lt hblocks stop
  have hg : sb.groupOf stop < sb.groupsCount := hwf.mounted.groupOf_lt (by omega)
  -- the part of the range in this group
  obtain ⟨n, hn, hfit, hover⟩ : ∃ n, left - (if sb.bitOf stop + left > sb.blocksPerGroup then
      sb.bitOf stop + left - sb.blocksPerGroup else 0) = n ∧ sb.bitOf stop + n ≤ sb.blocksPerGroup ∧
      (if sb.bitOf stop + left > sb.blocksPerGroup then
        sb.bitOf stop + left - sb.blocksPerGroup else 0) + n = left := by
    refine ⟨_, rfl, ?_, ?_⟩
    · split_ifs <;> omega
    · split_ifs <;> omega
  have hnpos : 0 < n := by
    split_ifs at hn <;> omega
  have hstop_le : stop ≤ block + count := by omega
  rw [Advances, freeRound]
  simp only [hn]
  generalize (if sb.bitOf stop + left > sb.blocksPerGroup then
    sb.bitOf stop + left - sb.blocksPerGroup else 0) = overflow at hn hover ⊢
  have hvalid : validBlockBitmap sb (fs₁.desc (sb.groupOf stop)) (sb.groupOf stop)
      (fs₁.bitmap (sb.groupOf stop)) = true := hfreed.wf.validBlockBitmap hg
  rcases readBlockBitmap_cases hg hvalid env with hread | ⟨hread, herr⟩
  · rw [hread]
    simp only
    by_cases hzone : inSystemZone sb (fs₁.desc (sb.groupOf stop)) stop n = true
    · -- the range meets a system block, and the call stops
      obtain ⟨x, hsys, hlow, hhigh⟩ :=
        (inSystemZone_or_engulfs_iff hwf.mounted.itb hnpos _ _).mp (Or.inl hzone)
      have hmeets : MeetsSystem sb fs block count :=
        ⟨sb.groupOf stop, hg, x, (hfreed.layout.systemBlock_iff _ x).mp hsys, by omega, by omega⟩
      rw [if_pos hzone]
      exact Or.inr ⟨(fs₁.ext2Error, freed), rfl, stop, hfreed.ext2Error, ⟨hle, hstop_le⟩,
        Or.inr (Or.inr hmeets), Or.inr (Or.inr (Or.inl hmeets))⟩
    · have hsys : ∀ x, stop ≤ x → x < stop + n →
          ¬ SystemBlock sb (fs₁.desc (sb.groupOf stop)) x := by
        intro x hlow hhigh hsys
        rcases (inSystemZone_or_engulfs_iff hwf.mounted.itb hnpos _ _).mpr ⟨x, hsys, hlow, hhigh⟩
          with hin | ⟨hbefore, hbehind⟩
        · exact hzone hin
        · rw [(hfreed.layout _).2.2] at hbefore hbehind
          exact hspare _ hg ⟨by omega, by omega⟩
      have hnext := hfreed.group hfirst hle hfit (by omega) hnpos hsys
        ((clearBits (fs₁.bitmap (sb.groupOf stop)) (sb.bitOf stop) n).2.2 || fs₁.error)
      have herror' : ((clearBits (fs₁.bitmap (sb.groupOf stop)) (sb.bitOf stop) n).2.2 ||
          fs₁.error) = fs.error ∨ Trouble env sb fs block count := by
        rcases hclear : (clearBits (fs₁.bitmap (sb.groupOf stop)) (sb.bitOf stop) n).2.2 with _ | _
        · rw [Bool.false_or]
          exact herror
        · -- a bit of the range was clear already
          obtain ⟨j, hlow, hhigh, hbitj⟩ := (clearBits_spec _ _ _).2.2.mp hclear
          have hstop := BallocSb.groupFirstBlockNo_add_bitOf (hfirst.trans hle)
          obtain ⟨hgroup, hj⟩ :=
            sb.groupOf_add (j := j) (by omega) (sb.groupOf stop)
          refine Or.inr (Or.inr (Or.inr ⟨sb.groupFirstBlockNo (sb.groupOf stop) + j, by omega,
            by omega, ?_⟩))
          rw [← Bool.not_eq_true]
          intro huse
          have := (hfreed.inUse (sb.groupFirstBlockNo (sb.groupOf stop) + j) (by omega)).mpr
            ⟨huse, fun hin => absurd hin.2 (by omega)⟩
          rw [BlockFs.inUse, hgroup, hj, hbitj] at this
          cases this
      rw [if_neg hzone]
      rw [clearBits_freeGroup, (clearBits_spec _ _ _).2.1]
      by_cases hmore : overflow > 0
      · rw [if_pos hmore]
        exact Or.inl ⟨_, rfl, ⟨hnext, by simp only; omega, by simp only; omega, hmore, herror'⟩,
          by simp only; omega⟩
      · rw [if_neg hmore]
        exact Or.inr ⟨_, rfl, stop + n, hnext, ⟨by omega, by omega⟩, Or.inl (by omega), herror'⟩
  · refine Or.inr ⟨(fs₁.ext2Error, freed), ?_, stop, hfreed.ext2Error, ⟨hle, hstop_le⟩,
      Or.inr (Or.inl ⟨_, herr⟩), Or.inr (Or.inl ⟨_, herr⟩)⟩
    rw [hread]

/-! ## The call -/

/-- What `ext2_free_blocks` comes to: the blocks up to `stop` have been freed, and `freed` of them
had been in use. -/
structure FreeBlocksSpec (env : BallocEnv) (sb : BallocSb) (ino block count : ℕ) (fs : BlockFs)
    (stop freed : ℕ) (fs' : BlockFs) : Prop where
  wf : fs'.WF sb
  layout : SameLayout fs fs'
  rsv : fs'.rsv = fs.rsv
  range : block ≤ stop ∧ stop ≤ block + count
  inUse : ∀ x, sb.sFirstDataBlock ≤ x →
    (fs'.inUse sb x = true ↔ fs.inUse sb x = true ∧ ¬ (block ≤ x ∧ x < stop))
  freeBlocks : fs'.freeBlocks sb = fs.freeBlocks sb + freed
  quota : fs'.quota = Function.update fs.quota ino (fs.quota ino - freed)
  all : (∀ x, block ≤ x → x < stop → fs.inUse sb x = true) → freed = stop - block
  done : stop = block + count ∨ (block < sb.sFirstDataBlock ∨ sb.sBlocksCount < block + count) ∨
    (∃ g, env.readErr g = true) ∨ MeetsSystem sb fs block count
  error : fs'.error = fs.error ∨ (block < sb.sFirstDataBlock ∨ sb.sBlocksCount < block + count) ∨
    Trouble env sb fs block count

/-- **`ext2_free_blocks`** ends, keeps all counts exact and no system block gets free. -/
theorem ext2FreeBlocks_spec (hwf : fs.WF sb) (env : BallocEnv) (ino : ℕ) (hcount : 0 < count)
    (hspare : ∀ g < sb.groupsCount, ¬ Engulfs sb (fs.desc g) block count) :
    ∃ fs' stop freed, ext2FreeBlocks env sb fs ino block count = some fs' ∧
      FreeBlocksSpec env sb ino block count fs stop freed fs' := by
  rw [ext2FreeBlocks]
  by_cases hout : block < sb.sFirstDataBlock ∨ block + count > sb.sBlocksCount
  · have hnone : ∀ x, ¬ (block ≤ x ∧ x < block) := fun x hx => absurd hx.1 (not_le.mpr hx.2)
    rw [if_pos hout]
    have hsound : ((fs.ext2Error.count ((0 : ℕ) : ℤ)).charge ino (-((0 : ℕ) : ℤ))).WF sb := by
      rw [Nat.cast_zero, neg_zero, BlockFs.charge_zero, BlockFs.count, add_zero]
      exact hwf.ext2Error
    refine ⟨_, block, 0, rfl, hsound, fun g => ⟨rfl, rfl, rfl⟩, rfl,
      ⟨le_refl _, Nat.le_add_right _ _⟩, fun x _ => (and_iff_left (hnone x)).symm, rfl, ?_,
      fun _ => (Nat.sub_self block).symm, Or.inr (Or.inl hout), Or.inr (Or.inl hout)⟩
    rw [sub_eq_add_neg]
    rfl
  · rw [if_neg hout]
    rw [not_or, not_lt, not_lt] at hout
    have hnone : ∀ x, ¬ (block ≤ x ∧ x < block) := fun x hx => absurd hx.1 (not_le.mpr hx.2)
    have hstart : Freeing env sb fs block count (fs, block, count, 0) := by
      refine ⟨⟨?_, SameLayout.refl fs, rfl, rfl, fun x _ => (and_iff_left (hnone x)).symm, rfl,
        fun _ => (Nat.sub_self block).symm⟩, le_refl _, rfl, hcount, Or.inl rfl⟩
      simp only [Nat.cast_zero, BlockFs.count, add_zero]
      exact hwf
    obtain ⟨⟨fs', freed⟩, hloop, stop, hfreed, hrange, hdone, herror⟩ := loopFor_total
      (fun s hs => freeRound_advances hwf hout.1 hout.2 hspare hs) (n := count + 1) hstart
      (Nat.lt_succ_self count)
    rw [hloop]
    refine ⟨_, stop, freed, rfl, hfreed.wf.charge ino _, hfreed.layout, hfreed.rsv, hrange,
      hfreed.inUse, hfreed.freeBlocks, ?_, hfreed.all, ?_, ?_⟩
    · show Function.update fs'.quota ino (fs'.quota ino + -(freed : ℤ)) = _
      rw [hfreed.quota, ← sub_eq_add_neg]
    · exact hdone.imp_right Or.inr
    · exact herror.imp_right Or.inr

end Comp3301.Ext3301
