import Comp3301.Ext3301.NewBlocks

/-!
# What `ext2_new_blocks` gives

* `Quiet`, `Took`: what an attempt in one group does to the file system.
* `ext2NewBlocks_spec`: on a sound file system the call ends. It gives free blocks of the file
  system that lie side by side, marks them and nothing else, and adjusts all counts; or it fails and
  changes no bitmap and no count.
* `ext2NewBlocks_ok_iff`: with readable bitmaps it gives blocks exactly where there is a free one.
-/

namespace Comp3301.Ext3301

open Comp3301.Lib Reservations

variable {rb : RbTree} {env : BallocEnv} {sb : BallocSb} {fs fs' fs'' : BlockFs}
  {g ino count first num goal goalGroup windowsz : ℕ} {grpGoal myRsv : Option ℕ}

/-! ## Attempts -/

/-- Only the window of the inode has changed. -/
structure Quiet (ino : ℕ) (fs fs' : BlockFs) : Prop where
  bitmap : fs'.bitmap = fs.bitmap
  desc : fs'.desc = fs.desc
  counter : fs'.freeblocksCounter = fs.freeblocksCounter
  quota : fs'.quota = fs.quota
  wf : fs'.rsv.WF
  only : OnlyNode ino fs.rsv fs'.rsv

/-- Blocks of a group have been claimed. -/
structure Took (sb : BallocSb) (ino count g first num : ℕ) (fs fs' : BlockFs) : Prop where
  lt : g < sb.groupsCount
  claimed : Claimed 0 sb.blocksPerGroup count first num (fs.bitmap g) (fs'.bitmap g)
  others : ∀ g', g' ≠ g → fs'.bitmap g' = fs.bitmap g'
  desc : fs'.desc = fs.desc
  counter : fs'.freeblocksCounter = fs.freeblocksCounter
  quota : fs'.quota = fs.quota
  wf : fs'.rsv.WF
  only : OnlyNode ino fs.rsv fs'.rsv
  error : fs'.error = fs.error

/-- What a search through groups comes to. -/
def Searched (env : BallocEnv) (sb : BallocSb) (ino count : ℕ) (fs : BlockFs) : GroupSearch → Prop
  | .allocated g first num fs' => Took sb ino count g first num fs fs'
  | .ioError _ fs' => Quiet ino fs fs' ∧ ∃ g, env.readErr g = true

/-- A window that a call may use is the one of the inode, which has a block allocation info and
wants a window of some size. -/
def RsvOk (ino : ℕ) (w : Reservations) (myRsv : Option ℕ) : Prop :=
  ∀ i ∈ myRsv, i = ino ∧ ino ≠ rsvWindowHead ∧ w.allocInfo ino = true ∧
    0 < (w.node ino).rsvGoalSize

/-- The state between two attempts. -/
structure Waiting (ino count : ℕ) (fs : BlockFs) (s : BlockFs × ℕ) : Prop where
  quiet : Quiet ino fs s.1
  error : s.1.error = fs.error
  num : s.2 ≤ count

lemma Quiet.refl (ino : ℕ) (h : fs.rsv.WF) : Quiet ino fs fs :=
  ⟨rfl, rfl, rfl, rfl, h, OnlyNode.refl ino fs.rsv⟩

/-- A file system stays sound when only a window changes. -/
lemma Quiet.sound (h : Quiet ino fs fs') (hwf : fs.WF sb) : fs'.WF sb := by
  obtain ⟨⟨hblocks, hitb, hfirst, hgroups, hbb, hib, htab⟩, -, hcount, hcounter, hsystem, hpad⟩ :=
    hwf
  refine ⟨⟨hblocks, hitb, hfirst, hgroups, ?_, ?_, ?_⟩, h.wf, ?_, ?_, ?_, ?_⟩
  · rw [h.desc]
    exact hbb
  · rw [h.desc]
    exact hib
  · rw [h.desc]
    exact htab
  · rw [h.desc, h.bitmap]
    exact hcount
  · rw [h.counter, BlockFs.freeBlocks, h.bitmap]
    exact hcounter
  · rw [h.desc, h.bitmap]
    exact hsystem
  · rw [h.bitmap]
    exact hpad

lemma RsvOk.of_only (h : RsvOk ino fs.rsv myRsv) (honly : OnlyNode ino fs.rsv fs'.rsv) :
    RsvOk ino fs'.rsv myRsv := by
  intro i hi
  obtain ⟨rfl, hne, hinfo, hsize⟩ := h i hi
  exact ⟨rfl, hne, honly.info ▸ hinfo, honly.goal hsize⟩

/-- `ext2_try_to_allocate_with_rsv`, with a window or without. -/
lemma withRsv_cases {w : Reservations} (hw : w.WF) (rb : RbTree) (hrsv : RsvOk ino w myRsv)
    {blocksPerGroup : ℕ} (hblocks : 0 < blocksPerGroup)
    (hgoal : ∀ j ∈ grpGoal, j < blocksPerGroup) (firstBlock : ℕ) (b : Bits) (count : ℕ)
    (trylock : Bool) :
    ∃ ret num b' w', ext2TryToAllocateWithRsv rb w firstBlock blocksPerGroup b grpGoal myRsv count
        trylock = some (ret, num, b', w') ∧ w'.WF ∧ OnlyNode ino w w' ∧
      ((∃ first, ret = some first ∧ Claimed 0 blocksPerGroup count first num b b') ∨
        ret = none ∧ num ≤ count ∧ b' = b ∧
          (myRsv = none → grpGoal = none → ∀ j < blocksPerGroup, b j = true)) := by
  rcases myRsv with _ | i
  · obtain ⟨⟨ret, num, b'⟩, htry, hattempt⟩ :=
      ext2TryToAllocate_spec (rangeOk_none hblocks hgoal firstBlock) b count
    refine ⟨ret, num, b', w, ?_, hw, OnlyNode.refl ino w, ?_⟩
    · rw [ext2TryToAllocateWithRsv]
      simp only [htry, Option.map_some]
    · rcases hattempt with ⟨first, hret, hclaimed⟩ | ⟨heq, hset⟩
      · have hstop : (allocRange firstBlock blocksPerGroup grpGoal none).2.1 ≤ blocksPerGroup :=
          (rangeOk_none hblocks hgoal firstBlock).le
        exact Or.inl ⟨first, hret, ⟨Nat.zero_le _, hclaimed.range.2.trans hstop⟩,
          hclaimed.num_pos, hclaimed.num_le, hclaimed.clear, hclaimed.bitmap⟩
      · simp only [Prod.mk.injEq] at heq
        obtain ⟨rfl, rfl, rfl⟩ := heq
        refine Or.inr ⟨rfl, Nat.zero_le _, rfl, fun _ hnone j hj => ?_⟩
        subst hnone
        exact hset j (Nat.zero_le _) hj
  · obtain ⟨rfl, hne, hinfo, hsize⟩ := hrsv i rfl
    obtain ⟨⟨ret, num, b', w'⟩, htry, hres⟩ := ext2TryToAllocateWithRsv_spec
      hw rb hne hinfo hsize hblocks hgoal firstBlock b count trylock
    refine ⟨ret, num, b', w', htry, hres.wf, hres.only, ?_⟩
    rcases hres.attempt with ⟨first, hret, hclaimed, -, -⟩ | ⟨hret, hnum, hb⟩
    · exact Or.inl ⟨first, hret, hclaimed⟩
    · exact Or.inr ⟨hret, hnum.le, hb, fun hnone => nomatch hnone⟩

/-- **An attempt in a group**: blocks are claimed there, its bitmap cannot be read, or nothing
happens; without a window and without a goal, the group is then full. -/
lemma tryGroup_cases (hwf : fs.WF sb) (rb : RbTree) (hg : g < sb.groupsCount)
    (hrsv : RsvOk ino fs.rsv myRsv) (hgoal : ∀ j ∈ grpGoal, j < sb.blocksPerGroup)
    (env : BallocEnv) {s : BlockFs × ℕ} (hs : Waiting ino count fs s) :
    (∃ s', tryGroup rb env sb g grpGoal myRsv s = some (.inl s') ∧ Waiting ino count fs s' ∧
        (myRsv = none → grpGoal = none → ∀ j < sb.blocksPerGroup, fs.bitmap g j = true)) ∨
      ∃ r, tryGroup rb env sb g grpGoal myRsv s = some (.inr r) ∧
        Searched env sb ino count fs r := by
  obtain ⟨fs₁, num⟩ := s
  have hquiet : Quiet ino fs fs₁ := hs.quiet
  have hnum : num ≤ count := hs.num
  rcases readBlockBitmap_cases hg ((hquiet.sound hwf).validBlockBitmap hg) env with
    hread | ⟨hread, herr⟩
  · obtain ⟨ret, num', b', w', htry, hw', honly', hcases⟩ := withRsv_cases
      hquiet.wf rb (hrsv.of_only hquiet.only) hwf.mounted.blocks.1 hgoal (sb.groupFirstBlockNo g)
      (fs₁.bitmap g) num env.trylock
    have honly := hquiet.only.trans honly'
    rcases hcases with ⟨first, rfl, hclaimed⟩ | ⟨rfl, hle, rfl, hfull⟩
    · refine Or.inr ⟨.allocated g first num'
        { fs₁.setGroup g b' (fs₁.desc g) with rsv := w' }, ?_, ?_⟩
      · rw [tryGroup]
        simp only [hread, htry]
      · have hbitmap : ({ fs₁.setGroup g b' (fs₁.desc g) with rsv := w' } : BlockFs).bitmap =
            Function.update fs₁.bitmap g b' := rfl
        refine ⟨hg, ?_, fun g' hg' => ?_, ?_, hquiet.counter, hquiet.quota, hw', honly, hs.error⟩
        · rw [hbitmap, Function.update_self, ← hquiet.bitmap]
          have hmax : max num 1 ≤ max count 1 := max_le_max hnum (le_refl 1)
          exact ⟨hclaimed.range, hclaimed.num_pos, hclaimed.num_le.trans hmax, hclaimed.clear,
            hclaimed.bitmap⟩
        · rw [hbitmap, Function.update_of_ne hg', hquiet.bitmap]
        · show Function.update fs₁.desc g (fs₁.desc g) = fs.desc
          rw [Function.update_eq_self, hquiet.desc]
    · refine Or.inl ⟨({ fs₁.setGroup g (fs₁.bitmap g) (fs₁.desc g) with rsv := w' }, num'), ?_,
        ⟨⟨?_, ?_, hquiet.counter, hquiet.quota, hw', honly⟩, hs.error, hle.trans hnum⟩, ?_⟩
      · rw [tryGroup]
        simp only [hread, htry]
      · show Function.update fs₁.bitmap g (fs₁.bitmap g) = fs.bitmap
        rw [Function.update_eq_self, hquiet.bitmap]
      · show Function.update fs₁.desc g (fs₁.desc g) = fs.desc
        rw [Function.update_eq_self, hquiet.desc]
      · rw [← hquiet.bitmap]
        exact hfull
  · refine Or.inr ⟨.ioError num fs₁.ext2Error, ?_, ⟨hquiet.bitmap, hquiet.desc, hquiet.counter,
      hquiet.quota, hquiet.wf, hquiet.only⟩, g, herr⟩
    rw [tryGroup]
    simp only [hread]

/-! ## The search through all groups -/

/-- The loop over the groups goes around. -/
lemma groupsBehind_eq {ngroups : ℕ} (n : ℕ) {g : ℕ} (hg : g < ngroups) :
    groupsBehind ngroups n g = (List.range n).map fun k => (g + 1 + k) % ngroups := by
  induction n generalizing g with
  | zero => rfl
  | succ n ih =>
      have hnext : (if g + 1 ≥ ngroups then 0 else g + 1) = (g + 1) % ngroups := by
        split_ifs with h
        · rw [show g + 1 = ngroups from le_antisymm hg h, Nat.mod_self]
        · exact (Nat.mod_eq_of_lt (not_le.mp h)).symm
      have hlt : (g + 1) % ngroups < ngroups := Nat.mod_lt _ ((Nat.zero_le g).trans_lt hg)
      rw [groupsBehind, hnext, ih hlt, List.range_succ_eq_map, List.map_cons, List.map_map,
        Nat.add_zero]
      congr 1
      apply List.map_congr_left
      intro k _
      simp only [Function.comp_apply]
      rw [Nat.add_assoc ((g + 1) % ngroups), Nat.mod_add_mod]
      congr 1
      omega

/-- It comes to every group. -/
lemma mem_groupsBehind {ngroups g g' : ℕ} (hg : g < ngroups) :
    g' ∈ groupsBehind ngroups ngroups g ↔ g' < ngroups := by
  rw [groupsBehind_eq ngroups hg, List.mem_map]
  constructor
  · rintro ⟨k, -, rfl⟩
    exact Nat.mod_lt _ ((Nat.zero_le g).trans_lt hg)
  · intro hg'
    by_cases hle : g < g'
    · refine ⟨g' - (g + 1), List.mem_range.mpr (by omega), ?_⟩
      rw [show g + 1 + (g' - (g + 1)) = g' by omega, Nat.mod_eq_of_lt hg']
    · refine ⟨g' + ngroups - (g + 1), List.mem_range.mpr (by omega), ?_⟩
      rw [show g + 1 + (g' + ngroups - (g + 1)) = g' + ngroups by omega, Nat.add_mod_right,
        Nat.mod_eq_of_lt hg']

/-- **The search through all groups**: without a window, it fails only where every group is
full. -/
lemma searchGroups_cases (hwf : fs.WF sb) (rb : RbTree) (hg : g < sb.groupsCount)
    (hrsv : RsvOk ino fs.rsv myRsv) (windowsz : ℕ) (env : BallocEnv)
    {s : BlockFs × ℕ} (hs : Waiting ino count fs s) :
    (∃ s', runOver (groupRound rb env sb windowsz myRsv)
          (groupsBehind sb.groupsCount sb.groupsCount g) s = some (.inl s') ∧
        Waiting ino count fs s' ∧ (myRsv = none → fs.freeBlocks sb = 0)) ∨
      ∃ r, runOver (groupRound rb env sb windowsz myRsv)
          (groupsBehind sb.groupsCount sb.groupsCount g) s = some (.inr r) ∧
        Searched env sb ino count fs r := by
  have hround : ∀ g' ∈ groupsBehind sb.groupsCount sb.groupsCount g, ∀ s, Waiting ino count fs s →
      (∃ s', groupRound rb env sb windowsz myRsv g' s = some (.inl s') ∧ Waiting ino count fs s' ∧
        (myRsv = none → ∀ j < sb.blocksPerGroup, fs.bitmap g' j = true)) ∨
      ∃ r, groupRound rb env sb windowsz myRsv g' s = some (.inr r) ∧
        Searched env sb ino count fs r := by
    intro g' hg' s hs
    rw [groupRound]
    split_ifs with hskip
    · refine Or.inl ⟨s, rfl, hs, fun hnone => ?_⟩
      rw [hnone] at hskip
      exact absurd hskip.1 (by decide)
    · have hnone : ∀ j ∈ (none : Option ℕ), j < sb.blocksPerGroup := fun j hj => nomatch hj
      rcases tryGroup_cases hwf rb ((mem_groupsBehind hg).mp hg') hrsv hnone env hs with
        ⟨s', htry, hs', hfull⟩ | hfound
      · exact Or.inl ⟨s', htry, hs', fun hnone => hfull hnone rfl⟩
      · exact Or.inr hfound
  rcases runOver_search hround hs with ⟨s', hrun, hs', hfull⟩ | ⟨g', -, r, hrun, hr⟩
  · refine Or.inl ⟨s', hrun, hs', fun hnone => ?_⟩
    rw [BlockFs.freeBlocks]
    apply Finset.sum_eq_zero
    intro g' hg'
    have hset := hfull g' ((mem_groupsBehind hg).mpr (Finset.mem_range.mp hg')) hnone
    refine Nat.eq_zero_of_not_pos fun hpos => ?_
    obtain ⟨j, hj, hclear⟩ := zeros_pos_iff.mp hpos
    rw [hset j hj] at hclear
    cases hclear
  · exact Or.inr ⟨r, hrun, hr⟩

/-! ## The call -/

/-- The blocks `ret`, `ret + 1`, …, `num` of them, have been allocated. -/
structure Allocated (sb : BallocSb) (count ret num : ℕ) (fs fs' : BlockFs) : Prop where
  num_pos : 0 < num
  num_le : num ≤ count
  range : sb.sFirstDataBlock ≤ ret ∧ ret + num ≤ sb.sBlocksCount
  free : ∀ x, ret ≤ x → x < ret + num → fs.inUse sb x = false
  system : ∀ x, ret ≤ x → x < ret + num → ∀ g < sb.groupsCount, ¬ SystemBlock sb (fs.desc g) x
  inUse : ∀ x, sb.sFirstDataBlock ≤ x →
    (fs'.inUse sb x = true ↔ fs.inUse sb x = true ∨ (ret ≤ x ∧ x < ret + num))
  freeBlocks : fs'.freeBlocks sb + num = fs.freeBlocks sb

namespace Took

/-- The claimed blocks were free. -/
lemma inUse_eq_false (h : Took sb ino count g first num fs fs') {x : ℕ}
    (hlow : first + sb.groupFirstBlockNo g ≤ x) (hhigh : x < first + sb.groupFirstBlockNo g + num) :
    sb.groupOf x = g ∧ fs.bitmap g (x - sb.groupFirstBlockNo g) = false ∧
      fs.inUse sb x = false := by
  have hend := h.claimed.range.2
  have hx : sb.groupFirstBlockNo g + (x - sb.groupFirstBlockNo g) = x :=
    Nat.add_sub_cancel' ((Nat.le_add_left _ _).trans hlow)
  have hbit : x - sb.groupFirstBlockNo g < sb.blocksPerGroup := by omega
  have hclear : fs.bitmap g (x - sb.groupFirstBlockNo g) = false :=
    h.claimed.clear _ (by omega) (by omega)
  obtain ⟨hgroup, hbitOf⟩ := sb.groupOf_add hbit g
  rw [hx] at hgroup hbitOf
  refine ⟨hgroup, hclear, ?_⟩
  rw [BlockFs.inUse, hgroup, hbitOf]
  exact hclear

/-- They are no system blocks. -/
lemma not_systemBlock (h : Took sb ino count g first num fs fs') (hwf : fs.WF sb) {x : ℕ}
    (hlow : first + sb.groupFirstBlockNo g ≤ x) (hhigh : x < first + sb.groupFirstBlockNo g + num)
    {g' : ℕ} (hg' : g' < sb.groupsCount) : ¬ SystemBlock sb (fs.desc g') x := by
  intro hsys
  obtain ⟨hfirst, hlast⟩ := hwf.mounted.systemBlock_range hg' hsys
  rw [BallocSb.groupFirstBlockNo_succ] at hlast
  have hbit : x - sb.groupFirstBlockNo g' < sb.blocksPerGroup := by omega
  obtain ⟨hgroup, -⟩ := sb.groupOf_add hbit g'
  rw [Nat.add_sub_cancel' hfirst] at hgroup
  obtain ⟨hgroup', hclear, -⟩ := h.inUse_eq_false hlow hhigh
  obtain rfl : g' = g := hgroup.symm.trans hgroup'
  rw [hwf.system g' hg' x hsys] at hclear
  cases hclear

/-- They do not lie behind the end. -/
lemma last_lt (h : Took sb ino count g first num fs fs') (hwf : fs.WF sb) :
    first + sb.groupFirstBlockNo g + num ≤ sb.sBlocksCount := by
  by_contra hend
  have hnum := h.claimed.num_pos
  have hrange := h.claimed.range.2
  have hclear := h.claimed.clear (first + num - 1) (by omega) (by omega)
  rw [hwf.padding g h.lt (first + num - 1) (by omega) (by omega)] at hclear
  cases hclear

/-- **Both tests of `ext2_new_blocks` are passed.** -/
lemma tests (h : Took sb ino count g first num fs fs') (hwf : fs.WF sb) :
    inSystemZone sb (fs'.desc g) (first + sb.groupFirstBlockNo g) num = false ∧
      ¬ (first + sb.groupFirstBlockNo g + num - 1 ≥ sb.sBlocksCount) := by
  have hnum := h.claimed.num_pos
  have hlast := h.last_lt hwf
  refine ⟨?_, by omega⟩
  rw [h.desc, ← Bool.not_eq_true]
  intro hzone
  obtain ⟨x, hsys, hlow, hhigh⟩ :=
    (inSystemZone_or_engulfs_iff hwf.mounted.itb hnum _ _).mp (Or.inl hzone)
  exact h.not_systemBlock hwf hlow hhigh h.lt hsys

/-- The free blocks of the group, and of all groups. -/
lemma zeros_eq (h : Took sb ino count g first num fs fs') :
    zeros (fs'.bitmap g) sb.blocksPerGroup + num = zeros (fs.bitmap g) sb.blocksPerGroup := by
  rw [h.claimed.bitmap]
  exact zeros_fill h.claimed.range.2 h.claimed.clear

lemma freeBlocks_eq (h : Took sb ino count g first num fs fs') :
    fs'.freeBlocks sb + num = fs.freeBlocks sb := by
  apply sum_range_eq_add h.lt h.zeros_eq
  intro j hj
  rw [h.others j hj]

/-- **Claimed blocks are allocated** once the counts are adjusted. -/
lemma allocated (h : Took sb ino count g first num fs fs') (hwf : fs.WF sb) (hcount : 0 < count) :
    Allocated sb count (first + sb.groupFirstBlockNo g) num fs (fs'.adjust g (-num)) := by
  refine ⟨h.claimed.num_pos, h.claimed.num_le.trans (max_le (le_refl _) hcount),
    ⟨(sb.le_groupFirstBlockNo g).trans (Nat.le_add_left _ _), h.last_lt hwf⟩,
    fun x hlow hhigh => (h.inUse_eq_false hlow hhigh).2.2,
    fun x hlow hhigh g' hg' => h.not_systemBlock hwf hlow hhigh hg', fun x hx => ?_, ?_⟩
  · rw [BlockFs.inUse, BlockFs.adjust_bitmap, BlockFs.inUse]
    have hbit := BallocSb.bitOf_lt hwf.mounted.blocks.1 x
    have hx := BallocSb.groupFirstBlockNo_add_bitOf hx
    rcases eq_or_ne (sb.groupOf x) g with hgroup | hgroup
    · rw [hgroup] at hx ⊢
      rw [h.claimed.bitmap, fill_apply_iff]
      apply or_congr_right
      constructor
      · rintro ⟨hlow, hhigh⟩
        constructor <;> omega
      · rintro ⟨hlow, hhigh⟩
        constructor <;> omega
    · rw [h.others _ hgroup]
      refine ⟨Or.inl, ?_⟩
      rintro (hset | ⟨hlow, hhigh⟩)
      · exact hset
      · exact absurd (h.inUse_eq_false hlow hhigh).1 hgroup
  · rw [BlockFs.freeBlocks, BlockFs.adjust_bitmap]
    exact h.freeBlocks_eq

/-- The file system is sound again. -/
lemma sound (h : Took sb ino count g first num fs fs') (hwf : fs.WF sb) :
    (fs'.adjust g (-num)).WF sb ∧ SameLayout fs (fs'.adjust g (-num)) := by
  have hlayout : SameLayout fs (fs'.adjust g (-num)) := by
    intro j
    rcases eq_or_ne j g with rfl | hj
    · rw [BlockFs.adjust_desc_self, h.desc]
      exact ⟨rfl, rfl, rfl⟩
    · rw [BlockFs.adjust_desc_ne _ _ _ hj, h.desc]
      exact ⟨rfl, rfl, rfl⟩
  have hzeros := h.zeros_eq
  refine ⟨hwf.of_group (g := g) hlayout h.wf (fun j hj => ?_) (fun j hj => ?_) ?_ ?_
      (fun j hj => ?_),
    hlayout⟩
  · rw [BlockFs.adjust_bitmap, h.others j hj]
  · rw [BlockFs.adjust_desc_ne _ _ _ hj, h.desc]
  · rw [BlockFs.adjust_desc_self, BlockFs.adjust_bitmap, h.desc]
    apply GroupDesc.groupAdjustBlocks_eq
    · rw [hwf.groupCount g h.lt]
      omega
    · exact (zeros_le _ _).trans_lt hwf.mounted.blocks.2
  · have hfree := h.freeBlocks_eq
    have hcounter := hwf.counter
    rw [← h.counter] at hcounter
    rw [BlockFs.freeBlocks, BlockFs.adjust_bitmap, ← BlockFs.freeBlocks]
    show fs'.freeblocksCounter + -num = _
    omega
  · rw [BlockFs.adjust_bitmap, h.claimed.bitmap]
    exact Or.inl ((fill_apply_iff _ _ _ _).mpr (Or.inl hj))

end Took

/-! ## The call -/

/-- **The whole search.** -/
lemma searchAll_cases (hwf : fs.WF sb) (rb : RbTree) (hg : g < sb.groupsCount)
    (hrsv : RsvOk ino fs.rsv myRsv) (goal windowsz : ℕ) (env : BallocEnv) {s : BlockFs × ℕ}
    (hs : Waiting ino count fs s) :
    (∃ s', searchAll rb env sb goal windowsz myRsv g s = some (.inl s') ∧
        Waiting ino count fs s' ∧ (myRsv = none → fs.freeBlocks sb = 0)) ∨
      ∃ r, searchAll rb env sb goal windowsz myRsv g s = some (.inr r) ∧
        Searched env sb ino count fs r := by
  rw [searchAll]
  split_ifs with hfree
  · have hbit : ∀ j ∈ some (sb.bitOf goal), j < sb.blocksPerGroup := by
      intro j hj
      rw [← Option.some.inj hj]
      exact BallocSb.bitOf_lt hwf.mounted.blocks.1 goal
    rcases tryGroup_cases hwf rb hg hrsv hbit env hs with ⟨s', htry, hs', -⟩ | ⟨r, htry, hr⟩
    · rw [htry]
      exact searchGroups_cases hwf rb hg hrsv windowsz env hs'
    · rw [htry]
      exact Or.inr ⟨r, rfl, hr⟩
  · exact searchGroups_cases hwf rb hg hrsv windowsz env hs

/-- What a search that begins at `retry_alloc` comes to. -/
def Outcome (env : BallocEnv) (sb : BallocSb) (ino count : ℕ) (fs : BlockFs) : NewBlocks → Prop
  | .blocks ret num fs' => (fs'.WF sb ∧ SameLayout fs fs') ∧ OnlyNode ino fs.rsv fs'.rsv ∧
      fs'.quota = fs.quota ∧ fs'.error = fs.error ∧ Allocated sb count ret num fs fs'
  | .error e performed fs' => Quiet ino fs fs' ∧ performed = false ∧
      (e = .enospc ∧ fs'.error = fs.error ∧ fs.freeBlocks sb = 0 ∨
        e = .eio ∧ ∃ g, env.readErr g = true)

/-- What holds at `retry_alloc`. -/
structure Retry (sb : BallocSb) (ino count : ℕ) (fs : BlockFs) (s : RetryState) : Prop where
  waiting : Waiting ino count fs (s.fs, s.num)
  groupNo : s.groupNo < sb.groupsCount
  rsv : RsvOk ino fs.rsv s.myRsv

/-- **A round at `retry_alloc`** ends the call, or gives the window up. -/
lemma retryAllocRound_advances (hwf : fs.WF sb) (rb : RbTree) (env : BallocEnv) (hcount : 0 < count)
    (goal : ℕ) (hgoal : goalGroup < sb.groupsCount) {s : RetryState}
    (hs : Retry sb ino count fs s) :
    Advances (retryAllocRound rb env sb goal goalGroup) (Retry sb ino count fs)
      (fun s => if s.myRsv.isSome then 1 else 0) (Outcome env sb ino count fs) s := by
  have hgroup := not_le.mpr hs.groupNo
  rw [Advances, retryAllocRound, if_neg hgroup]
  simp only
  -- the window is given up where it could not be booked anyway
  have hrsv : RsvOk ino fs.rsv (s.myRsv.filter fun i =>
      !decide ((s.fs.desc s.groupNo).bgFreeBlocksCount < s.windowsz ∧
        (s.fs.desc s.groupNo).bgFreeBlocksCount > 0 ∧
        (s.fs.rsv.node i).rsvIsEmpty = true)) :=
    fun i hi => hs.rsv i (Option.mem_filter_iff.mp hi).1
  have hsome : (s.myRsv.filter fun i =>
      !decide ((s.fs.desc s.groupNo).bgFreeBlocksCount < s.windowsz ∧
        (s.fs.desc s.groupNo).bgFreeBlocksCount > 0 ∧
        (s.fs.rsv.node i).rsvIsEmpty = true)).isSome = true → s.myRsv.isSome = true := by
    intro hsome
    obtain ⟨i, hi⟩ := Option.isSome_iff_exists.mp hsome
    exact Option.isSome_iff_exists.mpr ⟨i, (Option.mem_filter_iff.mp hi).1⟩
  generalize (s.myRsv.filter _) = myRsv at hrsv hsome ⊢
  rcases searchAll_cases hwf rb hs.groupNo hrsv goal s.windowsz env hs.waiting with
    ⟨⟨fs', num⟩, hsearch, hs', hfull⟩ | ⟨r, hsearch, hr⟩
  · rw [hsearch]
    simp only
    rcases myRsv with _ | i
    · refine Or.inr ⟨.error .enospc false fs', rfl, hs'.quiet, rfl,
        Or.inl ⟨rfl, hs'.error, hfull rfl⟩⟩
    · refine Or.inl ⟨⟨fs', none, 0, goalGroup, num⟩, rfl, ⟨hs', hgoal, fun i hi => nomatch hi⟩, ?_⟩
      rw [hsome rfl]
      exact Nat.zero_lt_one
  · rw [hsearch]
    rcases r with ⟨g, first, num, fs'⟩ | ⟨num, fs'⟩
    · have htook : Took sb ino count g first num fs fs' := hr
      obtain ⟨hzone, hlast⟩ := htook.tests hwf
      refine Or.inr ⟨.blocks (first + sb.groupFirstBlockNo g) num (fs'.adjust g (-num)), ?_,
        htook.sound hwf, htook.only, htook.quota, htook.error, htook.allocated hwf hcount⟩
      simp only [hzone]
      rw [if_neg (by decide), if_neg hlast]
    · exact Or.inr ⟨.error .eio false fs', rfl, hr.1, rfl, Or.inr ⟨rfl, hr.2⟩⟩

/-- The number of blocks that a call gives. -/
def taken : Except AllocError (ℕ × ℕ) → ℕ
  | .ok (_, num) => num
  | .error _ => 0

/-- What `ext2_new_blocks` comes to. -/
structure NewBlocksSpec (env : BallocEnv) (sb : BallocSb) (ino count : ℕ) (fs : BlockFs)
    (r : Except AllocError (ℕ × ℕ)) (fs' : BlockFs) : Prop where
  wf : fs'.WF sb
  layout : SameLayout fs fs'
  only : OnlyNode ino fs.rsv fs'.rsv
  error : fs'.error = fs.error ∨ ∃ g, env.readErr g = true
  quota : fs'.quota = Function.update fs.quota ino (fs.quota ino + taken r)
  ok : ∀ ret num, r = .ok (ret, num) → Allocated sb count ret num fs fs' ∧
    env.quotaErr = false ∧ ext2HasFreeBlocks env sb = true
  failed : ∀ e, r = .error e → fs'.bitmap = fs.bitmap ∧
    fs'.freeblocksCounter = fs.freeblocksCounter ∧
    (e = .edquot ∧ env.quotaErr = true ∨
      e = .enospc ∧ (ext2HasFreeBlocks env sb = false ∨ fs.freeBlocks sb = 0) ∨
      e = .eio ∧ ∃ g, env.readErr g = true)

/-- A call that fails, and gives back what it has charged. -/
lemma Quiet.failed (h : Quiet ino fs fs') (hwf : fs.WF sb)
    (herror : fs'.error = fs.error ∨ ∃ g, env.readErr g = true) {e : AllocError}
    (he : e = .edquot ∧ env.quotaErr = true ∨
      e = .enospc ∧ (ext2HasFreeBlocks env sb = false ∨ fs.freeBlocks sb = 0) ∨
      e = .eio ∧ ∃ g, env.readErr g = true) :
    NewBlocksSpec env sb ino count fs (.error e) fs' := by
  refine ⟨h.sound hwf, fun g => ?_, h.only, herror, ?_, (fun ret num hr => nomatch hr),
    fun e' he' => ⟨h.bitmap, h.counter, ?_⟩⟩
  · rw [h.desc]
    exact ⟨rfl, rfl, rfl⟩
  · rw [h.quota, taken, Nat.cast_zero, add_zero, Function.update_eq_self]
  · obtain rfl := Except.error.inj he'
    exact he

/-- The window that a call begins with. -/
lemma rsvOk_windowsz (hino : ino ≠ rsvWindowHead) (w : Reservations) :
    RsvOk ino w (if (if w.allocInfo ino = true then (w.node ino).rsvGoalSize % 65536 else 0) > 0
      then some ino else none) := by
  by_cases hinfo : w.allocInfo ino = true
  · rw [if_pos hinfo]
    split_ifs with hsize
    · intro i hi
      refine ⟨(Option.some.inj hi).symm, hino, hinfo, Nat.pos_of_ne_zero fun hzero => ?_⟩
      rw [hzero, Nat.zero_mod] at hsize
      exact absurd hsize (lt_irrefl 0)
    · exact fun i hi => nomatch hi
  · rw [if_neg hinfo, if_neg (lt_irrefl 0)]
    exact fun i hi => nomatch hi

/-- **`ext2_new_blocks`** ends, and gives free blocks or fails. -/
theorem ext2NewBlocks_spec (hwf : fs.WF sb) (rb : RbTree) (env : BallocEnv)
    (hino : ino ≠ rsvWindowHead) (hcount : 0 < count) (goal : ℕ) :
    ∃ r fs', ext2NewBlocks rb env sb fs ino goal count = some (r, fs') ∧
      NewBlocksSpec env sb ino count fs r fs' := by
  rw [ext2NewBlocks]
  by_cases hquota : env.quotaErr = true
  · refine ⟨.error .edquot, fs, if_pos hquota, ?_⟩
    exact (Quiet.refl ino hwf.rsv).failed hwf (Or.inl rfl) (Or.inl ⟨rfl, hquota⟩)
  · rw [if_neg hquota]
    simp only
    have hback : (fs.charge ino count).charge ino (-count) = fs := by
      rw [BlockFs.charge_charge, add_neg_cancel, BlockFs.charge_zero]
    by_cases hhas : ext2HasFreeBlocks env sb = false
    · rw [if_pos hhas, hback]
      exact ⟨_, _, rfl, (Quiet.refl ino hwf.rsv).failed hwf (Or.inl rfl)
        (Or.inr (Or.inl ⟨rfl, Or.inl hhas⟩))⟩
    · rw [if_neg hhas]
      have hgoal : sb.groupOf (if goal < sb.sFirstDataBlock ∨ goal ≥ sb.sBlocksCount then
          sb.sFirstDataBlock else goal) < sb.groupsCount := by
        apply hwf.mounted.groupOf_lt
        split_ifs with h
        · exact hwf.mounted.first
        · exact not_le.mp (not_or.mp h).2
      generalize (if goal < sb.sFirstDataBlock ∨ goal ≥ sb.sBlocksCount then sb.sFirstDataBlock
        else goal) = goal at hgoal ⊢
      have hcharged := hwf.charge ino count
      have hrsv := rsvOk_windowsz hino (fs.charge ino count).rsv
      generalize (if (fs.charge ino count).rsv.allocInfo ino = true then
        ((fs.charge ino count).rsv.node ino).rsvGoalSize % 65536 else 0) = windowsz at hrsv ⊢
      generalize (if windowsz > 0 then some ino else none) = myRsv at hrsv ⊢
      have hstart : Retry sb ino count (fs.charge ino count)
          ⟨fs.charge ino count, myRsv, windowsz, sb.groupOf goal, count⟩ :=
        ⟨⟨Quiet.refl ino hcharged.rsv, rfl, le_refl _⟩, hgoal, hrsv⟩
      obtain ⟨r, hloop, hr⟩ := loopFor_total
        (fun s hs => retryAllocRound_advances hcharged rb env hcount goal hgoal hs)
        (n := sb.groupsCount * sb.blocksPerGroup + 2) hstart
        (by simp only; split_ifs <;> omega)
      rw [hloop]
      rcases r with ⟨ret, num, fs'⟩ | ⟨e, performed, fs'⟩
      · obtain ⟨⟨hsound, hlayout⟩, honly, hq, herror, halloc⟩ := hr
        refine ⟨.ok (ret, num), fs'.charge ino (num - count), rfl, hsound.charge ino _, hlayout,
          honly, Or.inl herror, ?_, fun ret' num' hok => ?_, (fun e he => nomatch he)⟩
        · rw [BlockFs.charge, hq, BlockFs.charge]
          simp only [Function.update_self, Function.update_idem, taken]
          congr 1
          ring
        · simp only [Except.ok.injEq, Prod.mk.injEq] at hok
          obtain ⟨rfl, rfl⟩ := hok
          exact ⟨⟨halloc.num_pos, halloc.num_le, halloc.range, halloc.free, halloc.system,
            halloc.inUse, halloc.freeBlocks⟩, Bool.not_eq_true _ ▸ hquota,
            Bool.not_eq_false _ ▸ hhas⟩
      · obtain ⟨hquiet, rfl, hcause⟩ := hr
        refine ⟨.error e, fs'.charge ino (-count), rfl, ?_⟩
        have hquiet' : Quiet ino fs (fs'.charge ino (-count)) := by
          refine ⟨hquiet.bitmap, hquiet.desc, hquiet.counter, ?_, hquiet.wf, hquiet.only⟩
          rw [BlockFs.charge, hquiet.quota, BlockFs.charge]
          simp only [Function.update_self, Function.update_idem, add_neg_cancel_right,
            Function.update_eq_self]
        rcases hcause with ⟨rfl, herror, hfull⟩ | ⟨rfl, herr⟩
        · exact hquiet'.failed hwf (Or.inl herror) (Or.inr (Or.inl ⟨rfl, Or.inr hfull⟩))
        · exact hquiet'.failed hwf (Or.inr herr) (Or.inr (Or.inr ⟨rfl, herr⟩))

/-- **With readable bitmaps, blocks are given exactly where one is free**, unless the quota or the
blocks kept for root stand against it. -/
theorem ext2NewBlocks_ok_iff (hwf : fs.WF sb) (rb : RbTree) (env : BallocEnv)
    (hread : ∀ g, env.readErr g = false) (hino : ino ≠ rsvWindowHead) (hcount : 0 < count)
    (goal : ℕ) :
    (∃ ret num fs', ext2NewBlocks rb env sb fs ino goal count = some (.ok (ret, num), fs')) ↔
      env.quotaErr = false ∧ ext2HasFreeBlocks env sb = true ∧ 0 < fs.freeBlocks sb := by
  obtain ⟨r, fs', hcall, hspec⟩ := ext2NewBlocks_spec hwf rb env hino hcount goal
  constructor
  · rintro ⟨ret, num, fs'', hok⟩
    rw [hcall] at hok
    simp only [Option.some.injEq, Prod.mk.injEq] at hok
    obtain ⟨halloc, hquota, hhas⟩ := hspec.ok ret num hok.1
    refine ⟨hquota, hhas, ?_⟩
    have := halloc.freeBlocks
    exact (halloc.num_pos.trans_le (Nat.le_add_left _ _)).trans_eq this
  · rintro ⟨hquota, hhas, hfree⟩
    rcases r with e | ⟨ret, num⟩
    · obtain ⟨-, -, hcause⟩ := hspec.failed e rfl
      rcases hcause with ⟨-, h⟩ | ⟨-, h | h⟩ | ⟨-, g, h⟩
      · rw [hquota] at h
        cases h
      · rw [hhas] at h
        cases h
      · omega
      · rw [hread g] at h
        cases h
    · exact ⟨ret, num, fs', hcall⟩

/-- A small file system with free blocks. -/
theorem ext2NewBlocks_ok_iff_small :
    (∃ ret num fs', ext2NewBlocks RbTree.spine BallocEnv.calm smallSb smallFs 12 4 2 =
        some (.ok (ret, num), fs')) ↔
      BallocEnv.calm.quotaErr = false ∧ ext2HasFreeBlocks BallocEnv.calm smallSb = true ∧
        0 < smallFs.freeBlocks smallSb :=
  ext2NewBlocks_ok_iff smallFs_wf RbTree.spine BallocEnv.calm (fun _ => rfl) (by decide)
    (by decide) 4

end Comp3301.Ext3301
