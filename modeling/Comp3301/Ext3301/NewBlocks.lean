import Comp3301.Ext3301.Balloc

/-!
# Allocating and freeing blocks (`balloc.c`)

The blocks of a file system are split into groups, each with a bitmap and a descriptor that counts
its free blocks; the mount counts the free blocks of all groups, and the quota what each inode has
been charged for.

* `ext2NewBlocks` looks for free blocks in the group of the goal and then in all groups, with the
  inode's reservation window first and without it in the end.
* `ext2FreeBlocks` clears the bits of a range, group by group.
* `BlockFs.WF`: all counts are exact, and the bits of the system blocks and those behind the end of
  the file system are set.
-/

namespace Comp3301.Ext3301

open Comp3301.Lib Reservations

/-! ## The file system -/

/-- What the code reads of the superblock and of `struct ext2_sb_info`. -/
structure BallocSb where
  sFirstDataBlock : ℕ
  sBlocksCount : ℕ
  sRBlocksCount : ℕ
  blocksPerGroup : ℕ
  itbPerGroup : ℕ
  groupsCount : ℕ

/-- `ext2_group_first_block_no`. -/
def BallocSb.groupFirstBlockNo (sb : BallocSb) (g : ℕ) : ℕ :=
  sb.sFirstDataBlock + g * sb.blocksPerGroup

/-- The group of a block. -/
def BallocSb.groupOf (sb : BallocSb) (block : ℕ) : ℕ :=
  (block - sb.sFirstDataBlock) / sb.blocksPerGroup

/-- The bit of a block in the bitmap of its group. -/
def BallocSb.bitOf (sb : BallocSb) (block : ℕ) : ℕ :=
  (block - sb.sFirstDataBlock) % sb.blocksPerGroup

/-- `struct ext2_group_desc`. -/
structure GroupDesc where
  bgBlockBitmap : ℕ
  bgInodeBitmap : ℕ
  bgInodeTable : ℕ
  bgFreeBlocksCount : ℕ

/-- The bitmaps and descriptors of the groups, `s_freeblocks_counter`, the blocks each inode is
charged for, the reservation windows, and whether `ext2_error` has been called. -/
structure BlockFs where
  bitmap : ℕ → Bits
  desc : ℕ → GroupDesc
  freeblocksCounter : ℤ
  quota : ℕ → ℤ
  rsv : Reservations
  error : Bool

/-- What happens around a call: the quota refuses, the value that
`percpu_counter_read_positive` gives, the caller may use the blocks reserved for root, the groups
whose bitmap cannot be read, those whose bitmap is up to date in memory, and whether the lock of the
windows is free when it is tried. -/
structure BallocEnv where
  quotaErr : Bool
  freeRead : ℕ
  privileged : Bool
  readErr : ℕ → Bool
  uptodate : ℕ → Bool
  trylock : Bool

/-- The errors of `ext2_new_blocks`. -/
inductive AllocError where
  | enospc
  | eio
  | edquot
  deriving DecidableEq

namespace BlockFs

/-- `ext2_error`. -/
def ext2Error (fs : BlockFs) : BlockFs := { fs with error := true }

/-- New contents of the bitmap and the descriptor of a group. -/
def setGroup (fs : BlockFs) (g : ℕ) (b : Bits) (d : GroupDesc) : BlockFs :=
  { fs with bitmap := Function.update fs.bitmap g b, desc := Function.update fs.desc g d }

/-- `vfs_dq_alloc_block` and `vfs_dq_free_block`: the inode is charged for `n` more blocks. -/
def charge (fs : BlockFs) (ino : ℕ) (n : ℤ) : BlockFs :=
  { fs with quota := Function.update fs.quota ino (fs.quota ino + n) }

/-- `release_blocks`, and the subtraction in `ext2_new_blocks`. -/
def count (fs : BlockFs) (n : ℤ) : BlockFs :=
  { fs with freeblocksCounter := fs.freeblocksCounter + n }

end BlockFs

/-- `group_adjust_blocks`; the count has 16 bits. -/
def GroupDesc.groupAdjustBlocks (d : GroupDesc) (count : ℤ) : GroupDesc :=
  { d with bgFreeBlocksCount := ((d.bgFreeBlocksCount + count) % 65536).toNat }

/-- The count of a group and that of the mount are adjusted. -/
def BlockFs.adjust (fs : BlockFs) (g : ℕ) (n : ℤ) : BlockFs :=
  (fs.setGroup g (fs.bitmap g) ((fs.desc g).groupAdjustBlocks n)).count n

/-- `ext2_valid_block_bitmap`. -/
def validBlockBitmap (sb : BallocSb) (d : GroupDesc) (g : ℕ) (b : Bits) : Bool :=
  let offset := d.bgInodeTable - sb.groupFirstBlockNo g
  b (d.bgBlockBitmap - sb.groupFirstBlockNo g) && b (d.bgInodeBitmap - sb.groupFirstBlockNo g) &&
    decide (nextZero b (offset + sb.itbPerGroup) offset ≥ offset + sb.itbPerGroup)

/-- `read_block_bitmap`: whether there is a bitmap to work with. -/
def readBlockBitmap (env : BallocEnv) (sb : BallocSb) (fs : BlockFs) (g : ℕ) : Bool × BlockFs :=
  if g ≥ sb.groupsCount then (false, fs.ext2Error)
  else if env.uptodate g then (true, fs)
  else if env.readErr g then (false, fs.ext2Error)
  else if validBlockBitmap sb (fs.desc g) g (fs.bitmap g) then (true, fs)
  else (true, fs.ext2Error)

/-- `in_range`. -/
def inRange (b first len : ℕ) : Bool := decide (b ≥ first ∧ b ≤ first + len - 1)

/-- The test for system zones of `ext2_free_blocks` and `ext2_new_blocks`. -/
def inSystemZone (sb : BallocSb) (d : GroupDesc) (block count : ℕ) : Bool :=
  inRange d.bgBlockBitmap block count || inRange d.bgInodeBitmap block count ||
    inRange block d.bgInodeTable sb.itbPerGroup ||
    inRange (block + count - 1) d.bgInodeTable sb.itbPerGroup

/-! ## Freeing -/

/-- The loop that clears the bits of a range: the bitmap, the number of bits that were set, and
whether one was clear already. -/
def clearBits (b : Bits) (bit : ℕ) : ℕ → Bits × ℕ × Bool
  | 0 => (b, 0, false)
  | n + 1 =>
      let (b, freed, err) := clearBits b bit n
      if b (bit + n) = false then (clearBit b (bit + n), freed, true)
      else (clearBit b (bit + n), freed + 1, err)

/-- A round at `do_more` of `ext2_free_blocks`; the state is the file system, the block, the number
of blocks and the number of blocks freed so far. -/
def freeRound (env : BallocEnv) (sb : BallocSb) (s : BlockFs × ℕ × ℕ × ℕ) :
    Option ((BlockFs × ℕ × ℕ × ℕ) ⊕ (BlockFs × ℕ)) :=
  let (fs, block, count, freed) := s
  let g := sb.groupOf block
  let bit := sb.bitOf block
  let overflow := if bit + count > sb.blocksPerGroup then bit + count - sb.blocksPerGroup else 0
  let count := count - overflow
  match readBlockBitmap env sb fs g with
  | (false, fs) => some (.inr (fs, freed))
  | (true, fs) =>
    if inSystemZone sb (fs.desc g) block count then some (.inr (fs.ext2Error, freed))
    else
      let (b, groupFreed, err) := clearBits (fs.bitmap g) bit count
      let fs := if err then fs.ext2Error else fs
      let fs := fs.setGroup g b ((fs.desc g).groupAdjustBlocks groupFreed)
      let freed := freed + groupFreed
      if overflow > 0 then some (.inl (fs, block + count, overflow, freed))
      else some (.inr (fs, freed))

/-- `ext2_free_blocks`. Every round but the last frees a block at least. -/
def ext2FreeBlocks (env : BallocEnv) (sb : BallocSb) (fs : BlockFs) (ino block count : ℕ) :
    Option BlockFs :=
  let result :=
    if block < sb.sFirstDataBlock ∨ block + count > sb.sBlocksCount then some (fs.ext2Error, 0)
    else loopFor (freeRound env sb) (count + 1) (fs, block, count, 0)
  result.map fun (fs, freed) => (fs.count freed).charge ino (-freed)

/-! ## Allocating -/

/-- What a search through the groups comes to: blocks of a group, or a bitmap that cannot be
read. -/
inductive GroupSearch where
  | allocated (g first num : ℕ) (fs : BlockFs)
  | ioError (num : ℕ) (fs : BlockFs)

/-- `ext2_try_to_allocate_with_rsv` in the group `g`. -/
def tryGroup (rb : RbTree) (env : BallocEnv) (sb : BallocSb) (g : ℕ) (grpGoal myRsv : Option ℕ)
    (s : BlockFs × ℕ) : Option ((BlockFs × ℕ) ⊕ GroupSearch) :=
  let (fs, num) := s
  match readBlockBitmap env sb fs g with
  | (false, fs) => some (.inr (.ioError num fs))
  | (true, fs) =>
    match ext2TryToAllocateWithRsv rb fs.rsv (sb.groupFirstBlockNo g) sb.blocksPerGroup
        (fs.bitmap g) grpGoal myRsv num env.trylock with
    | none => none
    | some (ret, num, b, w) =>
      let fs := { fs.setGroup g b (fs.desc g) with rsv := w }
      match ret with
      | some first => some (.inr (.allocated g first num fs))
      | none => some (.inl (fs, num))

/-- A round of the loop over the groups of `ext2_new_blocks`. -/
def groupRound (rb : RbTree) (env : BallocEnv) (sb : BallocSb) (windowsz : ℕ) (myRsv : Option ℕ)
    (g : ℕ) (s : BlockFs × ℕ) : Option ((BlockFs × ℕ) ⊕ GroupSearch) :=
  if myRsv.isSome ∧ (s.1.desc g).bgFreeBlocksCount ≤ windowsz / 2 then some (.inl s)
  else tryGroup rb env sb g none myRsv s

/-- The groups that the loop comes to in its next `n` rounds. -/
def groupsBehind (ngroups : ℕ) : ℕ → ℕ → List ℕ
  | 0, _ => []
  | n + 1, g =>
      let g := if g + 1 ≥ ngroups then 0 else g + 1
      g :: groupsBehind ngroups n g

/-- The search of `ext2_new_blocks`: at the goal, if its group `g` has free blocks, and then in all
groups. -/
def searchAll (rb : RbTree) (env : BallocEnv) (sb : BallocSb) (goal windowsz : ℕ)
    (myRsv : Option ℕ) (g : ℕ) (s : BlockFs × ℕ) : Option ((BlockFs × ℕ) ⊕ GroupSearch) :=
  let atGoal :=
    if (s.1.desc g).bgFreeBlocksCount > 0 then
      tryGroup rb env sb g (some (sb.bitOf goal)) myRsv s
    else some (.inl s)
  match atGoal with
  | some (.inl s) =>
      runOver (groupRound rb env sb windowsz myRsv) (groupsBehind sb.groupsCount sb.groupsCount g) s
  | r => r

/-- The state at `retry_alloc`. -/
structure RetryState where
  fs : BlockFs
  myRsv : Option ℕ
  windowsz : ℕ
  groupNo : ℕ
  num : ℕ

/-- What `ext2_new_blocks` comes to, before the quota is settled: the blocks, or an error, and
whether blocks have been taken for good. -/
inductive NewBlocks where
  | blocks (ret num : ℕ) (fs : BlockFs)
  | error (e : AllocError) (performedAllocation : Bool) (fs : BlockFs)

/-- A round at `retry_alloc` of `ext2_new_blocks`. -/
def retryAllocRound (rb : RbTree) (env : BallocEnv) (sb : BallocSb) (goal goalGroup : ℕ)
    (s : RetryState) : Option (RetryState ⊕ NewBlocks) :=
  if s.groupNo ≥ sb.groupsCount then some (.inr (.error .eio false s.fs.ext2Error))
  else
    let freeBlocks := (s.fs.desc s.groupNo).bgFreeBlocksCount
    let myRsv := s.myRsv.filter fun i =>
      !decide (freeBlocks < s.windowsz ∧ freeBlocks > 0 ∧ (s.fs.rsv.node i).rsvIsEmpty = true)
    match searchAll rb env sb goal s.windowsz myRsv s.groupNo (s.fs, s.num) with
    | none => none
    | some (.inl (fs, num)) =>
        if myRsv.isSome then some (.inl ⟨fs, none, 0, goalGroup, num⟩)
        else some (.inr (.error .enospc false fs))
    | some (.inr (.ioError _ fs)) => some (.inr (.error .eio false fs))
    | some (.inr (.allocated g first num fs)) =>
        let ret := first + sb.groupFirstBlockNo g
        if inSystemZone sb (fs.desc g) ret num then
          some (.inl ⟨fs.ext2Error, myRsv, s.windowsz, g, num⟩)
        else if ret + num - 1 ≥ sb.sBlocksCount then
          some (.inr (.error .enospc true fs.ext2Error))
        else
          some (.inr (.blocks ret num (fs.adjust g (-num))))

/-- `ext2_has_free_blocks`. -/
def ext2HasFreeBlocks (env : BallocEnv) (sb : BallocSb) : Bool :=
  !(decide (env.freeRead < sb.sRBlocksCount + 1) && !env.privileged)

/-- `ext2_new_blocks`: the block, the number of blocks and the error. A search that has to be
repeated has set a bit before, so the rounds suffice. -/
def ext2NewBlocks (rb : RbTree) (env : BallocEnv) (sb : BallocSb) (fs : BlockFs)
    (ino goal count : ℕ) : Option (Except AllocError (ℕ × ℕ) × BlockFs) :=
  if env.quotaErr then some (.error .edquot, fs)
  else
    let fs := fs.charge ino count
    let windowsz := if fs.rsv.allocInfo ino then (fs.rsv.node ino).rsvGoalSize % 65536 else 0
    let myRsv := if windowsz > 0 then some ino else none
    if ext2HasFreeBlocks env sb = false then some (.error .enospc, fs.charge ino (-count))
    else
      let goal := if goal < sb.sFirstDataBlock ∨ goal ≥ sb.sBlocksCount then sb.sFirstDataBlock
        else goal
      let groupNo := sb.groupOf goal
      (loopFor (retryAllocRound rb env sb goal groupNo)
        (sb.groupsCount * sb.blocksPerGroup + 2) ⟨fs, myRsv, windowsz, groupNo, count⟩).map fun
        | .blocks ret num fs => (.ok (ret, num), fs.charge ino (num - count))
        | .error e performed fs => (.error e, if performed then fs else fs.charge ino (-count))

/-! ## Invariants -/

/-- The sizes of a mount and its descriptors, as `ext2_fill_super` and `ext2_check_descriptors`
leave them. -/
structure Mounted (sb : BallocSb) (fs : BlockFs) : Prop where
  blocks : 0 < sb.blocksPerGroup ∧ sb.blocksPerGroup < 65536
  itb : 0 < sb.itbPerGroup
  first : sb.sFirstDataBlock < sb.sBlocksCount
  groups : sb.groupsCount =
    (sb.sBlocksCount - sb.sFirstDataBlock - 1) / sb.blocksPerGroup + 1
  blockBitmap : ∀ g < sb.groupsCount, sb.groupFirstBlockNo g ≤ (fs.desc g).bgBlockBitmap ∧
    (fs.desc g).bgBlockBitmap < sb.groupFirstBlockNo (g + 1)
  inodeBitmap : ∀ g < sb.groupsCount, sb.groupFirstBlockNo g ≤ (fs.desc g).bgInodeBitmap ∧
    (fs.desc g).bgInodeBitmap < sb.groupFirstBlockNo (g + 1)
  inodeTable : ∀ g < sb.groupsCount, sb.groupFirstBlockNo g ≤ (fs.desc g).bgInodeTable ∧
    (fs.desc g).bgInodeTable + sb.itbPerGroup ≤ sb.groupFirstBlockNo (g + 1)

/-- A block holds a bitmap or a part of an inode table of the group. -/
def SystemBlock (sb : BallocSb) (d : GroupDesc) (block : ℕ) : Prop :=
  block = d.bgBlockBitmap ∨ block = d.bgInodeBitmap ∨
    (d.bgInodeTable ≤ block ∧ block < d.bgInodeTable + sb.itbPerGroup)

/-- The block is marked as in use. -/
def BlockFs.inUse (sb : BallocSb) (fs : BlockFs) (block : ℕ) : Bool :=
  fs.bitmap (sb.groupOf block) (sb.bitOf block)

/-- The free blocks of all groups. -/
def BlockFs.freeBlocks (sb : BallocSb) (fs : BlockFs) : ℕ :=
  ∑ g ∈ Finset.range sb.groupsCount, zeros (fs.bitmap g) sb.blocksPerGroup

/-- All counts are exact, and no bitmap shows a system block, or a block behind the end, as free. -/
structure BlockFs.WF (sb : BallocSb) (fs : BlockFs) : Prop where
  mounted : Mounted sb fs
  rsv : fs.rsv.WF
  groupCount : ∀ g < sb.groupsCount,
    (fs.desc g).bgFreeBlocksCount = zeros (fs.bitmap g) sb.blocksPerGroup
  counter : fs.freeblocksCounter = fs.freeBlocks sb
  system : ∀ g < sb.groupsCount, ∀ block, SystemBlock sb (fs.desc g) block →
    fs.bitmap g (block - sb.groupFirstBlockNo g) = true
  padding : ∀ g < sb.groupsCount, ∀ j < sb.blocksPerGroup,
    sb.sBlocksCount ≤ sb.groupFirstBlockNo g + j → fs.bitmap g j = true

/-- One group of eight blocks, of which the first three hold the bitmaps and the inode table. -/
def smallSb : BallocSb where
  sFirstDataBlock := 1
  sBlocksCount := 9
  sRBlocksCount := 0
  blocksPerGroup := 8
  itbPerGroup := 1
  groupsCount := 1

/-- The other five blocks are free. -/
def smallFs : BlockFs where
  bitmap _ j := decide (j < 3)
  desc _ := ⟨1, 2, 3, 5⟩
  freeblocksCounter := 5
  quota _ := 0
  rsv := mounted
  error := false

lemma smallFs_wf : smallFs.WF smallSb := by
  have hgroup : ∀ {P : ℕ → Prop}, P 0 → ∀ g < smallSb.groupsCount, P g := by
    intro P h g hg
    rwa [Nat.lt_one_iff.mp hg]
  refine ⟨⟨by decide, by decide, by decide, by decide, hgroup (by decide), hgroup (by decide),
    hgroup (by decide)⟩, WF.mounted, hgroup (by decide), by decide, hgroup ?_, hgroup ?_⟩
  · rintro block (rfl | rfl | ⟨hlow, hhigh⟩)
    · decide
    · decide
    · obtain rfl : block = 3 := le_antisymm (Nat.lt_succ_iff.mp hhigh) hlow
      decide
  · intro j hj hend
    have hlt : smallSb.groupFirstBlockNo 0 + j < smallSb.sBlocksCount := Nat.add_lt_add_left hj 1
    exact absurd hend (not_le.mpr hlt)

/-- A call that nothing stands against. -/
def BallocEnv.calm : BallocEnv where
  quotaErr := false
  freeRead := 5
  privileged := false
  readErr _ := false
  uptodate _ := true
  trylock := true

/-! ## Blocks and bits -/

variable {sb : BallocSb} {fs fs' fs'' : BlockFs} {env : BallocEnv} {g block count ino : ℕ}

namespace BallocSb

lemma groupFirstBlockNo_succ (sb : BallocSb) (g : ℕ) :
    sb.groupFirstBlockNo (g + 1) = sb.groupFirstBlockNo g + sb.blocksPerGroup := by
  rw [groupFirstBlockNo, groupFirstBlockNo, Nat.add_mul, Nat.one_mul, Nat.add_assoc]

lemma le_groupFirstBlockNo (sb : BallocSb) (g : ℕ) :
    sb.sFirstDataBlock ≤ sb.groupFirstBlockNo g := Nat.le_add_right _ _

lemma bitOf_lt (h : 0 < sb.blocksPerGroup) (block : ℕ) : sb.bitOf block < sb.blocksPerGroup :=
  Nat.mod_lt _ h

/-- A block is the bit it has in its group. -/
lemma groupFirstBlockNo_add_bitOf (hfirst : sb.sFirstDataBlock ≤ block) :
    sb.groupFirstBlockNo (sb.groupOf block) + sb.bitOf block = block := by
  have hdiv := Nat.div_add_mod' (block - sb.sFirstDataBlock) sb.blocksPerGroup
  rw [groupFirstBlockNo, groupOf, bitOf]
  omega

/-- The bits of a group are its blocks. -/
lemma groupOf_add (sb : BallocSb) {j : ℕ} (hj : j < sb.blocksPerGroup) (g : ℕ) :
    sb.groupOf (sb.groupFirstBlockNo g + j) = g ∧ sb.bitOf (sb.groupFirstBlockNo g + j) = j := by
  have hsub : sb.groupFirstBlockNo g + j - sb.sFirstDataBlock = j + g * sb.blocksPerGroup := by
    rw [groupFirstBlockNo]
    omega
  have hpos : 0 < sb.blocksPerGroup := (Nat.zero_le j).trans_lt hj
  rw [groupOf, bitOf, hsub, Nat.add_mul_div_right _ _ hpos, Nat.add_mul_mod_self_right,
    Nat.div_eq_of_lt hj, Nat.mod_eq_of_lt hj, Nat.zero_add]
  exact ⟨rfl, rfl⟩

end BallocSb

namespace Mounted

/-- A block of the file system lies in one of its groups. -/
lemma groupOf_lt (h : Mounted sb fs) (hlast : block < sb.sBlocksCount) :
    sb.groupOf block < sb.groupsCount := by
  rw [h.groups, BallocSb.groupOf, Nat.lt_succ_iff]
  apply Nat.div_le_div_right
  have := h.first
  omega

/-- The system blocks of a group lie in it. -/
lemma systemBlock_range (h : Mounted sb fs) (hg : g < sb.groupsCount)
    (hsys : SystemBlock sb (fs.desc g) block) :
    sb.groupFirstBlockNo g ≤ block ∧ block < sb.groupFirstBlockNo (g + 1) := by
  have htable := h.inodeTable g hg
  rcases hsys with rfl | rfl | hin
  · exact h.blockBitmap g hg
  · exact h.inodeBitmap g hg
  · exact ⟨htable.1.trans hin.1, hin.2.trans_le htable.2⟩

end Mounted

section adjust

variable (fs : BlockFs) (g : ℕ) (n : ℤ)

@[simp] lemma BlockFs.adjust_bitmap : (fs.adjust g n).bitmap = fs.bitmap :=
  Function.update_eq_self g fs.bitmap

lemma BlockFs.adjust_desc_self : (fs.adjust g n).desc g = (fs.desc g).groupAdjustBlocks n :=
  Function.update_self g _ fs.desc

lemma BlockFs.adjust_desc_ne {g' : ℕ} (h : g' ≠ g) : (fs.adjust g n).desc g' = fs.desc g' :=
  Function.update_of_ne h _ fs.desc

end adjust

/-- A count of a group that stays within the group is exact. -/
lemma GroupDesc.groupAdjustBlocks_eq {d : GroupDesc} {n : ℤ} {m : ℕ}
    (h : (d.bgFreeBlocksCount : ℤ) + n = m) (hm : m < 65536) :
    (d.groupAdjustBlocks n).bgFreeBlocksCount = m := by
  rw [GroupDesc.groupAdjustBlocks, h,
    Int.emod_eq_of_lt (Int.natCast_nonneg m) (by exact_mod_cast hm), Int.toNat_natCast]

/-- The layout of the groups is the same. -/
def SameLayout (fs fs' : BlockFs) : Prop :=
  ∀ g, (fs'.desc g).bgBlockBitmap = (fs.desc g).bgBlockBitmap ∧
    (fs'.desc g).bgInodeBitmap = (fs.desc g).bgInodeBitmap ∧
    (fs'.desc g).bgInodeTable = (fs.desc g).bgInodeTable

namespace SameLayout

lemma refl (fs : BlockFs) : SameLayout fs fs := fun _ => ⟨rfl, rfl, rfl⟩

lemma trans (h : SameLayout fs fs') (h' : SameLayout fs' fs'') : SameLayout fs fs'' :=
  fun g => ⟨(h' g).1.trans (h g).1, (h' g).2.1.trans (h g).2.1, (h' g).2.2.trans (h g).2.2⟩

lemma systemBlock_iff (h : SameLayout fs fs') (g block : ℕ) :
    SystemBlock sb (fs'.desc g) block ↔ SystemBlock sb (fs.desc g) block := by
  rw [SystemBlock, SystemBlock, (h g).1, (h g).2.1, (h g).2.2]

lemma mounted (h : SameLayout fs fs') (hm : Mounted sb fs) : Mounted sb fs' := by
  refine ⟨hm.blocks, hm.itb, hm.first, hm.groups, fun g hg => ?_, fun g hg => ?_, fun g hg => ?_⟩
  · rw [(h g).1]
    exact hm.blockBitmap g hg
  · rw [(h g).2.1]
    exact hm.inodeBitmap g hg
  · rw [(h g).2.2]
    exact hm.inodeTable g hg

end SameLayout

/-- The charges do not matter. -/
lemma BlockFs.WF.charge (h : fs.WF sb) (ino : ℕ) (n : ℤ) : (fs.charge ino n).WF sb :=
  ⟨SameLayout.mounted (show SameLayout fs _ from fun _ => ⟨rfl, rfl, rfl⟩) h.mounted, h.rsv,
    h.groupCount, h.counter, h.system, h.padding⟩

/-- Nor does an error that has been reported. -/
lemma BlockFs.WF.ext2Error (h : fs.WF sb) : fs.ext2Error.WF sb :=
  ⟨SameLayout.mounted (show SameLayout fs _ from fun _ => ⟨rfl, rfl, rfl⟩) h.mounted, h.rsv,
    h.groupCount, h.counter, h.system, h.padding⟩

lemma BlockFs.charge_charge (fs : BlockFs) (ino : ℕ) (m n : ℤ) :
    (fs.charge ino m).charge ino n = fs.charge ino (m + n) := by
  rw [BlockFs.charge, BlockFs.charge, BlockFs.charge]
  simp only [Function.update_self, Function.update_idem, add_assoc]

lemma BlockFs.charge_zero (fs : BlockFs) (ino : ℕ) : fs.charge ino 0 = fs := by
  rw [BlockFs.charge, add_zero, Function.update_eq_self]

/-- A file system stays sound when one group changes, as long as its counts are exact again and the
bits of its system blocks and behind the end are set. -/
lemma BlockFs.WF.of_group (h : fs.WF sb) (hlayout : SameLayout fs fs') (hrsv : fs'.rsv.WF)
    (hbitmap : ∀ j, j ≠ g → fs'.bitmap j = fs.bitmap j)
    (hdesc : ∀ j, j ≠ g → fs'.desc j = fs.desc j)
    (hcount : (fs'.desc g).bgFreeBlocksCount = zeros (fs'.bitmap g) sb.blocksPerGroup)
    (hcounter : fs'.freeblocksCounter = fs'.freeBlocks sb)
    (hkeep : ∀ j, fs.bitmap g j = true → fs'.bitmap g j = true ∨
      (j < sb.blocksPerGroup ∧ sb.groupFirstBlockNo g + j < sb.sBlocksCount ∧
        ¬ SystemBlock sb (fs.desc g) (sb.groupFirstBlockNo g + j))) : fs'.WF sb := by
  refine ⟨hlayout.mounted h.mounted, hrsv, fun k hk => ?_, hcounter, fun k hk block hsys => ?_,
    fun k hk j hj hend => ?_⟩
  · rcases eq_or_ne k g with rfl | hne
    · exact hcount
    · rw [hdesc k hne, hbitmap k hne]
      exact h.groupCount k hk
  · rw [hlayout.systemBlock_iff] at hsys
    rcases eq_or_ne k g with rfl | hne
    · rcases hkeep _ (h.system k hk block hsys) with hset | ⟨-, -, hnot⟩
      · exact hset
      · rw [Nat.add_sub_cancel' (h.mounted.systemBlock_range hk hsys).1] at hnot
        exact absurd hsys hnot
    · rw [hbitmap k hne]
      exact h.system k hk block hsys
  · rcases eq_or_ne k g with rfl | hne
    · rcases hkeep j (h.padding k hk j hj hend) with hset | ⟨-, hlt, -⟩
      · exact hset
      · exact absurd hend (not_le.mpr hlt)
    · rw [hbitmap k hne]
      exact h.padding k hk j hj hend

/-- A sum over the groups changes with one of them. -/
lemma sum_range_eq_add {f f' : ℕ → ℕ} {n g k : ℕ} (hg : g < n) (hf : f' g + k = f g)
    (hother : ∀ j, j ≠ g → f' j = f j) :
    (∑ j ∈ Finset.range n, f' j) + k = ∑ j ∈ Finset.range n, f j := by
  have hmem : g ∈ Finset.range n := Finset.mem_range.mpr hg
  have hrest : ∑ j ∈ (Finset.range n).erase g, f' j = ∑ j ∈ (Finset.range n).erase g, f j :=
    Finset.sum_congr rfl fun j hj => hother j (Finset.ne_of_mem_erase hj)
  have hsum := Finset.add_sum_erase _ f hmem
  have hsum' := Finset.add_sum_erase _ f' hmem
  omega

/-! ## System zones -/

/-- The range reaches over both ends of the inode table. -/
def Engulfs (sb : BallocSb) (d : GroupDesc) (block count : ℕ) : Prop :=
  block < d.bgInodeTable ∧ d.bgInodeTable + sb.itbPerGroup < block + count

lemma inRange_iff {b first len : ℕ} (hlen : 0 < len) :
    inRange b first len = true ↔ first ≤ b ∧ b < first + len := by
  rw [inRange, decide_eq_true_iff]
  omega

/-- **The test for system zones** finds every range with a system block in it, but for those that
reach over both ends of the inode table. -/
theorem inSystemZone_or_engulfs_iff (hitb : 0 < sb.itbPerGroup) (hcount : 0 < count)
    (d : GroupDesc) (block : ℕ) :
    (inSystemZone sb d block count = true ∨ Engulfs sb d block count) ↔
      ∃ x, SystemBlock sb d x ∧ block ≤ x ∧ x < block + count := by
  rw [inSystemZone, Bool.or_eq_true, Bool.or_eq_true, Bool.or_eq_true, inRange_iff hcount,
    inRange_iff hcount, inRange_iff hitb, inRange_iff hitb, Engulfs]
  constructor
  · rintro ((((h | h) | h) | h) | h)
    · exact ⟨_, Or.inl rfl, h⟩
    · exact ⟨_, Or.inr (Or.inl rfl), h⟩
    · exact ⟨block, Or.inr (Or.inr h), le_refl _, Nat.lt_add_of_pos_right hcount⟩
    · exact ⟨block + count - 1, Or.inr (Or.inr h), by omega, by omega⟩
    · exact ⟨d.bgInodeTable, Or.inr (Or.inr ⟨le_refl _, Nat.lt_add_of_pos_right hitb⟩), h.1.le,
        by omega⟩
  · rintro ⟨x, rfl | rfl | hin, hx⟩
    · exact Or.inl (Or.inl (Or.inl (Or.inl hx)))
    · exact Or.inl (Or.inl (Or.inl (Or.inr hx)))
    · by_cases hfirst : d.bgInodeTable ≤ block
      · exact Or.inl (Or.inl (Or.inr ⟨hfirst, by omega⟩))
      · by_cases hlast : block + count - 1 < d.bgInodeTable + sb.itbPerGroup
        · exact Or.inl (Or.inr ⟨by omega, hlast⟩)
        · exact Or.inr ⟨not_le.mp hfirst, by omega⟩

/-! ## Reading a bitmap -/

namespace BlockFs.WF

/-- A bitmap of a sound file system passes the check. -/
lemma validBlockBitmap (h : fs.WF sb) (hg : g < sb.groupsCount) :
    validBlockBitmap sb (fs.desc g) g (fs.bitmap g) = true := by
  have hbitmap := h.system g hg _ (Or.inl rfl)
  have hinode := h.system g hg _ (Or.inr (Or.inl rfl))
  have htable := h.mounted.inodeTable g hg
  rw [Ext3301.validBlockBitmap, hbitmap, hinode, Bool.and_self, Bool.true_and, decide_eq_true_iff]
  rcases nextZero_cases (fs.bitmap g)
      ((fs.desc g).bgInodeTable - sb.groupFirstBlockNo g + sb.itbPerGroup)
      ((fs.desc g).bgInodeTable - sb.groupFirstBlockNo g) with ⟨hlow, hhigh, hclear, -⟩ | ⟨heq, -⟩
  · -- a clear bit would be one of the inode table
    generalize nextZero (fs.bitmap g)
      ((fs.desc g).bgInodeTable - sb.groupFirstBlockNo g + sb.itbPerGroup)
      ((fs.desc g).bgInodeTable - sb.groupFirstBlockNo g) = j at hlow hhigh hclear
    have hset := h.system g hg (sb.groupFirstBlockNo g + j)
      (Or.inr (Or.inr ⟨by omega, by omega⟩))
    rw [Nat.add_sub_cancel_left, hclear] at hset
    cases hset
  · exact heq.ge

end BlockFs.WF

/-- **Reading a bitmap** that passes the check changes nothing, or fails. -/
lemma readBlockBitmap_cases (hg : g < sb.groupsCount)
    (hvalid : validBlockBitmap sb (fs.desc g) g (fs.bitmap g) = true) (env : BallocEnv) :
    readBlockBitmap env sb fs g = (true, fs) ∨
      readBlockBitmap env sb fs g = (false, fs.ext2Error) ∧ env.readErr g = true := by
  rw [readBlockBitmap, if_neg (not_le.mpr hg), hvalid]
  simp only [reduceIte]
  split_ifs with huptodate herr
  · exact Or.inl rfl
  · exact Or.inr ⟨rfl, herr⟩
  · exact Or.inl rfl

end Comp3301.Ext3301
