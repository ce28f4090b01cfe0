import Comp3301.Ext3301.Blocks
import Mathlib.Data.BitVec

/-!
# The file system: inodes on disk

`ext2_write_inode` and `ext2_iget` (`a3/inode.c`), and `ext2_max_size` (`a3/super.c`).

* `RawInode` is the inode on disk. The words `i_dir_acl` and `i_size_high` are the same one.
* The update of the superblock for the first large file is left out, and so is the zero behind the
  target of a symbolic link.
* In `ext2_write_inode` the test for a type that is neither regular nor immediate holds for every
  mode. So the upper half of the size is never stored, and a file of `2 ^ 32` bytes or more is read
  back with another size (`roundTrips_iff`).
-/

namespace Comp3301.Ext3301

/-! ## Flags -/

/-- A flag of `EXT2_I (inode)->i_flags` and the flag of `inode->i_flags` that goes with it: `SYNC`,
`APPEND`, `IMMUTABLE`, `NOATIME` and `DIRSYNC`, by their bits. -/
def flagBits : List (ℕ × ℕ) := [(3, 0), (5, 2), (4, 3), (7, 1), (16, 6)]

/-- The flag with the given bit. -/
def flag (bit : ℕ) : BitVec 32 := BitVec.twoPow 32 bit

/-- `ext2_get_inode_flags`: the flags after those of `inode->i_flags` have been taken over. -/
def getInodeFlags (flags vfsFlags : BitVec 32) : BitVec 32 :=
  flagBits.foldl (fun f bits => if vfsFlags &&& flag bits.2 ≠ 0 then f ||| flag bits.1 else f)
    (flags &&& ~~~(flag 3 ||| flag 5 ||| flag 4 ||| flag 7 ||| flag 16))

/-- `ext2_set_inode_flags`: the flags of `inode->i_flags`. -/
def setInodeFlags (flags vfsFlags : BitVec 32) : BitVec 32 :=
  flagBits.foldl (fun f bits => if flags &&& flag bits.1 ≠ 0 then f ||| flag bits.2 else f)
    (vfsFlags &&& ~~~(flag 0 ||| flag 2 ||| flag 3 ||| flag 1 ||| flag 6))

/-! ## Inodes -/

/-- The inode in memory: `struct inode` and `struct ext2_inode_info`. -/
structure InodeInfo where
  iMode : Mode
  iUid : BitVec 32
  iGid : BitVec 32
  iNlink : BitVec 32
  iSize : BitVec 64
  iAtime : BitVec 64
  iCtime : BitVec 64
  iMtime : BitVec 64
  iBlocks : BitVec 64
  iGeneration : BitVec 32
  vfsFlags : BitVec 32
  iRdev : BitVec 32
  iData : Fin 15 → BitVec 32
  iFlags : BitVec 32
  iFaddr : BitVec 32
  iFragNo : BitVec 8
  iFragSize : BitVec 8
  iFileAcl : BitVec 32
  iDirAcl : BitVec 32
  iDtime : BitVec 32
  deriving Inhabited

/-- `struct ext2_inode`. `iDirAcl` is also `i_size_high`. -/
structure RawInode where
  iMode : BitVec 16
  iUidLow : BitVec 16
  iUidHigh : BitVec 16
  iGidLow : BitVec 16
  iGidHigh : BitVec 16
  iLinksCount : BitVec 16
  iSize : BitVec 32
  iAtime : BitVec 32
  iCtime : BitVec 32
  iMtime : BitVec 32
  iDtime : BitVec 32
  iBlocks : BitVec 32
  iFlags : BitVec 32
  iFaddr : BitVec 32
  iFrag : BitVec 8
  iFsize : BitVec 8
  iFileAcl : BitVec 32
  iDirAcl : BitVec 32
  iGeneration : BitVec 32
  iBlock : Fin 15 → BitVec 32
  deriving Inhabited

/-- `S_ISCHR (mode) || S_ISBLK (mode)`. -/
def isDevice (m : Mode) : Bool := m &&& sIfmt = 0x2000 ∨ m &&& sIfmt = 0x6000

/-- The words in which `ext2_write_inode` stores the number of a device, given the words before:
the old encoding for numbers that fit it, the new one for others. -/
def deviceWords (rdev : BitVec 32) (old : Fin 15 → BitVec 32) : Fin 15 → BitVec 32 :=
  let major := rdev >>> 20
  let minor := rdev &&& 0xFFFFF
  if major.toNat < 256 ∧ minor.toNat < 256 then
    Function.update (Function.update old 0 (major <<< 8 ||| minor)) 1 0
  else
    let new := minor &&& 0xFF ||| major <<< 8 ||| (minor &&& ~~~0xFF) <<< 12
    Function.update (Function.update (Function.update old 0 0) 1 new) 2 0

/-- `fs_high2lowuid` and `fs_high2lowgid`: numbers that do not fit become 65534. -/
def high2low (id : BitVec 32) : BitVec 16 := if id.toNat < 2 ^ 16 then id.setWidth 16 else 65534

/-- `ext2_write_inode`, over the inode that is on disk. `noUid32` is the mount option. -/
def writeInode (noUid32 : Bool) (old : RawInode) (i : InodeInfo) : RawInode where
  iMode := i.iMode
  iUidLow := if noUid32 then high2low i.iUid else i.iUid.setWidth 16
  iUidHigh := if noUid32 ∨ i.iDtime ≠ 0 then 0 else (i.iUid >>> 16).setWidth 16
  iGidLow := if noUid32 then high2low i.iGid else i.iGid.setWidth 16
  iGidHigh := if noUid32 ∨ i.iDtime ≠ 0 then 0 else (i.iGid >>> 16).setWidth 16
  iLinksCount := i.iNlink.setWidth 16
  iSize := i.iSize.setWidth 32
  iAtime := i.iAtime.setWidth 32
  iCtime := i.iCtime.setWidth 32
  iMtime := i.iMtime.setWidth 32
  iDtime := i.iDtime
  iBlocks := i.iBlocks.setWidth 32
  iFlags := getInodeFlags i.iFlags i.vfsFlags
  iFaddr := i.iFaddr
  iFrag := i.iFragNo
  iFsize := i.iFragSize
  iFileAcl := i.iFileAcl
  iDirAcl :=
    if !sIsreg i.iMode || !sIsim i.iMode then i.iDirAcl else (i.iSize >>> 32).setWidth 32
  iGeneration := i.iGeneration
  iBlock := if isDevice i.iMode then deviceWords i.iRdev old.iBlock else i.iData

/-- `old_decode_dev` of the first word, or `new_decode_dev` of the second one. -/
def decodeDevice (block : Fin 15 → BitVec 32) : BitVec 32 :=
  let w := block 1
  if block 0 ≠ 0 then ((block 0 >>> 8) &&& 0xFF) <<< 20 ||| (block 0 &&& 0xFF)
  else ((w &&& 0xFFF00) >>> 8) <<< 20 ||| (w &&& 0xFF ||| (w >>> 12) &&& 0xFFF00)

/-- `ext2_iget`, of an inode that can be read and is not in memory. `none` when it has been
deleted. -/
def iget (noUid32 : Bool) (raw : RawInode) : Option InodeInfo :=
  let isFile := sIsreg raw.iMode || sIsim raw.iMode
  if raw.iLinksCount = 0 ∧ (raw.iMode = 0 ∨ raw.iDtime ≠ 0) then none
  else some {
    iMode := raw.iMode
    iUid := if noUid32 then raw.iUidLow.setWidth 32 else (raw.iUidHigh ++ raw.iUidLow : BitVec 32)
    iGid := if noUid32 then raw.iGidLow.setWidth 32 else (raw.iGidHigh ++ raw.iGidLow : BitVec 32)
    iNlink := raw.iLinksCount.setWidth 32
    iSize := if isFile then raw.iSize.setWidth 64 ||| raw.iDirAcl.setWidth 64 <<< 32
      else raw.iSize.setWidth 64
    iAtime := raw.iAtime.signExtend 64
    iCtime := raw.iCtime.signExtend 64
    iMtime := raw.iMtime.signExtend 64
    iBlocks := raw.iBlocks.setWidth 64
    iGeneration := raw.iGeneration
    vfsFlags := setInodeFlags raw.iFlags 0
    iRdev := if isFile || sIsdir raw.iMode || raw.iMode &&& sIfmt = 0xA000 then 0
      else decodeDevice raw.iBlock
    iData := raw.iBlock
    iFlags := raw.iFlags
    iFaddr := raw.iFaddr
    iFragNo := raw.iFrag
    iFragSize := raw.iFsize
    iFileAcl := raw.iFileAcl
    iDirAcl := if isFile then 0 else raw.iDirAcl
    iDtime := 0 }

/-! ## The largest file -/

/-- `ext2_max_size`, for blocks of `2 ^ bits` bytes; `maxLfs` is `MAX_LFS_FILESIZE`. -/
def ext2MaxSize (maxLfs bits : ℕ) : ℕ :=
  let metaBlocks := 1 + (1 + 2 ^ (bits - 2)) + (1 + 2 ^ (bits - 2) + 2 ^ (2 * (bits - 2)))
  let upperLimit := ((2 ^ 32 - 1) / 2 ^ (bits - 9) - metaBlocks) * 2 ^ bits
  let res := (ndirBlocks + 2 ^ (bits - 2) + 2 ^ (2 * (bits - 2)) + 2 ^ (3 * (bits - 2))) * 2 ^ bits
  min (min res upperLimit) maxLfs

/-! ## The round trip -/

/-- The flags of `inode->i_flags` are those of `EXT2_I (inode)->i_flags`. -/
def FlagsAgree (flags vfsFlags : BitVec 32) : Prop :=
  ∀ bits ∈ flagBits, vfsFlags &&& flag bits.2 ≠ 0 ↔ flags &&& flag bits.1 ≠ 0

/-- An inode of a file as the file system keeps it in memory: the link count is bounded by
`EXT2_LINK_MAX`, `i_dir_acl` is zero, and the flags agree. -/
structure InMemory (i : InodeInfo) : Prop where
  file : sIsreg i.iMode ∨ sIsim i.iMode
  linked : 0 < i.iNlink.toNat
  links : i.iNlink.toNat < 2 ^ 16
  dirAcl : i.iDirAcl = 0
  flags : FlagsAgree i.iFlags i.vfsFlags

/-- Taking over a flag that agrees. -/
lemma or_flag_of_agree {flags vfsFlags : BitVec 32} {bits : ℕ × ℕ}
    (h : vfsFlags &&& flag bits.2 ≠ 0 ↔ flags &&& flag bits.1 ≠ 0) (f : BitVec 32) :
    (if vfsFlags &&& flag bits.2 ≠ 0 then f ||| flag bits.1 else f) =
      f ||| (flags &&& flag bits.1) := by
  by_cases hset : flags &&& flag bits.1 = 0
  · rw [if_neg (by rw [h]; exact not_not.mpr hset), hset]
    exact BitVec.or_zero.symm
  · have hflag : flags &&& flag bits.1 = flag bits.1 := by
      unfold flag at hset ⊢
      rw [BitVec.and_twoPow] at hset ⊢
      split_ifs at hset ⊢ with hbit
      · rfl
      · exact absurd rfl hset
    rw [if_pos (h.mpr hset), hflag]

/-- Flags that agree are stored as they are. -/
lemma getInodeFlags_of_agree {flags vfsFlags : BitVec 32} (h : FlagsAgree flags vfsFlags) :
    getInodeFlags flags vfsFlags = flags := by
  have hstep := fun bits hbits f => or_flag_of_agree (h bits hbits) f
  have hall : ∀ m : BitVec 32, ∀ l : List (ℕ × ℕ), (∀ bits ∈ l, bits ∈ flagBits) →
      l.foldl (fun f bits => if vfsFlags &&& flag bits.2 ≠ 0 then f ||| flag bits.1 else f)
        (flags &&& m) = flags &&& l.foldl (fun f bits => f ||| flag bits.1) m := by
    intro m l
    induction l generalizing m with
    | nil => exact fun _ => rfl
    | cons bits l ih =>
        intro hl
        rw [List.foldl_cons, List.foldl_cons, hstep bits (hl bits List.mem_cons_self),
          ← BitVec.and_or_distrib_left]
        exact ih _ fun b hb => hl b (List.mem_cons_of_mem _ hb)
  rw [getInodeFlags, hall _ flagBits fun _ hb => hb]
  have hmask : flagBits.foldl (fun f bits => f ||| flag bits.1)
      (~~~(flag 3 ||| flag 5 ||| flag 4 ||| flag 7 ||| flag 16)) = BitVec.allOnes 32 := by
    decide
  rw [hmask, BitVec.and_allOnes]

/-- Writing the inode and reading it into a fresh one gives the same mode, size, block count, flags,
block of the ACL and data. -/
def RoundTrips (i : InodeInfo) : Prop :=
  ∀ (noUid32 : Bool) (old : RawInode), ∃ j, iget noUid32 (writeInode noUid32 old i) = some j ∧
    j.iMode = i.iMode ∧ j.iSize = i.iSize ∧ j.iBlocks = i.iBlocks ∧ j.iFlags = i.iFlags ∧
    j.iFileAcl = i.iFileAcl ∧ j.iData = i.iData

/-- Only the lower half is stored. -/
lemma setWidth_setWidth_eq_iff (x : BitVec 64) :
    (x.setWidth 32).setWidth 64 = x ↔ x.toNat < 2 ^ 32 := by
  rw [← BitVec.toNat_inj, BitVec.toNat_setWidth, BitVec.toNat_setWidth]
  have := x.isLt
  omega

/-- What is read back. -/
lemma roundTrips_iff_halves {i : InodeInfo} (h : InMemory i) :
    RoundTrips i ↔
      (i.iSize.setWidth 32).setWidth 64 = i.iSize ∧
        (i.iBlocks.setWidth 32).setWidth 64 = i.iBlocks := by
  have hfile : (sIsreg i.iMode || sIsim i.iMode) = true := by simpa using h.file
  have hlinks : ¬ (i.iNlink.setWidth 16 = 0) := by
    rw [← BitVec.toNat_inj, BitVec.toNat_setWidth]
    have := h.linked
    have := h.links
    change ¬ _ % _ = 0
    omega
  -- the test of `ext2_write_inode`, which no mode fails
  have htest : (!sIsreg i.iMode || !sIsim i.iMode) = true := by
    rcases h.file with hreg | him
    · rw [not_sIsim_of_sIsreg hreg]
      simp
    · rw [not_sIsreg_of_sIsim him]
      simp
  have hdevice : isDevice i.iMode = false := by
    rcases h.file with hreg | him
    · have htype : i.iMode &&& sIfmt = sIfreg := by simpa [sIsreg] using hreg
      rw [isDevice, htype]
      decide
    · have htype : i.iMode &&& sIfmt = sIfim := by simpa [sIsim] using him
      rw [isDevice, htype]
      decide
  have hhigh : (0 : BitVec 32).setWidth 64 <<< 32 = 0#64 := by decide
  unfold RoundTrips
  simp only [iget, writeInode, hlinks, false_and, if_false, Option.some.injEq, exists_eq_left',
    true_and, hfile, if_true, htest, h.dirAcl, getInodeFlags_of_agree h.flags, hdevice,
    Bool.false_eq_true, and_true, hhigh, BitVec.or_zero]
  exact ⟨fun hall => hall false default, fun hsame _ _ => hsame⟩

/-- **An inode is read back as it was written exactly if its size and its block count are below
`2 ^ 32`.** -/
theorem roundTrips_iff {i : InodeInfo} (h : InMemory i) :
    RoundTrips i ↔ i.iSize.toNat < 2 ^ 32 ∧ i.iBlocks.toNat < 2 ^ 32 := by
  rw [roundTrips_iff_halves h, setWidth_setWidth_eq_iff, setWidth_setWidth_eq_iff]

/-- A regular file of the given size. -/
def sampleInode (size : BitVec 64) : InodeInfo :=
  { (default : InodeInfo) with iMode := 0x81A4, iNlink := 1, iSize := size }

lemma inMemory_sampleInode (size : BitVec 64) : InMemory (sampleInode size) where
  file := Or.inl (show sIsreg 0x81A4 = true by decide)
  linked := show 0 < (1 : BitVec 32).toNat by decide
  links := show (1 : BitVec 32).toNat < 2 ^ 16 by decide
  dirAcl := rfl
  flags := show FlagsAgree 0 0 by
    unfold FlagsAgree
    decide

/-- A file of 5 bytes is read back. -/
theorem roundTrips_small : RoundTrips (sampleInode 5) :=
  (roundTrips_iff (inMemory_sampleInode 5)).mpr ⟨by decide, by decide⟩

/-- A file of `2 ^ 32` bytes is not, although it is not too large. -/
theorem not_roundTrips_large :
    InMemory (sampleInode (2 ^ 32)) ∧
      (sampleInode (2 ^ 32)).iSize.toNat ≤ ext2MaxSize (2 ^ 63 - 1) 10 ∧
      ¬ RoundTrips (sampleInode (2 ^ 32)) := by
  refine ⟨inMemory_sampleInode _, by decide, ?_⟩
  rw [roundTrips_iff_halves (inMemory_sampleInode _)]
  decide

end Comp3301.Ext3301
