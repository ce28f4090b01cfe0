import Comp3301.Ext3301.Hygiene
import Comp3301.Ext3301.Outgrow

/-!
# Truncating an immediate file

`ext2_setattr` (`a3/inode.c`) with a new size.

* `inode_setattr` of the kernel sets `i_size` and calls `ext2_truncate`, which turns away all types
  but regular files, directories and symbolic links: the bytes of an immediate file stay.
* What is read of an immediate file is the string at `i_data`. So the first `s` bytes are read
  exactly if they are followed by a zero, and what is written over them is read back exactly if it
  has no zero and is followed by one (`truncated_iff`).
-/

namespace Comp3301.Ext3301

open Comp3301.Lib

/-! ## Attributes -/

/-- `S_IFLNK`. -/
def sIflnk : Mode := 0xA000

/-- `S_ISLNK`. -/
def sIslnk (m : Mode) : Bool := m &&& sIfmt = sIflnk

/-- `EDQUOT`. -/
def edquot : ℤ := 122

/-- `struct iattr`: whether the owner or the group changes, the permissions and the size. -/
structure Iattr where
  owner : Bool
  permissions : Option Mode
  size : Option ℕ

/-- What `ext2_setattr` finds: what `inode_change_ok`, `vfs_dq_transfer`, `inode_setattr` and
`ext2_acl_chmod` answer, whether a symbolic link is kept in the inode, `IS_APPEND` and
`IS_IMMUTABLE`, and the block numbers after `ext2_truncate` has freed blocks. -/
structure AttrEnv where
  changeOk : ℤ
  dqTransfer : Bool
  inodeSetattr : ℤ
  aclChmod : ℤ
  fastSymlink : Bool
  isAppend : Bool
  isImmutable : Bool
  freed : Inode → Data

/-- `ext2_truncate`. -/
def truncate (env : AttrEnv) (ino : Inode) : Inode :=
  if !(sIsreg ino.iMode || sIsdir ino.iMode || sIslnk ino.iMode) then ino
  else if sIslnk ino.iMode && env.fastSymlink then ino
  else if env.isAppend || env.isImmutable then ino
  else { ino with data := env.freed ino }

/-- Setting `i_size`. -/
def setSize (s : ℕ) (ino : Inode) : Inode :=
  { ino with contents := ino.contents.take s ++ List.replicate (s - ino.contents.length) 0 }

/-- `inode_setattr`. -/
def inodeSetattr (env : AttrEnv) (attr : Iattr) (ino : Inode) : Inode :=
  let ino := match attr.size with
    | none => ino
    | some s => truncate env (setSize s ino)
  match attr.permissions with
  | none => ino
  | some p => { ino with iMode := (ino.iMode &&& sIfmt) ||| (p &&& sIallugo) }

/-- `ext2_setattr`. -/
def setattr (env : AttrEnv) (attr : Iattr) (ino : Inode) : ℤ × Inode :=
  if env.changeOk ≠ 0 then (env.changeOk, ino)
  else if attr.owner && env.dqTransfer then (-edquot, ino)
  else if env.inodeSetattr ≠ 0 then (env.inodeSetattr, ino)
  else (if attr.permissions.isSome then env.aclChmod else 0, inodeSetattr env attr ino)

/-- An immediate file that is truncated keeps its type and its bytes. -/
lemma setattr_immediate {env : AttrEnv} {attr : Iattr} {ino : Inode} {s : ℕ}
    (him : sIsim ino.iMode) (hsize : attr.size = some s) (hok : (setattr env attr ino).1 = 0) :
    sIsim (setattr env attr ino).2.iMode ∧ (setattr env attr ino).2.data = ino.data ∧
      (setattr env attr ino).2.contents = (setSize s ino).contents := by
  have htype := him
  simp only [sIsim, decide_eq_true_eq] at htype
  have htruncate : truncate env (setSize s ino) = setSize s ino := by
    refine if_pos ?_
    simp [setSize, sIsreg, sIsdir, sIslnk, htype, sIfim, sIfreg, sIfdir, sIflnk]
  have hset : (setattr env attr ino).2 = inodeSetattr env attr ino := by
    unfold setattr at hok ⊢
    split_ifs at hok ⊢ with hchange hquota herr
    · exact absurd hok hchange
    · exact absurd (show -edquot = 0 from hok) (by decide)
    · exact absurd hok herr
    · rfl
    · rfl
  rw [hset, inodeSetattr, hsize]
  simp only [htruncate]
  rcases attr.permissions with _ | p
  · exact ⟨him, rfl, rfl⟩
  · have hmask : sIfmt &&& sIfmt = sIfmt ∧ sIallugo &&& sIfmt = 0 := by decide
    have hmode : ((ino.iMode &&& sIfmt) ||| (p &&& sIallugo)) &&& sIfmt = sIfim := by
      rw [BitVec.and_or_distrib_right, BitVec.and_assoc, BitVec.and_assoc, hmask.1, hmask.2, htype]
      simp
    exact ⟨decide_eq_true hmode, rfl, rfl⟩

/-! ## The string at `i_data` -/

/-- The string is `x` exactly if `x` has no zero, stands at the start and is followed by a zero. -/
lemma Data.string_eq_iff (d : Data) (x : List UInt8) :
    d.string = x ↔ 0 ∉ x ∧ d.bytes.take x.length = x ∧ d.bytes[x.length]? = some 0 := by
  constructor
  · rintro rfl
    have hlt : d.strlen < d.bytes.length := by
      have := d.strlen_le
      rw [d.size]
      omega
    refine ⟨fun hzero => ?_, ?_, ?_⟩
    · have hne := List.all_eq_true.mp List.all_takeWhile 0 hzero
      simp at hne
    · exact (List.prefix_iff_eq_take.mp (List.takeWhile_prefix _)).symm
    · have hend := getElem?_length_takeWhile (p := fun b : UInt8 => b ≠ 0) d.bytes
      rw [show d.string.length = d.strlen from rfl, List.getElem?_eq_getElem hlt]
      have hzero := hend _ (List.getElem?_eq_getElem hlt)
      simpa using hzero
  · rintro ⟨hzero, htake, hend⟩
    obtain ⟨hlt, hget⟩ := List.getElem?_eq_some_iff.mp hend
    have hsplit : d.bytes = x ++ 0 :: d.bytes.drop (x.length + 1) := by
      rw [← hget, ← List.drop_eq_getElem_cons hlt, ← htake, List.length_take, min_eq_left hlt.le,
        List.take_append_drop]
    have hall : ∀ b ∈ x, decide (b ≠ 0) = true := by
      intro b hb
      simpa using fun heq : b = 0 => hzero (heq ▸ hb)
    rw [string, hsplit, List.takeWhile_append_of_pos hall, List.takeWhile_cons_of_neg (by decide),
      List.append_nil]

/-- A read from position 0 into a buffer that is large enough delivers the string. -/
lemma imRead_delivered (ino : Inode) {buf : List UInt8} (hbuf : 64 ≤ buf.length) :
    (imRead Env.good ino buf 0).delivered = ino.data.string := by
  have hle := ino.data.strlen_le
  have htake : ino.data.bytes.take ino.data.strlen = ino.data.string :=
    (List.prefix_iff_eq_take.mp (List.takeWhile_prefix _)).symm
  unfold imRead
  by_cases hempty : ino.data.strlen ≤ 0
  · rw [if_pos hempty]
    have hnil : ino.data.string = [] := List.eq_nil_of_length_eq_zero (Nat.le_zero.mp hempty)
    rw [hnil]
    rfl
  · rw [if_neg hempty, if_pos (by omega)]
    simp only [Env.good, if_true, Nat.sub_zero, Read.delivered, Int.toNat_natCast, htake]
    exact List.take_left' rfl

/-! ## Truncating -/

/-- The inode is an immediate file with the contents `c`. -/
structure ImContents (ino : Inode) (c : List UInt8) : Prop where
  isIm : sIsim ino.iMode
  length_le : c.length ≤ 60
  bytes : ino.data.bytes.take c.length = c
  ends : c.length < 60 → ino.data.bytes[c.length]? = some 0

/-- What should be read of a file that held `c` and has been truncated to `s` bytes: these bytes,
and, when `w` has been written at position 0, `w` with those of them that lie behind it. The buffers
are large enough. -/
structure Truncated (ino : Inode) (c : List UInt8) (s : ℕ) (w : List UInt8) : Prop where
  read : ∀ buf, 64 ≤ buf.length → (imRead Env.good ino buf 0).delivered = c.take s
  reread : ∀ buf, 64 ≤ buf.length → w.length ≤ buf.length →
    (plainRead byteArray Env.good (imWrite byteArray Env.good false ino w 0).inode buf
      0).delivered = w ++ (c.take s).drop w.length

section truncate

variable {ino : Inode} {c w : List UInt8} {s : ℕ}

/-- Reading after a write that fits. -/
lemma reread_short (him : sIsim ino.iMode) (hw : w.length ≤ 60) {buf : List UInt8}
    (hbuf : 64 ≤ buf.length) :
    (plainRead byteArray Env.good (imWrite byteArray Env.good false ino w 0).inode buf
      0).delivered = (ino.data.memcpy w hw).string := by
  have hwrite : (imWrite byteArray Env.good false ino w 0).inode =
      { ino with data := ino.data.memcpy w hw } := by
    rw [imWrite, imPrepare, dif_pos (by omega)]
  rw [hwrite, plainRead, if_pos him, imRead_delivered _ hbuf]

/-- Reading after a write that makes the file a regular one. -/
lemma reread_long (him : sIsim ino.iMode) (hw : 60 < w.length) (hsize : ino.contents.length ≤ 60)
    {buf : List UInt8} (hbuf : w.length ≤ buf.length) :
    (plainRead byteArray Env.good (imWrite byteArray Env.good false ino w 0).inode buf
      0).delivered = w := by
  have hwrite : (imWrite byteArray Env.good false ino w 0).inode =
      ⟨converted ino.iMode, ino.data.memset, ByteFile.put 0 ino.contents 0 w⟩ := by
    rw [imWrite, imPrepare, dif_neg (by omega), if_neg (by simp)]
    rfl
  have hput : ByteFile.put 0 ino.contents 0 w = w := by
    rw [ByteFile.put_of_ne_nil _ _ _ (List.ne_nil_of_length_pos (by omega)),
      List.drop_eq_nil_of_le (by omega)]
    simp
  rw [hwrite, plainRead, if_neg (by simp [not_sIsim_of_sIsreg (sIsreg_converted him)])]
  simp only [byteArray, hput, ByteFile.get_zero_of_length_le hbuf, Read.delivered,
    Int.toNat_natCast]
  exact List.take_left' rfl

lemma ImContents.take_eq (h : ImContents ino c) (hs : s ≤ c.length) :
    c.take s = ino.data.bytes.take s := by
  rw [← h.bytes, List.take_take, min_eq_left hs]

/-- The string after a write that fits. -/
lemma string_memcpy_iff (h : ImContents ino c) (hs : s ≤ c.length) (hw : w.length ≤ 60)
    (hzero : 0 ∉ c.take s) :
    (ino.data.memcpy w hw).string = w ++ (c.take s).drop w.length ↔
      0 ∉ w ∧ ino.data.bytes[max w.length s]? = some 0 := by
  have hlen : (w ++ (c.take s).drop w.length).length = max w.length s := by
    rw [List.length_append, List.length_drop, List.length_take_of_le hs]
    omega
  have htake : (ino.data.memcpy w hw).bytes.take (max w.length s) =
      w ++ (c.take s).drop w.length := by
    have hmax : max w.length s - w.length = s - w.length := by omega
    rw [Data.memcpy]
    simp only
    rw [List.take_append, List.take_of_length_le (le_max_left _ _), hmax, h.take_eq hs,
      List.drop_take]
  have hend : (ino.data.memcpy w hw).bytes[max w.length s]? = ino.data.bytes[max w.length s]? := by
    rw [Data.memcpy]
    simp only
    rw [List.getElem?_append_right (le_max_left _ _), List.getElem?_drop,
      Nat.add_sub_cancel' (le_max_left _ _)]
  rw [Data.string_eq_iff, hlen, htake, hend, List.mem_append, not_or]
  have hdrop : 0 ∉ (c.take s).drop w.length := fun hmem => hzero (List.mem_of_mem_drop hmem)
  simp [hdrop]

/-- What is read, in terms of the strings in the inode. -/
lemma truncated_iff_strings (him : sIsim ino.iMode) (hsize : ino.contents.length ≤ 60)
    (hs : (c.take s).length ≤ 60) :
    Truncated ino c s w ↔ ino.data.string = c.take s ∧
      ∀ hw : w.length ≤ 60, (ino.data.memcpy w hw).string = w ++ (c.take s).drop w.length := by
  constructor
  · rintro ⟨hread, hreread⟩
    have hbuf : 64 ≤ (List.replicate (64 + w.length) (0 : UInt8)).length := by
      rw [List.length_replicate]
      exact Nat.le_add_right _ _
    have hbuf' : w.length ≤ (List.replicate (64 + w.length) (0 : UInt8)).length := by
      rw [List.length_replicate]
      exact Nat.le_add_left _ _
    constructor
    · rw [← hread _ hbuf, imRead_delivered _ hbuf]
    · intro hw
      rw [← hreread _ hbuf hbuf', reread_short him hw hbuf]
  · rintro ⟨hread, hreread⟩
    constructor
    · intro buf hbuf
      rw [imRead_delivered _ hbuf, hread]
    · intro buf hbuf hbuf'
      by_cases hw : w.length ≤ 60
      · rw [reread_short him hw hbuf, hreread hw]
      · -- none of the old bytes lies behind `w`
        have hlong : 60 < w.length := Nat.not_le.mp hw
        rw [reread_long him hlong hsize hbuf', List.drop_eq_nil_of_le (hs.trans hlong.le),
          List.append_nil]

/-- **When a truncated immediate file has the bytes it should**, for all contents, sizes and bytes
written. -/
theorem truncated_iff (h : ImContents ino c) (hs : s ≤ c.length) (w : List UInt8) {env : AttrEnv}
    {attr : Iattr} (hsize : attr.size = some s) (hok : (setattr env attr ino).1 = 0) :
    Truncated (setattr env attr ino).2 c s w ↔
      0 ∉ c.take s ∧ ino.data.bytes[s]? = some 0 ∧
        (w.length ≤ 60 → 0 ∉ w ∧ ino.data.bytes[max w.length s]? = some 0) := by
  obtain ⟨him, hdata, hcontents⟩ := setattr_immediate h.isIm hsize hok
  have hs60 : s ≤ 60 := hs.trans h.length_le
  have hsize' : (setattr env attr ino).2.contents.length ≤ 60 := by
    rw [hcontents, setSize, List.length_append, List.length_take, List.length_replicate]
    omega
  have htake : (c.take s).length = s := List.length_take_of_le hs
  have hread : ino.data.string = c.take s ↔ 0 ∉ c.take s ∧ ino.data.bytes[s]? = some 0 := by
    rw [Data.string_eq_iff, htake, ← h.take_eq hs]
    simp
  rw [truncated_iff_strings him hsize' (htake.le.trans hs60), hdata, hread, and_assoc]
  refine and_congr_right fun hzero => and_congr_right fun _ => ?_
  exact forall_congr' fun hw => string_memcpy_iff h hs hw hzero

end truncate

/-- Nothing fails. -/
def AttrEnv.good : AttrEnv := ⟨0, false, 0, 0, false, false, false, fun ino => ino.data⟩

/-- An immediate file that holds `AB`. -/
def abFile : Inode := ⟨0xE1A4, ⟨65 :: 66 :: List.replicate 66 0, rfl, rfl⟩, []⟩

lemma imContents_abFile : ImContents abFile [65, 66] := ⟨rfl, by decide, rfl, fun _ => rfl⟩

/-- Setting the size to the length of the contents, and writing `C`. -/
theorem truncated_whole :
    Truncated (setattr AttrEnv.good ⟨false, none, some 2⟩ abFile).2 [65, 66] 2 [67] :=
  (@truncated_iff _ _ 2 imContents_abFile (by decide) [67] AttrEnv.good ⟨false, none, some 2⟩ rfl
    rfl).mpr ⟨by decide, rfl, fun _ => ⟨by decide, rfl⟩⟩

/-- Setting it to 1: `B` is still read. -/
theorem not_truncated_shorter :
    ImContents abFile [65, 66] ∧ (setattr AttrEnv.good ⟨false, none, some 1⟩ abFile).1 = 0 ∧
      ¬ Truncated (setattr AttrEnv.good ⟨false, none, some 1⟩ abFile).2 [65, 66] 1 [67] := by
  refine ⟨imContents_abFile, rfl, fun h => ?_⟩
  have hread := h.read (List.replicate 64 0) (by decide)
  exact absurd hread (by decide)

end Comp3301.Ext3301
