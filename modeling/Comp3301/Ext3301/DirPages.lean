import Comp3301.Lib.Bytes
import Comp3301.Lib.Records
import Comp3301.Ext3301.Namei

/-!
# The file system: directory pages

The layout of directories in bytes (`a3/dir.c`): records of different lengths that fill chunks of
the size of a block, and the check that a page has to pass before it is used.

* A page is the memory of a page of the page cache. The functions return `none` when they would
  access a byte behind it.
* `Tiled` says that the records of a page fill it up to a limit and that each of them is well formed
  (`SlotOk`); `slotsOf` computes them. An entry is *live* if its inode is not zero.
* Sizes of directories are below `2 ^ 32`, the range of `ext2_last_byte`.
* `checkPage_iff`: whatever the bytes are, `ext2_check_page` stays inside the page, and it accepts
  it exactly when the records tile it.
-/

namespace Comp3301.Ext3301

open Comp3301.Lib

/-! ## Records -/

/-- What is read of the superblock: `s_blocksize_bits`, `s_inodes_count` and the feature
`FILETYPE`. Blocks are not larger than a page. -/
structure DirSb where
  blockBits : ℕ
  inodesCount : ℕ
  filetype : Bool
  min_le : 10 ≤ blockBits
  le_page : blockBits ≤ 12
  count_lt : inodesCount < 2 ^ 32

/-- `ext2_chunk_size`. -/
def DirSb.chunkSize (sb : DirSb) : ℕ := 2 ^ sb.blockBits

/-- `EXT2_DIR_REC_LEN`. -/
def dirRecLen (nameLen : ℕ) : ℕ := (nameLen + 8 + 3) / 4 * 4

/-- `EXT2_MAX_REC_LEN`. -/
def maxRecLen : ℕ := 2 ^ 16 - 1

/-- `ext2_rec_len_from_disk`. -/
def recLenFromDisk (dlen : ℕ) : ℕ := if dlen = maxRecLen then 2 ^ 16 else dlen

/-- `ext2_rec_len_to_disk`; `none` is `BUG_ON`. -/
def recLenToDisk (len : ℕ) : Option ℕ :=
  if len = 2 ^ 16 then some maxRecLen else if len ≤ 2 ^ 16 then some len else none

/-- The bytes of a page. -/
abbrev Page := ℕ → UInt8

/-- The head of a `struct ext2_dir_entry_2`. -/
structure Dirent where
  inode : ℕ
  recLen : ℕ
  nameLen : ℕ
  fileType : UInt8
  deriving DecidableEq, Repr

/-- The length of a record. -/
def Dirent.len (de : Dirent) : ℕ := recLenFromDisk de.recLen

/-- The head of the record at `p`. -/
def direntAt (page : Page) (p : ℕ) : Option Dirent :=
  if p + 8 ≤ pageSize then
    some ⟨leNat page p 4, leNat page (p + 4) 2, (page (p + 6)).toNat, page (p + 7)⟩
  else none

/-- The first `len` bytes of the name of the record at `p`. -/
def nameAt (page : Page) (p len : ℕ) : Option (List UInt8) :=
  if p + 8 + len ≤ pageSize then some (slice page (p + 8) len) else none

/-- The record at `p` with its place, and its length. -/
def slotAt (page : Page) (p : ℕ) : Option ((ℕ × Dirent) × ℕ) :=
  (direntAt page p).map fun de => ((p, de), de.len)

/-- What `ext2_check_page` asks of a record. -/
structure SlotOk (sb : DirSb) (a : ℕ × Dirent) : Prop where
  minimal : dirRecLen 1 ≤ a.2.len
  aligned : a.2.len % 4 = 0
  room : dirRecLen a.2.nameLen ≤ a.2.len
  inChunk : (a.1 + a.2.len - 1) / sb.chunkSize = a.1 / sb.chunkSize
  inumber : a.2.inode ≤ sb.inodesCount

/-- The records of the page fill it up to `limit`. -/
structure Tiled (sb : DirSb) (page : Page) (limit : ℕ) (as : List (ℕ × Dirent)) : Prop where
  packed : Packed (slotAt page) 0 as limit
  ok : ∀ a ∈ as, SlotOk sb a

/-- The records of a page up to `limit`. -/
def slotsOf (page : Page) (limit : ℕ) : List (ℕ × Dirent) := records (slotAt page) limit limit 0

lemma DirSb.chunkSize_pos (sb : DirSb) : 0 < sb.chunkSize := by
  unfold chunkSize
  positivity

lemma DirSb.le_chunkSize (sb : DirSb) : 1024 ≤ sb.chunkSize :=
  calc 1024 = 2 ^ 10 := by norm_num
    _ ≤ sb.chunkSize := Nat.pow_le_pow_right (by norm_num) sb.min_le

lemma DirSb.chunkSize_dvd (sb : DirSb) : sb.chunkSize ∣ pageSize := pow_dvd_pow 2 sb.le_page

lemma DirSb.chunkSize_le (sb : DirSb) : sb.chunkSize ≤ pageSize :=
  Nat.le_of_dvd (by norm_num [pageSize]) sb.chunkSize_dvd

lemma DirSb.four_dvd_chunkSize (sb : DirSb) : 4 ∣ sb.chunkSize :=
  pow_dvd_pow 2 (show 2 ≤ sb.blockBits from le_trans (by norm_num) sb.min_le)

lemma le_dirRecLen (nameLen : ℕ) : nameLen + 8 ≤ dirRecLen nameLen := by
  unfold dirRecLen
  omega

lemma dirRecLen_mod (nameLen : ℕ) : dirRecLen nameLen % 4 = 0 := Nat.mul_mod_left _ _

lemma dirRecLen_mono {m n : ℕ} (h : m ≤ n) : dirRecLen m ≤ dirRecLen n := by
  unfold dirRecLen
  omega

lemma dirRecLen_le {nameLen : ℕ} (h : nameLen ≤ 255) : dirRecLen nameLen ≤ 264 := by
  unfold dirRecLen
  omega

@[simp] lemma dirRecLen_one : dirRecLen 1 = 12 := rfl

section slots

variable {sb : DirSb} {page page' : Page} {p q limit : ℕ} {a : ℕ × Dirent}
  {as bs : List (ℕ × Dirent)}

lemma slotAt_eq_some_iff {len : ℕ} :
    slotAt page p = some (a, len) ↔ a.1 = p ∧ len = a.2.len ∧ direntAt page p = some a.2 := by
  obtain ⟨x, de⟩ := a
  simp only [slotAt, Option.map_eq_some_iff, Prod.mk.injEq]
  constructor
  · rintro ⟨de', hde, ⟨rfl, rfl⟩, rfl⟩
    exact ⟨rfl, rfl, hde⟩
  · rintro ⟨rfl, rfl, hde⟩
    exact ⟨de, hde, ⟨rfl, rfl⟩, rfl⟩

lemma slotAt_eq {de : Dirent} (h : direntAt page p = some de) :
    slotAt page p = some ((p, de), de.len) := slotAt_eq_some_iff.mpr ⟨rfl, rfl, h⟩

/-- The head of a record is in its first eight bytes. -/
lemma direntAt_congr (h : SameOn page page' p (p + 8)) : direntAt page p = direntAt page' p := by
  unfold direntAt
  rw [leNat_congr (h.mono (le_refl _) (by omega)), leNat_congr (h.mono (by omega) (by omega)),
    h (p + 6) (by omega) (by omega), h (p + 7) (by omega) (by omega)]

lemma SlotOk.pos (h : SlotOk sb a) : 0 < a.2.len := by
  have := h.minimal
  rw [dirRecLen_one] at this
  omega

/-- A record ends inside its chunk. -/
lemma SlotOk.end_le (h : SlotOk sb a) (hlt : a.1 < limit) (hlimit : sb.chunkSize ∣ limit) :
    a.1 + a.2.len ≤ limit := by
  obtain ⟨c, rfl⟩ := hlimit
  have hquot : a.1 / sb.chunkSize < c := Nat.div_lt_of_lt_mul hlt
  rw [← h.inChunk, Nat.div_lt_iff_lt_mul sb.chunkSize_pos, Nat.mul_comm c] at hquot
  have := h.pos
  omega

/-- A part of a record is in its chunk, too. -/
lemma SlotOk.part_inChunk (h : SlotOk sb a) {x len : ℕ} (hx : a.1 ≤ x) (hpos : 0 < len)
    (hend : x + len ≤ a.1 + a.2.len) : (x + len - 1) / sb.chunkSize = x / sb.chunkSize := by
  apply le_antisymm
  · calc (x + len - 1) / sb.chunkSize ≤ (a.1 + a.2.len - 1) / sb.chunkSize :=
          Nat.div_le_div_right (by omega)
      _ = a.1 / sb.chunkSize := h.inChunk
      _ ≤ x / sb.chunkSize := Nat.div_le_div_right hx
  · exact Nat.div_le_div_right (by omega)

/-- Lengths are stored as they are. -/
lemma SlotOk.recLen_eq (h : SlotOk sb a) (hlt : a.1 < limit) (hlimit : sb.chunkSize ∣ limit)
    (hpage : limit ≤ pageSize) : a.2.recLen = a.2.len := by
  have hle := h.end_le hlt hlimit
  have hsmall : a.2.len ≤ 4096 := by
    unfold pageSize at hpage
    omega
  unfold Dirent.len recLenFromDisk at hsmall ⊢
  split_ifs at hsmall ⊢
  · omega
  · rfl

/-- Records that have not been written to. -/
lemma packed_sameOn (h : Packed (slotAt page) p as q) (hok : ∀ a ∈ as, SlotOk sb a)
    (hsame : SameOn page page' p q) : Packed (slotAt page') p as q := by
  apply h.imp
  intro x a len hp hq ha hslot
  obtain ⟨rfl, rfl, hde⟩ := slotAt_eq_some_iff.mp hslot
  apply slotAt_eq_some_iff.mpr
  refine ⟨rfl, rfl, ?_⟩
  have hlen := (hok a ha).minimal
  rw [dirRecLen_one] at hlen
  rw [← hde]
  exact (direntAt_congr (hsame.mono hp (by omega))).symm

/-- One record. -/
lemma packed_one {de : Dirent} {len : ℕ} (h : direntAt page p = some de) (hlen : de.len = len)
    (hpos : 0 < len) : Packed (slotAt page) p [(p, de)] (p + len) := by
  subst hlen
  exact Packed.singleton (slotAt_eq h) hpos

/-- Where a record of a stretch lies. -/
lemma place_of_mem (h : Packed (slotAt page) p as q) (ha : a ∈ as) :
    p ≤ a.1 ∧ a.1 + a.2.len ≤ q ∧ direntAt page a.1 = some a.2 := by
  obtain ⟨x, len, hp, hq, -, hslot⟩ := h.exists_place ha
  obtain ⟨rfl, rfl, hde⟩ := slotAt_eq_some_iff.mp hslot
  exact ⟨hp, hq, hde⟩

/-- A stretch around one of its records. -/
lemma packed_middle (h : Packed (slotAt page) p (as ++ a :: bs) q) :
    Packed (slotAt page) p as a.1 ∧ direntAt page a.1 = some a.2 ∧ 0 < a.2.len ∧
      Packed (slotAt page) (a.1 + a.2.len) bs q := by
  obtain ⟨m, hleft, hrest⟩ := h.split
  obtain ⟨len, hslot, hpos, hright⟩ := hrest.cons_inv
  obtain ⟨rfl, rfl, hde⟩ := slotAt_eq_some_iff.mp hslot
  exact ⟨hleft, hde, hpos, hright⟩

lemma Tiled.unique (h : Tiled sb page limit as) (h' : Tiled sb page limit bs) : as = bs :=
  h.packed.unique h'.packed

/-- **The records of a tiled page are computed.** -/
lemma Tiled.slotsOf_eq (h : Tiled sb page limit as) : slotsOf page limit = as :=
  h.packed.records_eq (by have := h.packed.length_le; omega)

end slots

/-! ## Checking a page -/

/-- Where `ext2_check_page` goes when it finds something wrong. -/
inductive BadPage where
  | ebadsize
  | eshort
  | ealign
  | enamelen
  | espan
  | einumber
  | eend
  deriving DecidableEq, Repr

/-- A round of the loop of `ext2_check_page`. -/
def checkRound (sb : DirSb) (page : Page) (limit offs : ℕ) :
    Option (ℕ ⊕ Except BadPage Unit) :=
  if offs + dirRecLen 1 ≤ limit then
    match direntAt page offs with
    | none => none
    | some p =>
        let recLen := p.len
        if recLen < dirRecLen 1 then some (.inr (.error .eshort))
        else if recLen % 4 ≠ 0 then some (.inr (.error .ealign))
        else if recLen < dirRecLen p.nameLen then some (.inr (.error .enamelen))
        -- what is left of the two offsets' difference without the bits of a place in a chunk
        else if ((offs + recLen - 1) ^^^ offs) / sb.chunkSize ≠ 0 then
          some (.inr (.error .espan))
        else if sb.inodesCount < p.inode then some (.inr (.error .einumber))
        else some (.inl (offs + recLen))
  else if offs ≠ limit then some (.inr (.error .eend))
  else some (.inr (.ok ()))

/-- `ext2_check_page` of page `n` of a directory of `iSize` bytes. -/
def checkPage (sb : DirSb) (iSize : ℕ) (page : Page) (n : ℕ) : Option (Except BadPage Unit) :=
  if iSize / pageSize = n then
    let limit := iSize % pageSize
    if limit % sb.chunkSize ≠ 0 then some (.error .ebadsize)
    else if limit = 0 then some (.ok ())
    else loopFor (checkRound sb page limit) (pageSize + 1) 0
  else loopFor (checkRound sb page pageSize) (pageSize + 1) 0

/-- `ext2_last_byte`. The difference is unsigned. -/
def lastByte (iSize n : ℕ) : ℕ :=
  if n * pageSize ≤ iSize then min (iSize - n * pageSize) pageSize else pageSize

section check

variable {sb : DirSb} {page : Page} {limit offs : ℕ} {p : Dirent}

/-- The same bits apart from those of a place in a chunk. -/
lemma xor_div_chunkSize (sb : DirSb) (x y : ℕ) :
    (x ^^^ y) / sb.chunkSize = 0 ↔ x / sb.chunkSize = y / sb.chunkSize := by
  unfold DirSb.chunkSize
  rw [← Nat.shiftRight_eq_div_pow, ← Nat.shiftRight_eq_div_pow, ← Nat.shiftRight_eq_div_pow,
    Nat.shiftRight_xor_distrib]
  constructor
  · intro h
    rw [← Nat.xor_zero (x >>> sb.blockBits), ← Nat.xor_self (y >>> sb.blockBits),
      ← Nat.xor_assoc, h, Nat.zero_xor]
  · intro h
    rw [h, Nat.xor_self]

/-- A record that passes. -/
lemma checkRound_next (hoffs : offs + dirRecLen 1 ≤ limit) (hp : direntAt page offs = some p)
    (hok : SlotOk sb (offs, p)) : checkRound sb page limit offs = some (.inl (offs + p.len)) := by
  have hspan := (xor_div_chunkSize sb _ _).mpr hok.inChunk
  unfold checkRound
  rw [if_pos hoffs, hp]
  simp only
  rw [if_neg (Nat.not_lt.mpr hok.minimal), if_neg (fun h => h hok.aligned),
    if_neg (Nat.not_lt.mpr hok.room), if_neg (fun h => h hspan),
    if_neg (Nat.not_lt.mpr hok.inumber)]

/-- A record that does not pass. -/
lemma checkRound_bad (hoffs : offs + dirRecLen 1 ≤ limit) (hp : direntAt page offs = some p)
    (hbad : ¬ SlotOk sb (offs, p)) :
    ∃ e, checkRound sb page limit offs = some (.inr (.error e)) := by
  unfold checkRound
  rw [if_pos hoffs, hp]
  simp only
  split_ifs with hminimal haligned hroom hspan hinumber
  · exact ⟨_, rfl⟩
  · exact ⟨_, rfl⟩
  · exact ⟨_, rfl⟩
  · exact ⟨_, rfl⟩
  · exact ⟨_, rfl⟩
  · refine absurd ?_ hbad
    exact ⟨Nat.not_lt.mp hminimal, not_not.mp haligned, Nat.not_lt.mp hroom,
      (xor_div_chunkSize sb _ _).mp (not_not.mp hspan), Nat.not_lt.mp hinumber⟩

/-- Whether the records from `offs` on fill the page depends on the first of them and on those
behind it. -/
lemma exists_packed_iff (hp : direntAt page offs = some p) (hlt : offs < limit) :
    (∃ as, Packed (slotAt page) offs as limit ∧ ∀ a ∈ as, SlotOk sb a) ↔
      SlotOk sb (offs, p) ∧
        ∃ as, Packed (slotAt page) (offs + p.len) as limit ∧ ∀ a ∈ as, SlotOk sb a := by
  constructor
  · rintro ⟨as, has, hall⟩
    rcases as with _ | ⟨a, as⟩
    · exact absurd has.nil_inv hlt.ne
    · obtain ⟨len, hslot, -, has⟩ := has.cons_inv
      rw [slotAt_eq hp, Option.some_inj, Prod.mk.injEq] at hslot
      obtain ⟨rfl, rfl⟩ := hslot
      exact ⟨hall _ List.mem_cons_self, as, has, fun b hb => hall b (List.mem_cons_of_mem _ hb)⟩
  · rintro ⟨hok, as, has, hall⟩
    refine ⟨(offs, p) :: as, Packed.cons (slotAt_eq hp) hok.pos has, ?_⟩
    intro a ha
    rcases List.mem_cons.mp ha with rfl | ha
    · exact hok
    · exact hall a ha

/-- The loop, from the record at `offs` on: it stays in the page, and ends well exactly when the
records from there on fill the page up to the limit. -/
lemma checkLoop_spec (page : Page) (hlimit : sb.chunkSize ∣ limit) (hpage : limit ≤ pageSize)
    {n : ℕ} (hoffs : offs ≤ limit) (hn : limit - offs < n) :
    ∃ r, loopFor (checkRound sb page limit) n offs = some r ∧
      (r = .ok () ↔ ∃ as, Packed (slotAt page) offs as limit ∧ ∀ a ∈ as, SlotOk sb a) := by
  induction n generalizing offs with
  | zero => exact absurd hn (Nat.not_lt_zero _)
  | succ n ih =>
      by_cases hmore : offs + dirRecLen 1 ≤ limit
      · have hlt : offs < limit := by
          rw [dirRecLen_one] at hmore
          omega
        obtain ⟨p, hp⟩ : ∃ p, direntAt page offs = some p := by
          unfold direntAt
          rw [dirRecLen_one] at hmore
          rw [if_pos (by omega)]
          exact ⟨_, rfl⟩
        rw [exists_packed_iff hp hlt]
        by_cases hok : SlotOk sb (offs, p)
        · have hend := hok.end_le hlt hlimit
          have hpos := hok.pos
          rw [loopFor_next (checkRound_next hmore hp hok), and_iff_right hok]
          exact ih hend (by simp only at hpos; omega)
        · obtain ⟨e, hround⟩ := checkRound_bad hmore hp hok
          exact ⟨.error e, loopFor_stop hround n, iff_of_false (by simp) fun h => hok h.1⟩
      · rcases eq_or_ne offs limit with rfl | hne
        · have hround : checkRound sb page offs offs = some (.inr (.ok ())) := by
            rw [checkRound, if_neg hmore, if_neg (not_not.mpr rfl)]
          refine ⟨.ok (), loopFor_stop hround n, iff_of_true rfl ?_⟩
          exact ⟨[], Packed.nil _, by simp⟩
        · have hround : checkRound sb page limit offs = some (.inr (.error .eend)) := by
            rw [checkRound, if_neg hmore, if_pos hne]
          refine ⟨.error .eend, loopFor_stop hround n, iff_of_false (by simp) ?_⟩
          rintro ⟨as, has, hall⟩
          rcases as with _ | ⟨a, as⟩
          · exact hne has.nil_inv
          · have hplace := place_of_mem has List.mem_cons_self
            have hlen := (hall a List.mem_cons_self).minimal
            omega

lemma lastByte_le (iSize n : ℕ) : lastByte iSize n ≤ pageSize := by
  unfold lastByte
  split_ifs
  · exact min_le_right _ _
  · exact le_refl _

lemma lastByte_of_lt {iSize n : ℕ} (h : n < iSize / pageSize) : lastByte iSize n = pageSize := by
  unfold lastByte pageSize at *
  rw [if_pos (by omega)]
  omega

lemma lastByte_div (iSize : ℕ) : lastByte iSize (iSize / pageSize) = iSize % pageSize := by
  unfold lastByte pageSize
  rw [if_pos (by omega)]
  omega

lemma lt_dirPages_iff {iSize n : ℕ} : n < dirPages iSize ↔ n * pageSize < iSize := by
  unfold dirPages pageSize
  omega

/-- The check of a page of the directory is its loop, up to the last byte of the page. -/
lemma checkPage_eq (sb : DirSb) (page : Page) {iSize n : ℕ} (hn : n < dirPages iSize) :
    checkPage sb iSize page n =
      if sb.chunkSize ∣ lastByte iSize n then
        loopFor (checkRound sb page (lastByte iSize n)) (pageSize + 1) 0
      else some (.error .ebadsize) := by
  rw [lt_dirPages_iff] at hn
  unfold checkPage
  by_cases hlast : iSize / pageSize = n
  · subst hlast
    have hpos : iSize % pageSize ≠ 0 := by
      unfold pageSize at *
      omega
    rw [if_pos rfl, lastByte_div]
    simp only
    by_cases hdvd : sb.chunkSize ∣ iSize % pageSize
    · rw [if_neg (not_not.mpr (Nat.mod_eq_zero_of_dvd hdvd)), if_neg hpos, if_pos hdvd]
    · rw [if_pos (fun hzero => hdvd (Nat.dvd_of_mod_eq_zero hzero)), if_neg hdvd]
  · have hlt : n < iSize / pageSize := by
      unfold pageSize at *
      omega
    rw [if_neg hlast, lastByte_of_lt hlt, if_pos sb.chunkSize_dvd]

/-- A page that is tiled passes. -/
lemma checkPage_of_tiled {iSize n : ℕ} {as : List (ℕ × Dirent)} (hn : n < dirPages iSize)
    (hdvd : sb.chunkSize ∣ lastByte iSize n) (h : Tiled sb page (lastByte iSize n) as) :
    checkPage sb iSize page n = some (.ok ()) := by
  have hle := lastByte_le iSize n
  obtain ⟨r, hloop, hr⟩ :=
    checkLoop_spec page hdvd hle (Nat.zero_le _) (n := pageSize + 1) (by omega)
  rw [checkPage_eq sb page hn, if_pos hdvd, hloop, hr.mpr ⟨as, h.packed, h.ok⟩]

/-- **`ext2_check_page` accepts a page exactly when its records tile it**, and never looks outside
of it, whatever the bytes are. -/
theorem checkPage_iff (sb : DirSb) (page : Page) {iSize n : ℕ} (hn : n < dirPages iSize) :
    ∃ r, checkPage sb iSize page n = some r ∧
      (r = .ok () ↔
        sb.chunkSize ∣ lastByte iSize n ∧ ∃ as, Tiled sb page (lastByte iSize n) as) := by
  rw [checkPage_eq sb page hn]
  by_cases hdvd : sb.chunkSize ∣ lastByte iSize n
  · have hle := lastByte_le iSize n
    obtain ⟨r, hloop, hr⟩ :=
      checkLoop_spec page hdvd hle (Nat.zero_le _) (n := pageSize + 1) (by omega)
    rw [if_pos hdvd, hloop]
    refine ⟨r, rfl, hr.trans ?_⟩
    rw [and_iff_right hdvd]
    exact exists_congr fun as => ⟨fun h => ⟨h.1, h.2⟩, fun h => ⟨h.packed, h.ok⟩⟩
  · rw [if_neg hdvd]
    exact ⟨_, rfl, iff_of_false (by simp) fun h => hdvd h.1⟩

/-- Blocks of a kilobyte, with the feature `FILETYPE`. -/
def DirSb.kilobyte : DirSb where
  blockBits := 10
  inodesCount := 100
  filetype := true
  min_le := le_refl _
  le_page := by decide
  count_lt := by decide

/-- A page of zeros. -/
theorem checkPage_iff_zeros :
    ∃ r, checkPage DirSb.kilobyte 4096 (fun _ => 0) 0 = some r ∧
      (r = .ok () ↔ DirSb.kilobyte.chunkSize ∣ lastByte 4096 0 ∧
        ∃ as, Tiled DirSb.kilobyte (fun _ => 0) (lastByte 4096 0) as) :=
  checkPage_iff DirSb.kilobyte (fun _ => 0) (by decide)

end check

end Comp3301.Ext3301
