import Comp3301.Ext3301.Encrypt
import Comp3301.Ext3301.Paths

/-!
# Moving files into and out of `/encrypt`

* `KeepsPlaintext` says that reading the whole file gives the same bytes under the new name as under
  the old one.
* `crypto`, which converts a regular file on such a move, only touches the first byte of every page
  (`getElem?_crypto`); an immediate file is not converted.
* `keepsPlaintext_iff`: the exact condition.
-/

namespace Comp3301.Ext3301

open Comp3301.Lib

/-! ## The tests for `/encrypt` -/

/-- The composed path is `/encrypt` exactly in that directory: only the root has a slash in its
name. -/
lemma dirPath_eq_encryptDir (d : Dentry) : d.dirPath = encryptDir ↔ d.inEncrypt := by
  rw [← d.renameTest_tree, ← d.syncTest_tree]
  exact DentryTree.renameTest_iff.trans DentryTree.syncTest_iff.symm

/-- The file crosses the boundary. -/
lemma Rename.crosses_iff (c : Rename) :
    c.crosses ↔ c.oldDentry.inEncrypt ≠ c.newDentry.inEncrypt := by
  simp only [Rename.crosses, ne_eq, dirPath_eq_encryptDir, decide_eq_true_eq]
  cases c.oldDentry.inEncrypt <;> cases c.newDentry.inEncrypt <;> simp

/-! ## Conversion -/

lemma crypt_eq_self_iff (key b : UInt8) : crypt key b = b ↔ key = 0 ∨ b = 0 := by
  unfold crypt
  by_cases hb : b = 0
  · simp [hb]
  · rw [if_pos hb]
    constructor
    · intro h
      have hkey := congrArg (b ^^^ ·) h
      simp only [← UInt8.xor_assoc, UInt8.xor_self, UInt8.zero_xor] at hkey
      exact Or.inl hkey
    · rintro (rfl | h)
      · exact UInt8.xor_zero
      · exact absurd h hb

/-- What the first `n` rounds of `crypto` have changed. -/
lemma getElem?_cryptoLoop (key : UInt8) (f : List UInt8) (n k : ℕ) :
    ((List.range n).foldl (fun f i => f.modify (i * pageSize) (crypt key)) f)[k]? =
      f[k]?.map fun b => if pageSize ∣ k ∧ k < n * pageSize then crypt key b else b := by
  induction n with
  | zero => simp
  | succ n ih =>
      rw [List.range_succ, List.foldl_append, List.foldl_cons, List.foldl_nil,
        List.getElem?_modify, ih]
      by_cases hk : n * pageSize = k
      · subst hk
        have hlt : n * pageSize < (n + 1) * pageSize :=
          Nat.mul_lt_mul_of_pos_right (Nat.lt_succ_self n) (by decide)
        simp [hlt]
      · have hiff : (pageSize ∣ k ∧ k < (n + 1) * pageSize) ↔
            (pageSize ∣ k ∧ k < n * pageSize) := by
          refine and_congr_right ?_
          rintro ⟨m, rfl⟩
          rw [Nat.mul_comm pageSize m] at hk ⊢
          rw [Nat.mul_lt_mul_right (by decide), Nat.mul_lt_mul_right (by decide)]
          have hne : m ≠ n := fun h => hk (by rw [h])
          omega
        simp only [hk, if_false, hiff]
        cases f[k]? <;> rfl

/-- `crypto` converts the first byte of every page. -/
lemma getElem?_crypto (key : UInt8) (ino : Inode) (k : ℕ) :
    (crypto key ino).contents[k]? =
      ino.contents[k]?.map fun b => if pageSize ∣ k then crypt key b else b := by
  rw [crypto, getElem?_cryptoLoop]
  rcases Nat.lt_or_ge k ino.contents.length with hk | hk
  · have hpages : k < dirPages ino.contents.length * pageSize := by
      unfold dirPages pageSize
      omega
    simp only [hpages, and_true]
  · rw [List.getElem?_eq_none hk]
    rfl

lemma length_crypto (key : UInt8) (ino : Inode) :
    (crypto key ino).contents.length = ino.contents.length := by
  unfold crypto
  induction dirPages ino.contents.length with
  | zero => rfl
  | succ n ih =>
      rw [List.range_succ, List.foldl_append, List.foldl_cons, List.foldl_nil, List.length_modify]
      exact ih

@[simp] lemma crypto_iMode (key : UInt8) (ino : Inode) : (crypto key ino).iMode = ino.iMode := rfl

@[simp] lemma crypto_data (key : UInt8) (ino : Inode) : (crypto key ino).data = ino.data := rfl

/-! ## Renaming -/

/-- What a successful rename does to the inode. -/
lemma Rename.run_inode {key : UInt8} {c : Rename} {fs : Fs} (h : (c.run key fs).1 = 0) :
    (c.run key fs).2.inodes c.oldInode =
      if sIsreg (fs.inodes c.oldInode).iMode && c.crosses then crypto key (fs.inodes c.oldInode)
      else fs.inodes c.oldInode := by
  rcases c.run_cases key fs with ⟨herr, -⟩ | ⟨fs', hbefore, hafter⟩
  · exact absurd h herr
  · rw [hafter.inodes_eq, Rename.convert, hbefore.inodes_eq]
    split_ifs
    · exact Function.update_self _ _ _
    · rw [hbefore.inodes_eq]

/-! ## Reading the whole file -/

/-- The bytes of a file as they are stored. -/
def stored (ino : Inode) : List UInt8 := if sIsim ino.iMode then ino.data.string else ino.contents

/-- The bytes of a file as they are read under a name. -/
def plaintext (key : UInt8) (d : Dentry) (ino : Inode) : List UInt8 :=
  if d.inEncrypt then (stored ino).map (crypt key) else stored ino

lemma length_stored_crypto (key : UInt8) (ino : Inode) :
    (stored (crypto key ino)).length = (stored ino).length := by
  unfold stored
  by_cases him : sIsim ino.iMode
  · simp only [crypto_iMode, him, if_true, crypto_data]
  · simp only [crypto_iMode, him, Bool.false_eq_true, if_false, length_crypto]

lemma Data.take_strlen (d : Data) : d.bytes.take d.strlen = d.string :=
  (List.prefix_iff_eq_take.mp (List.takeWhile_prefix _)).symm

lemma plainRead_whole {env : Env} (henv : env.copy) {ino : Inode} {buf : List UInt8}
    (hbuf : (stored ino).length ≤ buf.length) :
    plainRead byteArray env ino buf 0 =
      ⟨(stored ino).length, (stored ino).length, stored ino ++ buf.drop (stored ino).length⟩ := by
  unfold plainRead stored at *
  split_ifs at hbuf ⊢ with him
  · unfold imRead
    simp only [Nat.zero_add, henv, if_true, Nat.sub_zero]
    split_ifs with hzero hle
    · have hnil : ino.data.string = [] := List.length_eq_zero_iff.mp (Nat.le_zero.mp hzero)
      simp [hnil]
    · rw [Data.take_strlen]
      rfl
    · exact absurd hbuf hle
  · simp only [byteArray, ByteFile.get_zero_of_length_le hbuf, Nat.zero_add]

/-- A read of the whole file. -/
lemma delivered_whole (key : UInt8) (filp : Filp) {ino : Inode} {buf : List UInt8}
    (hbuf : (stored ino).length ≤ buf.length) :
    (syncRead byteArray key Env.good filp ino buf 0).delivered =
      plaintext key filp.dentry ino := by
  unfold syncRead plaintext
  split_ifs with hdir halloc hcopy
  · rw [plainRead_whole rfl (by rwa [List.length_replicate])]
    simp only [Read.delivered, Int.toNat_natCast]
    rw [← List.map_take, List.take_left]
  · exact absurd rfl hcopy
  · exact absurd rfl halloc
  · rw [plainRead_whole rfl hbuf]
    simp only [Read.delivered, Int.toNat_natCast]
    rw [List.take_left]

/-- Reading the whole file gives the same bytes under the new name as under the old one. -/
def KeepsPlaintext (key : UInt8) (c : Rename) (fs : Fs) : Prop :=
  ∀ (append : Bool) (buf : List UInt8), (stored (fs.inodes c.oldInode)).length ≤ buf.length →
    (syncRead byteArray key Env.good ⟨c.newDentry, append⟩
        ((c.run key fs).2.inodes c.oldInode) buf 0).delivered =
      (syncRead byteArray key Env.good ⟨c.oldDentry, append⟩ (fs.inodes c.oldInode) buf 0).delivered

/-- What the move of a file across the boundary must not meet: an immediate file that is not empty;
a byte that is not zero and not the first one of a page; and, on the way into `/encrypt`, a page
whose first byte is the key. -/
def Survives (key : UInt8) (into : Bool) (ino : Inode) : Prop :=
  if sIsim ino.iMode then ino.data.string = []
  else ∀ k b, ino.contents[k]? = some b → if pageSize ∣ k then into → b ≠ key else b = 0

section survives

variable {key : UInt8} {ino : Inode}

/-- The bytes of an immediate file look different from inside and from outside. -/
lemma map_crypt_string_iff (hkey : key ≠ 0) :
    ino.data.string.map (crypt key) = ino.data.string ↔ ino.data.string = [] := by
  constructor
  · intro h
    rw [List.eq_nil_iff_forall_not_mem]
    intro b hb
    have hnonzero : b ≠ 0 := by
      have hall := List.all_eq_true.mp (List.all_takeWhile (p := (· ≠ 0)) (l := ino.data.bytes))
      simpa using hall b hb
    have hsame : crypt key b = b := by
      have hid : ino.data.string.map (crypt key) = ino.data.string.map id := by
        rw [List.map_id, h]
      exact List.map_inj_left.mp hid b hb
    rcases (crypt_eq_self_iff key b).mp hsame with hzero | hzero
    · exact hkey hzero
    · exact hnonzero hzero
  · intro h
    rw [h, List.map_nil]

/-- Into `/encrypt`, byte by byte. -/
lemma map_crypt_crypto_iff (hkey : key ≠ 0) :
    (crypto key ino).contents.map (crypt key) = ino.contents ↔
      ∀ k b, ino.contents[k]? = some b → if pageSize ∣ k then b ≠ key else b = 0 := by
  rw [List.ext_getElem?_iff]
  refine forall_congr' fun k => ?_
  rw [List.getElem?_map, getElem?_crypto]
  cases ino.contents[k]? with
  | none => simp
  | some b =>
      simp only [Option.map_some, Option.some.injEq, forall_eq']
      split_ifs
      · rw [crypt_crypt_eq_iff]
        simp [hkey]
      · rw [crypt_eq_self_iff]
        simp [hkey]

/-- Out of `/encrypt`, byte by byte. -/
lemma crypto_eq_map_crypt_iff (hkey : key ≠ 0) :
    (crypto key ino).contents = ino.contents.map (crypt key) ↔
      ∀ k b, ino.contents[k]? = some b → if pageSize ∣ k then True else b = 0 := by
  rw [List.ext_getElem?_iff]
  refine forall_congr' fun k => ?_
  rw [List.getElem?_map, getElem?_crypto]
  cases ino.contents[k]? with
  | none => simp
  | some b =>
      simp only [Option.map_some, Option.some.injEq, forall_eq']
      split_ifs
      · simp
      · rw [eq_comm, crypt_eq_self_iff]
        simp [hkey]

end survives

/-- Whether the whole file is read the same does not depend on the buffer. -/
lemma keepsPlaintext_iff_plaintext {key : UInt8} {c : Rename} {fs : Fs}
    (hok : (c.run key fs).1 = 0) :
    KeepsPlaintext key c fs ↔
      plaintext key c.newDentry ((c.run key fs).2.inodes c.oldInode) =
        plaintext key c.oldDentry (fs.inodes c.oldInode) := by
  have hlength : (stored ((c.run key fs).2.inodes c.oldInode)).length =
      (stored (fs.inodes c.oldInode)).length := by
    rw [Rename.run_inode hok]
    split_ifs
    · exact length_stored_crypto _ _
    · rfl
  constructor
  · intro h
    have hread := h false (List.replicate (stored (fs.inodes c.oldInode)).length 0) (by simp)
    rwa [delivered_whole key _ (by rw [hlength]; simp), delivered_whole key _ (by simp)] at hread
  · intro h append buf hbuf
    rw [delivered_whole key _ (by rwa [hlength]), delivered_whole key _ hbuf]
    exact h

/-- With the key zero nothing is converted. -/
lemma plaintext_zero (d : Dentry) (ino : Inode) : plaintext 0 d ino = stored ino := by
  have hid : crypt 0 = id := funext fun b => (crypt_eq_self_iff 0 b).mpr (Or.inl rfl)
  unfold plaintext
  split_ifs
  · rw [hid, List.map_id]
  · rfl

lemma stored_crypto_zero (ino : Inode) : stored (crypto 0 ino) = stored ino := by
  have hid : ∀ b, crypt 0 b = b := fun b => (crypt_eq_self_iff 0 b).mpr (Or.inl rfl)
  have hcontents : (crypto 0 ino).contents = ino.contents := by
    refine List.ext_getElem? fun k => ?_
    rw [getElem?_crypto]
    simp [hid]
  simp only [stored, crypto_iMode, crypto_data, hcontents]

/-- A regular file, which is converted when it is moved to the other side. -/
lemma plaintext_converted_iff {key : UInt8} {ino : Inode} {d d' : Dentry} (hkey : key ≠ 0)
    (hreg : sIsreg ino.iMode) (hside : d.inEncrypt = !d'.inEncrypt) :
    plaintext key d' (crypto key ino) = plaintext key d ino ↔ Survives key d'.inEncrypt ino := by
  have him := not_sIsim_of_sIsreg hreg
  unfold Survives plaintext stored
  simp only [him, hside, crypto_iMode, Bool.false_eq_true, if_false]
  cases d'.inEncrypt
  · simp only [Bool.not_false, if_true, Bool.false_eq_true, if_false, false_implies]
    exact crypto_eq_map_crypt_iff hkey
  · simp only [Bool.not_true, if_true, Bool.false_eq_true, if_false, true_implies]
    exact map_crypt_crypto_iff hkey

/-- An immediate file, which is not. -/
lemma plaintext_moved_iff {key : UInt8} {ino : Inode} {d d' : Dentry} (hkey : key ≠ 0)
    (him : sIsim ino.iMode) (hside : d.inEncrypt = !d'.inEncrypt) :
    plaintext key d' ino = plaintext key d ino ↔ Survives key d'.inEncrypt ino := by
  unfold Survives plaintext stored
  simp only [him, hside, if_true]
  rw [← map_crypt_string_iff hkey]
  cases d'.inEncrypt
  · simp only [Bool.not_false, if_true, Bool.false_eq_true, if_false]
    exact eq_comm
  · simp only [Bool.not_true, if_true, Bool.false_eq_true, if_false]

/-- **A rename keeps the plaintext of a file exactly if the file stays on its side, the key is zero,
or the file is one that survives the move.** -/
theorem keepsPlaintext_iff {key : UInt8} {c : Rename} {fs : Fs} (hok : (c.run key fs).1 = 0)
    (hfile : sIsreg (fs.inodes c.oldInode).iMode ∨ sIsim (fs.inodes c.oldInode).iMode) :
    KeepsPlaintext key c fs ↔
      c.oldDentry.inEncrypt = c.newDentry.inEncrypt ∨ key = 0 ∨
        Survives key c.newDentry.inEncrypt (fs.inodes c.oldInode) := by
  rw [keepsPlaintext_iff_plaintext hok, Rename.run_inode hok]
  by_cases hsame : c.oldDentry.inEncrypt = c.newDentry.inEncrypt
  · -- the file stays on its side
    have hnot : c.crosses = false := by
      rw [Bool.eq_false_iff, Ne, c.crosses_iff, not_not]
      exact hsame
    simp only [hnot, Bool.and_false, Bool.false_eq_true, if_false, hsame, true_or, iff_true]
    unfold plaintext
    rw [hsame]
  · have hcross : c.crosses = true := c.crosses_iff.mpr hsame
    simp only [hcross, Bool.and_true, hsame, false_or]
    by_cases hkey : key = 0
    · subst hkey
      simp only [true_or, iff_true, plaintext_zero]
      split_ifs
      · exact stored_crypto_zero _
      · rfl
    · simp only [hkey, false_or]
      have hside := Bool.eq_not_of_ne hsame
      rcases hfile with hreg | him
      · rw [if_pos hreg]
        exact plaintext_converted_iff hkey hreg hside
      · rw [if_neg (by simp [not_sIsreg_of_sIsim him])]
        exact plaintext_moved_iff hkey him hside

/-- A file system with a regular file `f`, inode 12, in the root directory, and an empty directory
`encrypt`, inode 11. -/
def sampleFs (contents : List UInt8) : Fs where
  filetype := true
  inodes n := ⟨if n = 12 then 0x81A4 else 0x41ED, Data.new 0, if n = 12 then contents else []⟩
  nlink n := if n = 12 then 1 else 2
  dirs n := if n = 2 then [⟨encryptName, 11, 2⟩, ⟨['f'], 12, 1⟩] else []

/-- `mv /f /encrypt/f`. -/
def sampleMove : Rename where
  oldDir := 2
  oldDentry := .node .root fName
  oldInode := 12
  newDir := 11
  newDentry := encryptedFile
  newInode := none
  dotdot := true
  addErr := 0

/-- With the key 1, a file that holds `A` survives. -/
theorem keepsPlaintext_one_byte : KeepsPlaintext 1 sampleMove (sampleFs [65]) := by
  refine (keepsPlaintext_iff (by decide) (Or.inl (by decide))).mpr (Or.inr (Or.inr ?_))
  intro k b hb
  cases k with
  | zero =>
      obtain rfl : 65 = b := by simpa [sampleFs, sampleMove] using hb
      simp
  | succ k => simp [sampleFs, sampleMove] at hb

/-- A file that holds `AB` does not: only `A` is converted. -/
theorem not_keepsPlaintext_two_bytes :
    (sampleMove.run 1 (sampleFs [65, 66])).1 = 0 ∧
      ¬ KeepsPlaintext 1 sampleMove (sampleFs [65, 66]) := by
  have hok : (sampleMove.run 1 (sampleFs [65, 66])).1 = 0 := by decide
  refine ⟨hok, ?_⟩
  rw [keepsPlaintext_iff_plaintext hok]
  decide

end Comp3301.Ext3301
