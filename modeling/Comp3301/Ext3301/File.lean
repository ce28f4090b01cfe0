import Comp3301.Lib.ByteFile

/-!
# The file system: reading and writing files

`a3/file.c`: immediate files, whose bytes are kept in the inode where other files have their block
numbers, and the encryption of the files of the directory `/encrypt`.

* `Data` is the memory of an inode from `i_data` on. `strlen (data)` may run over the 60 bytes of
  `i_data` into `i_flags`; it ends in `i_faddr`, which is zero in every inode that this file system
  has created (`ext2_new_inode`).
* `do_sync_read` and `do_sync_write` of the kernel are a parameter (`Vfs`). `byteArray` is a
  byte-array file: with `O_APPEND` a write goes to the end, a write behind the end fills the gap
  with zeros, and a write of nothing has no effect.
* Positions and lengths are natural numbers; `rw_verify_area` of the kernel keeps their sum below
  `2 ^ 63`.
* What a call depends on besides (memory, the user's pointers, the directory) is given by `Env`.
-/

namespace Comp3301.Ext3301

open Comp3301.Lib

/-! ## Modes -/

/-- `umode_t`. -/
abbrev Mode := BitVec 16

/-- `S_IFMT`. -/
def sIfmt : Mode := 0xF000

/-- `S_IFREG`. -/
def sIfreg : Mode := 0x8000

/-- `S_IFDIR`. -/
def sIfdir : Mode := 0x4000

/-- `S_IFIM`. -/
def sIfim : Mode := 0xE000

/-- `S_ISREG`. -/
def sIsreg (m : Mode) : Bool := m &&& sIfmt = sIfreg

/-- `S_ISDIR`. -/
def sIsdir (m : Mode) : Bool := m &&& sIfmt = sIfdir

/-- `S_ISIM`. -/
def sIsim (m : Mode) : Bool := m &&& sIfmt = sIfim

/-- The mode of an immediate file that becomes a regular one. -/
def converted (m : Mode) : Mode := sIfreg ||| (m ^^^ sIfim)

/-- The mode with which `ext2_create` creates a file. -/
def created (m : Mode) : Mode := sIfim ||| (m ^^^ sIfreg)

/-- Exchanging one type for another. -/
lemma type_exchange {m t : Mode} (h : m &&& sIfmt = t) (t' : Mode) :
    (t' ||| (m ^^^ t)) &&& sIfmt = t' &&& sIfmt := by
  have hxor : (m ^^^ t) &&& sIfmt = (m &&& sIfmt) ^^^ (t &&& sIfmt) := by
    ext i
    simp [Bool.and_xor_distrib_right]
  have hself : t &&& sIfmt = t := by rw [← h, BitVec.and_assoc, BitVec.and_self]
  rw [BitVec.and_or_distrib_right, hxor, h, hself, BitVec.xor_self, BitVec.or_zero]

lemma sIsreg_converted {m : Mode} (h : sIsim m) : sIsreg (converted m) := by
  simp only [sIsim, decide_eq_true_eq] at h
  simp only [sIsreg, decide_eq_true_eq]
  rw [converted, type_exchange h]
  rfl

lemma sIsim_created {m : Mode} (h : sIsreg m) : sIsim (created m) := by
  simp only [sIsreg, decide_eq_true_eq] at h
  simp only [sIsim, decide_eq_true_eq]
  rw [created, type_exchange h]
  rfl

lemma not_sIsreg_of_sIsim {m : Mode} (h : sIsim m) : sIsreg m = false := by
  simp only [sIsim, decide_eq_true_eq] at h
  simp [sIsreg, h, sIfim, sIfreg]

lemma not_sIsim_of_sIsreg {m : Mode} (h : sIsreg m) : sIsim m = false := by
  simp only [sIsreg, decide_eq_true_eq] at h
  simp [sIsim, h, sIfim, sIfreg]

/-! ## Inodes -/

/-- The memory of an inode from `i_data` on: 60 bytes of `i_data`, 4 of `i_flags` and 4 of
`i_faddr`. -/
structure Data where
  bytes : List UInt8
  size : bytes.length = 68
  faddr : bytes.drop 64 = [0, 0, 0, 0]

namespace Data

/-- The string at `data`. -/
def string (d : Data) : List UInt8 := d.bytes.takeWhile (· ≠ 0)

/-- `strlen (data)`. -/
def strlen (d : Data) : ℕ := d.string.length

lemma strlen_le (d : Data) : d.strlen ≤ 64 := by
  have hsplit : d.bytes = d.bytes.take 64 ++ [0, 0, 0, 0] := by
    rw [← d.faddr, List.take_append_drop]
  unfold strlen string
  rw [hsplit, List.takeWhile_append]
  split_ifs with h
  · simp [d.size]
  · exact (List.takeWhile_sublist _).length_le.trans (List.length_take_le _ _)

/-- `memcpy (data, buf, len)`. -/
def memcpy (d : Data) (buf : List UInt8) (h : buf.length ≤ 60) : Data where
  bytes := buf ++ d.bytes.drop buf.length
  size := by
    rw [List.length_append, List.length_drop, d.size]
    omega
  faddr := by
    rw [List.drop_append, List.drop_eq_nil_of_le (h.trans (by norm_num)), List.nil_append,
      List.drop_drop, show buf.length + (64 - buf.length) = 64 by omega, d.faddr]

/-- `memset (data, 0, strlen (data))`. -/
def memset (d : Data) : Data where
  bytes := List.replicate d.strlen 0 ++ d.bytes.drop d.strlen
  size := by
    have := d.strlen_le
    rw [List.length_append, List.length_replicate, List.length_drop, d.size]
    omega
  faddr := by
    have := d.strlen_le
    rw [List.drop_append, List.drop_eq_nil_of_le (by rw [List.length_replicate]; omega),
      List.nil_append, List.length_replicate, List.drop_drop,
      show d.strlen + (64 - d.strlen) = 64 by omega, d.faddr]

end Data

/-- An inode. `contents` is what the page cache holds of it, `i_size` bytes. -/
structure Inode where
  iMode : Mode
  data : Data
  contents : List UInt8

/-- The bytes of a word in memory. -/
def leBytes (w : BitVec 32) : List UInt8 :=
  [UInt8.ofNat w.toNat, UInt8.ofNat (w.toNat / 2 ^ 8), UInt8.ofNat (w.toNat / 2 ^ 16),
    UInt8.ofNat (w.toNat / 2 ^ 24)]

/-- The memory of a new inode: `ext2_new_inode` clears `i_data` and `i_faddr`; `i_flags` are
inherited from the directory. -/
def Data.new (iFlags : BitVec 32) : Data where
  bytes := List.replicate 60 0 ++ leBytes iFlags ++ List.replicate 4 0
  size := rfl
  faddr := rfl

/-- The inode that `ext2_create` makes for a mode of a regular file. -/
def newInode (mode : {m : Mode // sIsreg m}) (iFlags : BitVec 32) : Inode :=
  ⟨created mode, Data.new iFlags, []⟩

lemma Data.strlen_new (iFlags : BitVec 32) : (Data.new iFlags).strlen = 0 := rfl

/-! ## Open files -/

/-- A name. -/
abbrev Name := List Char

/-- The name of the root. -/
def slash : Name := ['/']

/-- `"encrypt"`. -/
def encryptName : Name := ['e', 'n', 'c', 'r', 'y', 'p', 't']

/-- A `struct dentry`: the root, or an entry of a directory. -/
inductive Dentry where
  | root
  | node (dir : Dentry) (name : {n : Name // n ≠ [] ∧ '/' ∉ n})

namespace Dentry

/-- `d_parent`. The root is its own parent. -/
def dParent : Dentry → Dentry
  | root => root
  | node dir _ => dir

/-- `d_name.name`. -/
def dName : Dentry → Name
  | root => slash
  | node _ name => name

/-- The test whether the file of a dentry is in `/encrypt`. -/
def inEncrypt (d : Dentry) : Bool :=
  d.dParent.dParent.dName = slash ∧ d.dParent.dName = encryptName

end Dentry

/-- `struct file`: the dentry and `f_flags & O_APPEND`. -/
structure Filp where
  dentry : Dentry
  append : Bool

/-- What a call finds: whether `kzalloc` in `ext3301_sync_*` and in `ext3301_im_write` has memory,
whether the user's memory can be accessed, and whether `ext2_find_entry` finds the entry. -/
structure Env where
  alloc : Bool
  imAlloc : Bool
  copy : Bool
  found : Bool

/-- `ENOENT`. -/
def enoent : ℤ := 2

/-- `ENOMEM`. -/
def enomem : ℤ := 12

/-- `EFAULT`. -/
def efault : ℤ := 14

/-! ## The kernel's files -/

/-- What a read returns and leaves: its result, the position and the buffer. -/
structure Read where
  ret : ℤ
  ppos : ℕ
  buf : List UInt8

/-- The bytes that the caller is told to be in the buffer. -/
def Read.delivered (r : Read) : List UInt8 := r.buf.take r.ret.toNat

/-- What `do_sync_write` returns and leaves: its result, the position and the inode. -/
structure SyncWritten where
  ret : ℤ
  ppos : ℕ
  inode : Inode

/-- `do_sync_read`, and `do_sync_write` with and without `O_APPEND`. -/
structure Vfs where
  doSyncRead : Inode → List UInt8 → ℕ → Read
  doSyncWrite : Bool → Inode → List UInt8 → ℕ → SyncWritten

/-- A byte-array file. -/
def byteArray : Vfs where
  doSyncRead ino buf ppos :=
    let got := ByteFile.get ino.contents ppos buf.length
    ⟨got.length, ppos + got.length, got ++ buf.drop got.length⟩
  doSyncWrite append ino buf ppos :=
    let pos := if append then ino.contents.length else ppos
    ⟨buf.length, if buf = [] then ppos else pos + buf.length,
      { ino with contents := ByteFile.put 0 ino.contents pos buf }⟩

section calls

variable (vfs : Vfs)

/-! ## Reading -/

/-- `ext3301_im_read`. Nothing is copied when the file goes on behind the bytes asked for. -/
def imRead (env : Env) (ino : Inode) (buf : List UInt8) (ppos : ℕ) : Read :=
  let n := ino.data.strlen
  if n ≤ ppos then ⟨0, ppos, buf⟩
  else if n ≤ ppos + buf.length then
    let len := n - ppos
    if env.copy then ⟨len, ppos + len, ino.data.bytes.take len ++ buf.drop len⟩
    else ⟨-efault, ppos, buf⟩
  else ⟨buf.length, ppos + buf.length, buf⟩

/-- Encryption and decryption of a byte: zeros are left alone. -/
def crypt (key b : UInt8) : UInt8 := if b ≠ 0 then b ^^^ key else b

/-- The choice between `ext3301_im_read` and `do_sync_read`. -/
def plainRead (env : Env) (ino : Inode) (buf : List UInt8) (ppos : ℕ) : Read :=
  if sIsim ino.iMode then imRead env ino buf ppos else vfs.doSyncRead ino buf ppos

/-- `ext3301_sync_read`. In `/encrypt` the read goes to a buffer of zeros in the kernel, where an
access cannot fail, and the whole of it is copied to the user. -/
def syncRead (key : UInt8) (env : Env) (filp : Filp) (ino : Inode) (buf : List UInt8) (ppos : ℕ) :
    Read :=
  if filp.dentry.inEncrypt then
    if env.alloc then
      let r := plainRead vfs { env with copy := true } ino (List.replicate buf.length 0) ppos
      if env.copy then ⟨r.ret, r.ppos, r.buf.map (crypt key)⟩
      else ⟨-efault, r.ppos, buf⟩
    else ⟨-enomem, ppos, buf⟩
  else plainRead vfs env ino buf ppos

/-! ## Writing -/

/-- What a write returns and leaves: its result, the position, the inode, and whether
`de->file_type = 1` has been stored. -/
structure Written where
  ret : ℤ
  ppos : ℕ
  inode : Inode
  setType : Bool

/-- What `ext3301_im_write` does up to the call of `do_sync_write`. -/
inductive ImWrite where
  /-- The bytes have been copied to `i_data`. -/
  | fits (data : Data)
  /-- There is no memory for the bytes that are appended. -/
  | noMemory
  /-- `i_data` has been cleared and `buf` goes to `do_sync_write`. -/
  | handsOver (data : Data) (buf : List UInt8)

/-- `ext3301_im_write`, up to the call of `do_sync_write`. The bytes are copied to the start of
`i_data`, whatever the position is. With `O_APPEND` the old bytes but the last one, the new ones up
to a zero and a zero are handed over. -/
def imPrepare (append imAlloc : Bool) (d : Data) (buf : List UInt8) (ppos : ℕ) : ImWrite :=
  if h : buf.length + ppos ≤ 60 then .fits (d.memcpy buf (by omega))
  else if d.strlen ≠ 0 ∧ append then
    if imAlloc then
      .handsOver d.memset (d.bytes.take (d.strlen - 1) ++ buf.takeWhile (· ≠ 0) ++ [0])
    else .noMemory
  else .handsOver d.memset buf

/-- What is handed over to `do_sync_write`, if anything is. -/
lemma imPrepare_cases (append imAlloc : Bool) (d : Data) (buf : List UInt8) (ppos : ℕ) :
    ((60 < buf.length + ppos ∧ (d.strlen ≠ 0 ∧ append → imAlloc)) ∧
        ∃ out, imPrepare append imAlloc d buf ppos = .handsOver d.memset out) ∨
      (¬ (60 < buf.length + ppos ∧ (d.strlen ≠ 0 ∧ append → imAlloc)) ∧
        ((∃ d', imPrepare append imAlloc d buf ppos = .fits d') ∨
          imPrepare append imAlloc d buf ppos = .noMemory)) := by
  unfold imPrepare
  split_ifs with hlen hgrow halloc
  · exact Or.inr ⟨fun h => by omega, Or.inl ⟨_, rfl⟩⟩
  · exact Or.inl ⟨⟨by omega, fun _ => halloc⟩, _, rfl⟩
  · exact Or.inr ⟨fun h => halloc (h.2 hgrow), Or.inr rfl⟩
  · exact Or.inl ⟨⟨by omega, fun h => absurd h hgrow⟩, _, rfl⟩

/-- `ext3301_im_write`. The position is only moved by `do_sync_write`. -/
def imWrite (env : Env) (append : Bool) (ino : Inode) (buf : List UInt8) (ppos : ℕ) : Written :=
  match imPrepare append env.imAlloc ino.data buf ppos with
  | .fits data => ⟨buf.length, ppos, { ino with data := data }, false⟩
  | .noMemory => ⟨-enomem, ppos, ino, false⟩
  | .handsOver data buf =>
      let w := vfs.doSyncWrite append { ino with data := data } buf ppos
      let ino := { w.inode with iMode := converted w.inode.iMode }
      if env.found then ⟨w.ret, w.ppos, ino, true⟩ else ⟨-enoent, w.ppos, ino, false⟩

/-- The choice between `ext3301_im_write` and `do_sync_write`. -/
def plainWrite (env : Env) (append : Bool) (ino : Inode) (buf : List UInt8) (ppos : ℕ) : Written :=
  if sIsim ino.iMode then imWrite vfs env append ino buf ppos
  else
    let w := vfs.doSyncWrite append ino buf ppos
    ⟨w.ret, w.ppos, w.inode, false⟩

/-- `ext3301_sync_write`. The last statement, `ppos += len`, moves the pointer and not the
position. -/
def syncWrite (key : UInt8) (env : Env) (filp : Filp) (ino : Inode) (buf : List UInt8) (ppos : ℕ) :
    Written :=
  if filp.dentry.inEncrypt then
    if env.alloc then
      if env.copy then plainWrite vfs env filp.append ino (buf.map (crypt key)) ppos
      else ⟨-efault, ppos, ino, false⟩
    else ⟨-enomem, ppos, ino, false⟩
  else plainWrite vfs env filp.append ino buf ppos

/-! ### What a write does -/

/-- The write fails before it is begun. -/
def Filp.Rejects (filp : Filp) (env : Env) : Prop :=
  filp.dentry.inEncrypt ∧ ¬ (env.alloc ∧ env.copy)

instance (filp : Filp) (env : Env) : Decidable (filp.Rejects env) :=
  inferInstanceAs (Decidable (_ ∧ ¬ _))

/-- The bytes as they are to be stored. -/
def cipher (key : UInt8) (filp : Filp) (buf : List UInt8) : List UInt8 :=
  if filp.dentry.inEncrypt then buf.map (crypt key) else buf

lemma length_cipher (key : UInt8) (filp : Filp) (buf : List UInt8) :
    (cipher key filp buf).length = buf.length := by
  unfold cipher
  split_ifs
  · exact List.length_map _
  · rfl

lemma syncWrite_of_rejects (key : UInt8) {env : Env} {filp : Filp} (h : filp.Rejects env)
    (ino : Inode) (buf : List UInt8) (ppos : ℕ) :
    (syncWrite vfs key env filp ino buf ppos).inode = ino ∧
      (syncWrite vfs key env filp ino buf ppos).setType = false := by
  unfold syncWrite
  rw [if_pos h.1]
  split_ifs with halloc hcopy
  · exact absurd ⟨halloc, hcopy⟩ h.2
  · exact ⟨rfl, rfl⟩
  · exact ⟨rfl, rfl⟩

lemma syncWrite_of_not_rejects (key : UInt8) {env : Env} {filp : Filp} (h : ¬ filp.Rejects env)
    (ino : Inode) (buf : List UInt8) (ppos : ℕ) :
    syncWrite vfs key env filp ino buf ppos =
      plainWrite vfs env filp.append ino (cipher key filp buf) ppos := by
  unfold syncWrite cipher
  by_cases hdir : filp.dentry.inEncrypt
  · have hok : env.alloc ∧ env.copy := by
      by_contra hnot
      exact h ⟨hdir, hnot⟩
    rw [if_pos hdir, if_pos hok.1, if_pos hok.2, if_pos hdir]
  · rw [if_neg hdir, if_neg hdir]

end calls

end Comp3301.Ext3301
