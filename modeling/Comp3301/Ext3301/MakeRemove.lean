import Comp3301.Ext3301.Super

/-!
# The file system: making and removing directories

The other calls of `a3/namei.c` that change directories, next to those of `Fs.step`: `ext2_mkdir`,
`ext2_rmdir`, `ext2_mknod` and `ext2_symlink`, and `ext2_delete_inode` (`a3/inode.c`).

* As before, `new` is the inode that `ext2_new_inode` gives, or its error. The mode is the one that
  the new inode gets in the end; its type is the one asked for.
* `Fs.makeEmpty` is `ext2_make_empty` on lists; in pages it is `Dir.makeEmpty`.
* `NameCall` are all calls, and `Fs.nameStep` is one of them, with its result.
-/

namespace Comp3301.Ext3301

/-- `ENAMETOOLONG`. -/
def enametoolong : ℤ := 36

/-- `S_IFLNK | S_IRWXUGO`. -/
def linkMode : Mode := 0xA1FF

/-- `"."`. -/
def dotName : Name := ['.']

/-- `".."`. -/
def dotDotName : Name := ['.', '.']

namespace Fs

variable (fs : Fs)

/-- `ext2_add_nondir`, for an inode that has just been made. -/
def addNondir (dir : ℕ) (dentry : Dentry) (n : ℕ) (addErr : ℤ) : ℤ × Fs :=
  let (err, fs) := fs.addLink dir dentry.dName n addErr
  if err ≠ 0 then (err, fs.decLinkCount n) else (0, fs)

/-- `ext2_mknod`; `valid` is what `new_valid_dev` says. -/
def mknod (dir : ℕ) (dentry : Dentry) (mode : Mode) (valid : Bool)
    (new : Except ℤ (ℕ × BitVec 32)) (addErr : ℤ) : ℤ × Fs :=
  if valid = false then (-einval, fs)
  else
    match new with
    | .error err => (err, fs)
    | .ok (n, iFlags) =>
        (fs.addInode n ⟨mode, Data.new iFlags, []⟩).addNondir dir dentry n addErr

/-- `ext2_symlink`. Short names are stored in `i_data`, longer ones by `page_symlink`, which fails
with `pageErr`. -/
def symlink (blocksize dir : ℕ) (dentry : Dentry) (symname : List UInt8)
    (new : Except ℤ (ℕ × BitVec 32)) (pageErr addErr : ℤ) : ℤ × Fs :=
  if symname.length + 1 > blocksize then (-enametoolong, fs)
  else
    match new with
    | .error err => (err, fs)
    | .ok (n, iFlags) =>
        if h : symname.length + 1 > 60 then
          if pageErr ≠ 0 then
            (pageErr, (fs.addInode n ⟨linkMode, Data.new iFlags, []⟩).decLinkCount n)
          else
            (fs.addInode n ⟨linkMode, Data.new iFlags, symname⟩).addNondir dir dentry n addErr
        else
          let data := (Data.new iFlags).memcpy (symname ++ [0])
            (by rw [List.length_append, List.length_singleton]; exact not_lt.mp h)
          (fs.addInode n ⟨linkMode, data, []⟩).addNondir dir dentry n addErr

/-- `ext2_make_empty`: what fails before the entries are stored, and what fails afterwards. -/
def makeEmpty (n parent : ℕ) (beginErr commitErr : ℤ) : ℤ × Fs :=
  if beginErr ≠ 0 then (beginErr, fs)
  else
    let type := deType fs.filetype (fs.inodes n).iMode
    (commitErr, fs.setDir n [⟨dotName, n, type⟩, ⟨dotDotName, parent, type⟩])

/-- `ext2_mkdir`. A new directory has no pages. -/
def mkdir (dir : ℕ) (dentry : Dentry) (mode : {m : Mode // sIsdir m})
    (new : Except ℤ (ℕ × BitVec 32)) (beginErr commitErr addErr : ℤ) : ℤ × Fs :=
  if linkMax ≤ fs.nlink dir then (-emlink, fs)
  else
    let fs := fs.incLinkCount dir
    match new with
    | .error err => (err, fs.decLinkCount dir)
    | .ok (n, iFlags) =>
        let fs := (fs.addInode n ⟨mode, Data.new iFlags, []⟩).setDir n []
        let (err, fs) := (fs.incLinkCount n).makeEmpty n dir beginErr commitErr
        if err ≠ 0 then (err, ((fs.decLinkCount n).decLinkCount n).decLinkCount dir)
        else
          let (err, fs) := fs.addLink dir dentry.dName n addErr
          if err ≠ 0 then (err, ((fs.decLinkCount n).decLinkCount n).decLinkCount dir)
          else (0, fs)

/-- `ext2_rmdir`. With `i_size` the entries are gone. -/
def rmdir (dir : ℕ) (dentry : Dentry) (n : ℕ) : ℤ × Fs :=
  if fs.emptyDir n then
    let (err, fs) := fs.unlink dir dentry n
    if err ≠ 0 then (err, fs)
    else (0, ((fs.setDir n []).decLinkCount n).decLinkCount dir)
  else (-enotempty, fs)

/-- `ext2_delete_inode`, when the last user of an inode without links is gone. -/
def deleteInode (n : ℕ) : Fs := (fs.setInode n { fs.inodes n with contents := [] }).setDir n []

end Fs

/-- The calls that change directories or link counts, and those that touch an inode. -/
inductive NameCall where
  | call (c : Call)
  | mknod (dir : ℕ) (dentry : Dentry) (mode : Mode) (valid : Bool)
      (new : Except ℤ (ℕ × BitVec 32)) (addErr : ℤ)
  | symlink (blocksize dir : ℕ) (dentry : Dentry) (symname : List UInt8)
      (new : Except ℤ (ℕ × BitVec 32)) (pageErr addErr : ℤ)
  | mkdir (dir : ℕ) (dentry : Dentry) (mode : {m : Mode // sIsdir m})
      (new : Except ℤ (ℕ × BitVec 32)) (beginErr commitErr addErr : ℤ)
  | rmdir (dir : ℕ) (dentry : Dentry) (n : ℕ)
  | deleteInode (n : ℕ)

/-- One call. -/
def Fs.nameStep (key : UInt8) (fs : Fs) : NameCall → ℤ × Fs
  | .call c => fs.step key c
  | .mknod dir dentry mode valid new addErr => fs.mknod dir dentry mode valid new addErr
  | .symlink blocksize dir dentry symname new pageErr addErr =>
      fs.symlink blocksize dir dentry symname new pageErr addErr
  | .mkdir dir dentry mode new beginErr commitErr addErr =>
      fs.mkdir dir dentry mode new beginErr commitErr addErr
  | .rmdir dir dentry n => fs.rmdir dir dentry n
  | .deleteInode n => (0, fs.deleteInode n)

end Comp3301.Ext3301
