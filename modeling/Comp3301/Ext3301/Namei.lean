import Comp3301.Ext3301.File

/-!
# The file system: directories

The entries of directories (`a3/dir.c`) and the calls that change them (`a3/namei.c`), and
`ext3301_sync_write`, which changes the type in an entry.

* A directory is the list of its live entries, in the order of the disk; an entry is identified by
  its index. Directory pages are assumed to be well formed and writable.
* `ext2_new_inode` gives the number of an inode that is not in use (`Call.Possible`), or fails.
* A call carries what the kernel hands over: directories and inodes by their numbers, and dentries.
* `Fs.step` is one call, with its result.
-/

namespace Comp3301.Ext3301

open Comp3301.Lib

/-! ## Entries -/

/-- `struct ext2_dir_entry_2`. -/
structure Entry where
  name : Name
  inode : ℕ
  fileType : UInt8
  deriving DecidableEq

/-- `ext2_type_by_mode`. -/
def ext2TypeByMode (type : ℕ) : UInt8 :=
  match type with
  | 8 => 1
  | 4 => 2
  | 2 => 3
  | 6 => 4
  | 1 => 5
  | 12 => 6
  | 10 => 7
  | _ => 0

/-- The type that `ext2_set_de_type` stores; `filetype` is the feature `FILETYPE`. -/
def deType (filetype : Bool) (mode : Mode) : UInt8 :=
  if filetype then
    if sIsim mode then 8 else ext2TypeByMode ((mode &&& sIfmt).toNat >>> 12)
  else 0

/-- `EIO`. -/
def eio : ℤ := 5

/-- `EEXIST`. -/
def eexist : ℤ := 17

/-- `EMLINK`. -/
def emlink : ℤ := 31

/-- `ENOTEMPTY`. -/
def enotempty : ℤ := 39

/-- The file system: the inodes and their link counts, by number, and the entries of the
directories. -/
structure Fs where
  filetype : Bool
  inodes : ℕ → Inode
  nlink : ℕ → ℕ
  dirs : ℕ → List Entry

namespace Fs

variable (fs : Fs)

/-- `ext2_find_entry`. -/
def findEntry (dir : ℕ) (name : Name) : Option ℕ := (fs.dirs dir).findIdx? (·.name = name)

/-- A directory with other entries. -/
def setDir (dir : ℕ) (entries : List Entry) : Fs :=
  { fs with dirs := Function.update fs.dirs dir entries }

/-- An inode that has changed. -/
def setInode (n : ℕ) (ino : Inode) : Fs := { fs with inodes := Function.update fs.inodes n ino }

/-- `inode_inc_link_count`. -/
def incLinkCount (n : ℕ) : Fs := { fs with nlink := Function.update fs.nlink n (fs.nlink n + 1) }

/-- `inode_dec_link_count`. -/
def decLinkCount (n : ℕ) : Fs := { fs with nlink := Function.update fs.nlink n (fs.nlink n - 1) }

/-- `ext2_set_link`: entry `i` of the directory becomes a link to inode `n`. -/
def setLink (dir i n : ℕ) : Fs :=
  fs.setDir dir <| (fs.dirs dir).modify i fun e =>
    { e with inode := n, fileType := deType fs.filetype (fs.inodes n).iMode }

/-- `ext2_add_link`. `err` is what else may go wrong, 0 if nothing does. -/
def addLink (dir : ℕ) (name : Name) (n : ℕ) (err : ℤ) : ℤ × Fs :=
  if (fs.findEntry dir name).isSome then (-eexist, fs)
  else if err ≠ 0 then (err, fs)
  else
    (0, fs.setDir dir (fs.dirs dir ++ [⟨name, n, deType fs.filetype (fs.inodes n).iMode⟩]))

/-- `ext2_delete_entry`. -/
def deleteEntry (dir i : ℕ) : Fs := fs.setDir dir ((fs.dirs dir).eraseIdx i)

/-- `ext2_empty_dir`. -/
def emptyDir (dir : ℕ) : Bool :=
  (fs.dirs dir).all fun e =>
    e.name.head? = some '.' && e.name.length ≤ 2 &&
      if e.name.length < 2 then decide (e.inode = dir) else decide (e.name[1]? = some '.')

/-! ## Edits -/

/-- The file systems that come from `fs` by changes of link counts and by links that are made,
redirected or removed. -/
inductive Edits (fs : Fs) : Fs → Prop
  | refl : Edits fs fs
  | incLinkCount {fs' : Fs} (h : Edits fs fs') (n : ℕ) : Edits fs (fs'.incLinkCount n)
  | decLinkCount {fs' : Fs} (h : Edits fs fs') (n : ℕ) : Edits fs (fs'.decLinkCount n)
  | setLink {fs' : Fs} (h : Edits fs fs') (dir i n : ℕ) : Edits fs (fs'.setLink dir i n)
  | addLink {fs' : Fs} (h : Edits fs fs') (dir : ℕ) (name : Name) (n : ℕ) (err : ℤ) :
      Edits fs (fs'.addLink dir name n err).2
  | deleteEntry {fs' : Fs} (h : Edits fs fs') (dir i : ℕ) : Edits fs (fs'.deleteEntry dir i)

lemma addLink_inodes (dir : ℕ) (name : Name) (n : ℕ) (err : ℤ) :
    (fs.addLink dir name n err).2.inodes = fs.inodes := by
  unfold addLink
  split_ifs <;> rfl

/-- Edits leave the inodes alone. -/
lemma Edits.inodes_eq {fs fs' : Fs} (h : Edits fs fs') : fs'.inodes = fs.inodes := by
  induction h with
  | refl => rfl
  | incLinkCount _ n ih => exact ih
  | decLinkCount _ n ih => exact ih
  | setLink _ dir i n ih => exact ih
  | addLink _ dir name n err ih => exact (addLink_inodes _ _ _ _ _).trans ih
  | deleteEntry _ dir i ih => exact ih

end Fs

/-! ## Renaming -/

/-- `PAGE_CACHE_SIZE`. -/
def pageSize : ℕ := 4096

/-- `dir_pages`. -/
def dirPages (size : ℕ) : ℕ := (size + pageSize - 1) / pageSize

/-- `crypto`: the first byte of every page. -/
def crypto (key : UInt8) (ino : Inode) : Inode :=
  { ino with
    contents := (List.range (dirPages ino.contents.length)).foldl
      (fun c i => c.modify (i * pageSize) (crypt key)) ino.contents }

/-- `"/encrypt"`. -/
def encryptDir : Name := slash ++ encryptName

/-- The string that `ext2_rename` composes of the names of a dentry's directory. -/
def Dentry.dirPath (d : Dentry) : Name := d.dParent.dParent.dName ++ d.dParent.dName

/-- `EXT2_LINK_MAX`. -/
def linkMax : ℕ := 32000

/-- A call of `ext2_rename`. `dotdot` says that `ext2_dotdot` can read the directory, `addErr` is
what goes wrong in `ext2_add_link`. -/
structure Rename where
  oldDir : ℕ
  oldDentry : Dentry
  oldInode : ℕ
  newDir : ℕ
  newDentry : Dentry
  newInode : Option ℕ
  dotdot : Bool
  addErr : ℤ

/-- The part of `ext2_rename` that makes the new entry. -/
def Rename.link (c : Rename) (isDir : Bool) (fs : Fs) : ℤ × Fs :=
  match c.newInode with
  | some n =>
      if isDir && !fs.emptyDir n then (-enotempty, fs)
      else
        match fs.findEntry c.newDir c.newDentry.dName with
        | none => (-enoent, fs)
        | some i =>
            let fs := (fs.incLinkCount c.oldInode).setLink c.newDir i c.oldInode
            let fs := if isDir then fs.decLinkCount n else fs
            (0, fs.decLinkCount n)
  | none =>
      if isDir ∧ linkMax ≤ fs.nlink c.newDir then (-emlink, fs)
      else
        let (err, fs) :=
          (fs.incLinkCount c.oldInode).addLink c.newDir c.newDentry.dName c.oldInode c.addErr
        if err ≠ 0 then (err, fs.decLinkCount c.oldInode)
        else (0, if isDir then fs.incLinkCount c.newDir else fs)

lemma Rename.edits_link (c : Rename) (isDir : Bool) (fs : Fs) :
    Fs.Edits fs (c.link isDir fs).2 := by
  have hstart : Fs.Edits fs (fs.incLinkCount c.oldInode) := Fs.Edits.refl.incLinkCount _
  unfold Rename.link
  rcases hnew : c.newInode with _ | n
  · by_cases hmax : isDir ∧ linkMax ≤ fs.nlink c.newDir
    · simp only [if_pos hmax]
      exact Fs.Edits.refl
    · simp only [if_neg hmax]
      have hadd := hstart.addLink c.newDir c.newDentry.dName c.oldInode c.addErr
      split_ifs
      · exact hadd.decLinkCount _
      · exact hadd.incLinkCount _
      · exact hadd
  · by_cases hempty : isDir && !fs.emptyDir n
    · simp only [if_pos hempty]
      exact Fs.Edits.refl
    · simp only [if_neg hempty]
      rcases fs.findEntry c.newDir c.newDentry.dName with _ | i
      · exact Fs.Edits.refl
      · have hset := hstart.setLink c.newDir i c.oldInode
        simp only
        split_ifs
        · exact (hset.decLinkCount n).decLinkCount n
        · exact hset.decLinkCount n

/-- The file goes into `/encrypt` or out of it. -/
def Rename.crosses (c : Rename) : Bool :=
  (c.oldDentry.dirPath ≠ encryptDir ∧ c.newDentry.dirPath = encryptDir) ∨
    (c.oldDentry.dirPath = encryptDir ∧ c.newDentry.dirPath ≠ encryptDir)

/-- The part of `ext2_rename` that converts a regular file. -/
def Rename.convert (key : UInt8) (c : Rename) (fs : Fs) : Fs :=
  if sIsreg (fs.inodes c.oldInode).iMode && c.crosses then
    fs.setInode c.oldInode (crypto key (fs.inodes c.oldInode))
  else fs

/-- The part of `ext2_rename` that removes entry `i`, the old one, and lets a directory's entry for
its parent, its second one, follow. -/
def Rename.unlink (c : Rename) (isDir : Bool) (i : ℕ) (fs : Fs) : Fs :=
  let fs := (fs.deleteEntry c.oldDir i).decLinkCount c.oldInode
  if isDir then
    let fs := if c.oldDir ≠ c.newDir then fs.setLink c.oldInode 1 c.newDir else fs
    fs.decLinkCount c.oldDir
  else fs

lemma Rename.edits_unlink (c : Rename) (isDir : Bool) (i : ℕ) (fs : Fs) :
    Fs.Edits fs (c.unlink isDir i fs) := by
  have hstart : Fs.Edits fs ((fs.deleteEntry c.oldDir i).decLinkCount c.oldInode) :=
    (Fs.Edits.refl.deleteEntry _ _).decLinkCount _
  unfold Rename.unlink
  simp only
  split_ifs
  · exact (hstart.setLink _ _ _).decLinkCount _
  · exact hstart.decLinkCount _
  · exact hstart

/-- `ext2_rename`. -/
def Rename.run (key : UInt8) (c : Rename) (fs : Fs) : ℤ × Fs :=
  let isDir := sIsdir (fs.inodes c.oldInode).iMode
  match fs.findEntry c.oldDir c.oldDentry.dName with
  | none => (-enoent, fs)
  | some i =>
      if isDir && !c.dotdot then (-eio, fs)
      else
        let (err, fs) := c.link isDir fs
        if err ≠ 0 then (err, fs) else (0, c.unlink isDir i (c.convert key fs))

/-- What a rename does: edits, or edits around the conversion when it succeeds. -/
lemma Rename.run_cases (key : UInt8) (c : Rename) (fs : Fs) :
    ((c.run key fs).1 ≠ 0 ∧ Fs.Edits fs (c.run key fs).2) ∨
      ∃ fs', Fs.Edits fs fs' ∧ Fs.Edits (c.convert key fs') (c.run key fs).2 := by
  unfold Rename.run
  rcases fs.findEntry c.oldDir c.oldDentry.dName with _ | i
  · exact Or.inl ⟨by simp [enoent], Fs.Edits.refl⟩
  · simp only
    split_ifs with hdir hlink
    · exact Or.inl ⟨by simp [eio], Fs.Edits.refl⟩
    · exact Or.inl ⟨hlink, c.edits_link _ fs⟩
    · exact Or.inr ⟨_, c.edits_link _ fs, c.edits_unlink _ i _⟩

/-! ## Calls -/

/-- A call of `ext3301_sync_write` on the file `filp` of inode `n`, whose entry is in directory
`dir`. -/
structure WriteOp where
  vfs : Vfs
  env : Env
  filp : Filp
  n : ℕ
  dir : ℕ
  buf : List UInt8
  ppos : ℕ

/-- The calls. `new` is the inode that `ext2_new_inode` gives and its flags. -/
inductive Call where
  | create (dir : ℕ) (dentry : Dentry) (mode : {m : Mode // sIsreg m})
      (new : Except ℤ (ℕ × BitVec 32)) (addErr : ℤ)
  | link (n dir : ℕ) (dentry : Dentry) (addErr : ℤ)
  | unlink (dir : ℕ) (dentry : Dentry) (n : ℕ)
  | rename (c : Rename)
  | write (w : WriteOp)

namespace Fs

/-- No entry is a link to inode `n`. -/
def Unused (fs : Fs) (n : ℕ) : Prop := ∀ dir, ∀ e ∈ fs.dirs dir, e.inode ≠ n

/-- The inode that `ext2_new_inode` makes. -/
def addInode (fs : Fs) (n : ℕ) (ino : Inode) : Fs :=
  { fs.setInode n ino with nlink := Function.update fs.nlink n 1 }

/-- `ext2_create`. -/
def create (fs : Fs) (dir : ℕ) (dentry : Dentry) (mode : {m : Mode // sIsreg m})
    (new : Except ℤ (ℕ × BitVec 32)) (addErr : ℤ) : ℤ × Fs :=
  match new with
  | .error err => (err, fs)
  | .ok (n, iFlags) =>
      let (err, fs) := (fs.addInode n (newInode mode iFlags)).addLink dir dentry.dName n addErr
      if err ≠ 0 then (err, fs.decLinkCount n) else (0, fs)

/-- `ext2_link`. -/
def link (fs : Fs) (n dir : ℕ) (dentry : Dentry) (addErr : ℤ) : ℤ × Fs :=
  if linkMax ≤ fs.nlink n then (-emlink, fs)
  else
    let (err, fs) := (fs.incLinkCount n).addLink dir dentry.dName n addErr
    if err ≠ 0 then (err, fs.decLinkCount n) else (0, fs)

/-- `ext2_unlink`. -/
def unlink (fs : Fs) (dir : ℕ) (dentry : Dentry) (n : ℕ) : ℤ × Fs :=
  match fs.findEntry dir dentry.dName with
  | none => (-enoent, fs)
  | some i => (0, (fs.deleteEntry dir i).decLinkCount n)

/-- `de->file_type = 1` for the entry that `ext2_find_entry` finds. -/
def setFileType (fs : Fs) (dir : ℕ) (name : Name) : Fs :=
  match fs.findEntry dir name with
  | none => fs
  | some i => fs.setDir dir ((fs.dirs dir).modify i fun e => { e with fileType := 1 })

/-- `ext3301_sync_write`. -/
def write (key : UInt8) (fs : Fs) (w : WriteOp) : ℤ × Fs :=
  let env := { w.env with found := (fs.findEntry w.dir w.filp.dentry.dName).isSome }
  let r := syncWrite w.vfs key env w.filp (fs.inodes w.n) w.buf w.ppos
  let fs := fs.setInode w.n r.inode
  (r.ret, if r.setType then fs.setFileType w.dir w.filp.dentry.dName else fs)

/-- One call. -/
def step (key : UInt8) (fs : Fs) : Call → ℤ × Fs
  | .create dir dentry mode new addErr => fs.create dir dentry mode new addErr
  | .link n dir dentry addErr => fs.link n dir dentry addErr
  | .unlink dir dentry n => fs.unlink dir dentry n
  | .rename c => c.run key fs
  | .write w => fs.write key w

end Fs

/-- `do_sync_write` leaves the type of an inode alone. -/
def Vfs.KeepsType (vfs : Vfs) : Prop :=
  ∀ append ino buf ppos,
    (vfs.doSyncWrite append ino buf ppos).inode.iMode &&& sIfmt = ino.iMode &&& sIfmt

/-- What the inode allocator and `do_sync_write` promise: a new inode is not in use, and the type of
an inode is not changed. -/
def Call.Possible (fs : Fs) : Call → Prop
  | .create _ _ _ (.ok (n, _)) _ => fs.Unused n
  | .write w => w.vfs.KeepsType
  | _ => True

end Comp3301.Ext3301
