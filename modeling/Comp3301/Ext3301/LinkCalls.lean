import Comp3301.Ext3301.LinkCounts

/-!
# Link counts: the calls

The calls of `a3/namei.c` but `ext2_rename` keep the tree of directories and the link counts, when
they are called as the kernel calls them.

* `NameCall.Promise`: what the kernel promises. Directories have links, a dentry's inode is what its
  name stands for, `.` and `..` are not renamed or removed, and a directory is not moved below
  itself. A new inode is one without links.
* One lemma for each call, put together from the rules of `Fs.Keeps`.
-/

namespace Comp3301.Ext3301

open Comp3301.Lib NameTree

namespace Fs

/-- A directory that has not been removed. -/
def LinkedDir (fs : Fs) (d : ℕ) : Prop := fs.isDir d = true ∧ fs.nlink d ≠ 0

/-- What `ext2_lookup` has found for a dentry; `.` and `..` have none. -/
def Names (fs : Fs) (d : ℕ) (name : Name) (n : ℕ) : Prop :=
  Proper name ∧ ∃ i e, fs.findEntry d name = some i ∧ (fs.dirs d)[i]? = some e ∧ e.inode = n

/-- `ext2_get_parent`: the inode number, if there is an entry for it. -/
def getParent (fs : Fs) (d : ℕ) : Option ℕ :=
  (fs.findEntry d dotDotName).bind fun i => (fs.dirs d)[i]?.map Entry.inode

/-- Following `ext2_get_parent` from `d`, one comes to `n`. -/
inductive Below (fs : Fs) : ℕ → ℕ → Prop
  | refl (d : ℕ) : Below fs d d
  | parent {d p n : ℕ} (h : fs.getParent d = some p) (hp : Below fs p n) : Below fs d n

/-- What `ext2_new_inode` promises: the inode has no links. -/
def NewInode (fs : Fs) : Except ℤ (ℕ × BitVec 32) → Prop
  | .error _ => True
  | .ok (n, _) => fs.nlink n = 0

end Fs

/-- What is promised about a rename. -/
structure Rename.Promise (c : Rename) (fs : Fs) : Prop where
  oldDir : fs.LinkedDir c.oldDir
  newDir : fs.LinkedDir c.newDir
  old : fs.Names c.oldDir c.oldDentry.dName c.oldInode
  target : ∀ n, c.newInode = some n → fs.Names c.newDir c.newDentry.dName n ∧ n ≠ c.oldInode ∧
    fs.isDir n = fs.isDir c.oldInode
  below : fs.isDir c.oldInode = true → ¬ fs.Below c.newDir c.oldInode

/-- What is promised about a call. -/
def NameCall.Promise (fs : Fs) : NameCall → Prop
  | .call (.create dir _ _ new _) => fs.LinkedDir dir ∧ fs.NewInode new
  | .call (.link n dir _ _) => fs.LinkedDir dir ∧ fs.isDir n = false
  | .call (.unlink dir dentry n) =>
      fs.LinkedDir dir ∧ fs.Names dir dentry.dName n ∧ fs.isDir n = false
  | .call (.rename c) => c.Promise fs
  | .call (.write w) => w.vfs.KeepsType
  | .mknod dir _ mode _ new _ => fs.LinkedDir dir ∧ fs.NewInode new ∧ sIsdir mode = false
  | .symlink _ dir _ _ new _ _ => fs.LinkedDir dir ∧ fs.NewInode new
  | .mkdir dir _ _ new _ _ _ => fs.LinkedDir dir ∧ fs.NewInode new
  | .rmdir dir dentry n => fs.LinkedDir dir ∧ fs.Names dir dentry.dName n ∧ fs.isDir n = true
  | .deleteInode n => fs.nlink n = 0

namespace Fs

variable {fs : Fs} {root n d dir : ℕ} {T : NameTree}

/-! ## Lookups -/

lemma Names.entry {name : Name} (h : fs.Names dir name n) :
    ∃ i e, fs.findEntry dir name = some i ∧ (fs.dirs dir)[i]? = some e ∧ e.name = name ∧
      e.inode = n ∧ e.link = (name, n) := by
  obtain ⟨-, i, e, hfind, he, rfl⟩ := h
  obtain ⟨e', he', rfl⟩ := findEntry_eq hfind
  obtain rfl : e' = e := Option.some.inj (he'.symm.trans he)
  exact ⟨i, e', hfind, he, rfl, rfl, rfl⟩

/-- `ext2_get_parent` finds the parent in the tree. -/
lemma Keeps.getParent {debt : ℕ → ℤ} (h : fs.Keeps T debt) (hd : d ∈ T.live) :
    fs.getParent d = some (T.parent d) := by
  obtain ⟨t, t', rest, hdir, -⟩ := h.entries d hd
  have hfind : fs.findEntry d dotDotName = some 1 := by
    rw [findEntry, hdir, List.findIdx?_cons, List.findIdx?_cons]
    rfl
  rw [Fs.getParent, hfind, hdir]
  rfl

/-- The way from a directory to the root. -/
lemma Sound.below (h : fs.Sound root T) (hd : d ∈ T.live) (k : ℕ) :
    fs.Below d (T.parent^[k] d) := by
  induction k generalizing d with
  | zero => exact Below.refl d
  | succ k ih =>
    rw [Function.iterate_succ_apply]
    exact Below.parent (h.keeps.getParent hd) (ih (h.ok.parent_mem d hd))

/-- What the promise about the directories of a call means for the tree. -/
lemma Sound.live (h : fs.Sound root T) (hd : fs.LinkedDir d) : d ∈ T.live := h.live_iff.mpr hd

/-! ## Files -/

lemma isDir_addInode (fs : Fs) (n : ℕ) (ino : Inode) (k : ℕ) :
    (fs.addInode n ino).isDir k = if k = n then sIsdir ino.iMode else fs.isDir k := by
  rw [isDir, addInode, setInode]
  simp only [Function.update_apply]
  split_ifs <;> rfl

/-- What kind a new inode is does not matter for the tree. -/
lemma Sound.ok_addInode (h : fs.Sound root T) (hn : fs.nlink n = 0) (ino : Inode) :
    T.Ok root (fs.addInode n ino).isDir := by
  obtain ⟨hlive, hnames⟩ := h.unlinked hn
  refine h.ok.congr (fun d hd => ?_) fun p hp x hx => ?_
  · rw [isDir_addInode, if_neg]
    rintro rfl
    exact hlive hd
  · rw [isDir_addInode, if_neg (hnames p hp x hx)]

/-- An inode that is made and has to be given back. -/
lemma Sound.giveBack (h : fs.Sound root T) (hn : fs.nlink n = 0) (ino : Inode) :
    ((fs.addInode n ino).decLinkCount n).Sound root T := by
  refine ⟨h.ok_addInode hn ino, ((h.keeps.addInode hn ino).dec (n := n) ?_).congr fun k => ?_⟩
  · rw [zero_add, one_self]
    exact Int.one_pos
  · rw [zero_add, sub_self]

/-- `ext2_create`, `ext2_mknod` and `ext2_symlink`. -/
lemma Sound.addNondir (h : fs.Sound root T) (hdir : fs.LinkedDir dir) (hn : fs.nlink n = 0)
    {ino : Inode} (hfile : sIsdir ino.iMode = false) (dentry : Dentry) (addErr : ℤ) :
    ∃ T', ((fs.addInode n ino).addNondir dir dentry n addErr).2.Sound root T' := by
  unfold Fs.addNondir
  simp only
  rcases (h.keeps.addInode hn ino).addLink (h.live hdir) dentry.dName n addErr with
    ⟨herr, hfs⟩ | ⟨hok, hproper, hfresh, hisDir, hkeeps⟩
  · rw [if_pos herr, hfs]
    exact ⟨T, h.giveBack hn ino⟩
  · rw [if_neg (not_not.mpr hok)]
    have hfile' : (fs.addInode n ino).isDir n = false := by
      rw [isDir_addInode, if_pos rfl, hfile]
    have htree : (T.add dir (dentry.dName, n)).Ok root (fs.addInode n ino).isDir :=
      NameTree.Ok.add (h.ok_addInode hn ino) hfile' hproper hfresh
    refine ⟨_, hisDir.symm ▸ htree, hkeeps.congr fun k => ?_⟩
    rw [zero_add, sub_self]

lemma Sound.create (h : fs.Sound root T) {new : Except ℤ (ℕ × BitVec 32)}
    (hdir : fs.LinkedDir dir) (hnew : fs.NewInode new) (dentry : Dentry)
    (mode : {m : Mode // sIsreg m}) (addErr : ℤ) :
    ∃ T', (fs.create dir dentry mode new addErr).2.Sound root T' := by
  rcases new with err | ⟨n, iFlags⟩
  · exact ⟨T, h⟩
  · refine h.addNondir hdir hnew ?_ dentry addErr
    have him := sIsim_created mode.2
    simp only [sIsim, decide_eq_true_eq] at him
    rw [sIsdir, show (newInode mode iFlags).iMode = created mode from rfl, him]
    rfl

lemma Sound.mknod (h : fs.Sound root T) {new : Except ℤ (ℕ × BitVec 32)} {mode : Mode}
    (hdir : fs.LinkedDir dir) (hnew : fs.NewInode new) (hmode : sIsdir mode = false)
    (dentry : Dentry) (valid : Bool) (addErr : ℤ) :
    ∃ T', (fs.mknod dir dentry mode valid new addErr).2.Sound root T' := by
  unfold Fs.mknod
  split_ifs
  · exact ⟨T, h⟩
  · rcases new with err | ⟨n, iFlags⟩
    · exact ⟨T, h⟩
    · exact h.addNondir hdir hnew hmode dentry addErr

lemma Sound.symlink (h : fs.Sound root T) {new : Except ℤ (ℕ × BitVec 32)}
    (hdir : fs.LinkedDir dir) (hnew : fs.NewInode new) (blocksize : ℕ) (dentry : Dentry)
    (symname : List UInt8) (pageErr addErr : ℤ) :
    ∃ T', (fs.symlink blocksize dir dentry symname new pageErr addErr).2.Sound root T' := by
  have hmode : sIsdir linkMode = false := rfl
  unfold Fs.symlink
  rcases new with err | ⟨n, iFlags⟩
  · simp only
    split_ifs <;> exact ⟨T, h⟩
  · simp only
    split_ifs
    · exact ⟨T, h⟩
    · exact ⟨T, h.giveBack hnew _⟩
    · exact h.addNondir hdir hnew hmode dentry addErr
    · exact h.addNondir hdir hnew hmode dentry addErr

lemma Sound.link (h : fs.Sound root T) (hdir : fs.LinkedDir dir) (hn : fs.isDir n = false)
    (dentry : Dentry) (addErr : ℤ) :
    ∃ T', (fs.link n dir dentry addErr).2.Sound root T' := by
  have hinc := h.keeps.inc n
  unfold Fs.link
  split_ifs with hmax
  · exact ⟨T, h⟩
  · simp only
    rcases hinc.addLink (h.live hdir) dentry.dName n addErr with
      ⟨herr, hfs⟩ | ⟨hok, hproper, hfresh, hisDir, hkeeps⟩
    · rw [if_pos herr, hfs]
      refine ⟨T, h.ok, (hinc.dec (n := n) ?_).congr fun k => ?_⟩
      · rw [zero_add, one_self]
        exact Int.one_pos
      · rw [zero_add, sub_self]
    · rw [if_neg (not_not.mpr hok)]
      have htree : (T.add dir (dentry.dName, n)).Ok root fs.isDir :=
        NameTree.Ok.add h.ok hn hproper hfresh
      refine ⟨_, hisDir.symm ▸ htree, hkeeps.congr fun k => ?_⟩
      rw [zero_add, sub_self]

/-- An entry is deleted, and its inode counted down. -/
lemma Keeps.unlink {debt : ℕ → ℤ} {i : ℕ} {e : Entry} (h : fs.Keeps T debt) (hp : dir ∈ T.live)
    (he : (fs.dirs dir)[i]? = some e) (hproper : Proper e.name) (hdebt : 0 ≤ debt e.inode) :
    e.link ∈ T.names dir ∧
      ((fs.deleteEntry dir i).decLinkCount e.inode).Keeps (T.remove dir e.link) debt := by
  obtain ⟨hmem, hkeeps⟩ := h.deleteEntry hp he hproper
  refine ⟨hmem, (hkeeps.dec (n := e.inode) ?_).congr fun k => ?_⟩
  · rw [Pi.add_apply, one_self]
    exact Int.lt_add_one_of_le hdebt
  · rw [add_sub_cancel_right]

lemma Sound.unlink (h : fs.Sound root T) {dentry : Dentry} (hdir : fs.LinkedDir dir)
    (hnames : fs.Names dir dentry.dName n) (hn : fs.isDir n = false) :
    ∃ T', (fs.unlink dir dentry n).2.Sound root T' := by
  obtain ⟨i, e, hfind, he, hname, rfl, -⟩ := hnames.entry
  unfold Fs.unlink
  rw [hfind]
  obtain ⟨hmem, hkeeps⟩ := h.keeps.unlink (h.live hdir) he (hname ▸ hnames.1) le_rfl
  exact ⟨_, NameTree.Ok.remove h.ok hmem hn, hkeeps⟩

/-! ## Directories -/

/-- What is owed for a new directory `n` in `dir`. -/
def mkdirDebt (dir n : ℕ) : ℕ → ℤ := one dir + one n + one n

/-- A new directory without a name is given back. -/
lemma Keeps.giveBackDir (h : fs.Keeps T (mkdirDebt dir n)) :
    (((fs.decLinkCount n).decLinkCount n).decLinkCount dir).Keeps T 0 := by
  have hnonneg := one_nonneg dir n
  have hfirst := h.dec (n := n) (by rw [mkdirDebt, Pi.add_apply, Pi.add_apply, one_self]; omega)
  have hsecond := hfirst.dec (n := n) (by
    rw [mkdirDebt, Pi.sub_apply, Pi.add_apply, Pi.add_apply, one_self]; omega)
  refine (hsecond.dec (n := dir) ?_).congr fun k => ?_
  · rw [mkdirDebt, add_sub_cancel_right, add_sub_cancel_right, one_self]
    exact Int.one_pos
  · rw [mkdirDebt, add_sub_cancel_right, add_sub_cancel_right, sub_self]

/-- `ext2_make_empty`, for a directory that has no name yet. -/
lemma Keeps.makeEmpty {debt : ℕ → ℤ} (h : fs.Keeps T debt) (hn : n ∉ T.live) (parent : ℕ)
    (beginErr commitErr : ℤ) :
    let r := fs.makeEmpty n parent beginErr commitErr
    r.2.isDir = fs.isDir ∧ r.2.Keeps T debt ∧ (r.1 = 0 → EntriesOf n parent 0 (r.2.dirs n)) := by
  unfold Fs.makeEmpty
  split_ifs with hbegin
  · exact ⟨rfl, h, fun hzero => absurd hzero hbegin⟩
  · refine ⟨rfl, h.outside hn _, fun _ => ?_⟩
    simp only [setDir, Function.update_self]
    exact ⟨_, _, [], rfl, rfl⟩

/-- A new directory, before its entries are made. -/
lemma Sound.newDir (h : fs.Sound root T) (hn : fs.nlink n = 0) (hne : n ≠ dir) (ino : Inode) :
    let fs' := (((fs.incLinkCount dir).addInode n ino).setDir n []).incLinkCount n
    T.Ok root fs'.isDir ∧ fs'.isDir n = sIsdir ino.iMode ∧ fs'.Keeps T (mkdirDebt dir n) := by
  have hzero : (fs.incLinkCount dir).nlink n = 0 := by
    simp only [incLinkCount, Function.update_of_ne hne, hn]
  refine ⟨h.ok_addInode hn ino, ?_, ?_⟩
  · exact (isDir_addInode fs n ino n).trans (if_pos rfl)
  · refine ((((h.keeps.inc dir).addInode hzero ino).outside (h.unlinked hn).1 []).inc n).congr
      fun k => ?_
    rw [zero_add, mkdirDebt]

/-- The end of `ext2_mkdir`: the directory gets a name, or is given back. -/
lemma Keeps.nameDir (h : fs.Keeps T (mkdirDebt dir n)) (htree : T.Ok root fs.isDir)
    (hp : dir ∈ T.live) (hn : n ∉ T.live) (hdir : fs.isDir n = true)
    (hunnamed : ∀ q ∈ T.live, ∀ y ∈ T.names q, y.2 ≠ n)
    (hxs : EntriesOf n dir 0 (fs.dirs n)) (name : Name) (addErr : ℤ) :
    let r := fs.addLink dir name n addErr
    if r.1 ≠ 0 then (((r.2.decLinkCount n).decLinkCount n).decLinkCount dir).Sound root T
    else r.2.Sound root (T.graft dir (name, n)) := by
  have hne : n ≠ dir := by
    rintro rfl
    exact hn hp
  simp only
  rcases h.addLink hp name n addErr with ⟨herr, hfs⟩ | ⟨hok, hproper, hfresh, hisDir, hkeeps⟩
  · rw [if_pos herr, hfs]
    exact ⟨htree, h.giveBackDir⟩
  · rw [if_neg (not_not.mpr hok)]
    refine ⟨hisDir.symm ▸ NameTree.Ok.graft htree hp hn hdir hproper hfresh hunnamed, ?_⟩
    rw [graft_eq T hne]
    rw [← addLink_dirs_ne fs name n addErr hne] at hxs
    refine (hkeeps.letIn hn hxs).congr fun k => ?_
    rw [mkdirDebt, add_sub_cancel_right, add_sub_cancel_right, sub_self]

lemma Sound.mkdir (h : fs.Sound root T) {new : Except ℤ (ℕ × BitVec 32)}
    (hdir : fs.LinkedDir dir) (hnew : fs.NewInode new) (dentry : Dentry)
    (mode : {m : Mode // sIsdir m}) (beginErr commitErr addErr : ℤ) :
    ∃ T', (fs.mkdir dir dentry mode new beginErr commitErr addErr).2.Sound root T' := by
  have hp := h.live hdir
  rcases new with err | ⟨n, iFlags⟩
  · unfold Fs.mkdir
    split_ifs
    · exact ⟨T, h⟩
    · refine ⟨T, h.ok, ((h.keeps.inc dir).dec (n := dir) ?_).congr fun k => ?_⟩
      · rw [zero_add, one_self]
        exact Int.one_pos
      · rw [zero_add, sub_self]
  · have hn : fs.nlink n = 0 := hnew
    have hne : n ≠ dir := by
      rintro rfl
      exact hdir.2 hn
    obtain ⟨hlive, hunnamed⟩ := h.unlinked hn
    obtain ⟨htree, hnewDir, hkeeps⟩ := h.newDir hn hne ⟨mode, Data.new iFlags, []⟩
    obtain ⟨hisDir, hmake, hxs⟩ := hkeeps.makeEmpty hlive dir beginErr commitErr
    have hname := fun herr => hmake.nameDir (hisDir.symm ▸ htree) hp hlive
      ((congrFun hisDir n).trans (hnewDir.trans mode.2)) hunnamed (hxs herr) dentry.dName addErr
    unfold Fs.mkdir
    split_ifs with hmax
    · exact ⟨T, h⟩
    · simp only
      split_ifs with herr hadd
      · exact ⟨T, hisDir.symm ▸ htree, hmake.giveBackDir⟩
      · have hback := hname (not_not.mp herr)
        rw [if_pos hadd] at hback
        exact ⟨T, hback⟩
      · have hnamed := hname (not_not.mp herr)
        rw [if_neg hadd] at hnamed
        exact ⟨_, hnamed⟩

lemma Sound.rmdir (h : fs.Sound root T) {dentry : Dentry} (hdir : fs.LinkedDir dir)
    (hnames : fs.Names dir dentry.dName n) (hn : fs.isDir n = true) :
    ∃ T', (fs.rmdir dir dentry n).2.Sound root T' := by
  have hp := h.live hdir
  obtain ⟨i, e, hfind, he, hname, rfl, -⟩ := hnames.entry
  obtain ⟨hmem, hkeeps⟩ := h.keeps.unlink hp he (hname ▸ hnames.1) le_rfl
  unfold Fs.rmdir Fs.unlink
  rw [hfind]
  split_ifs with hempty
  · simp only
    have hlive : e.inode ∈ T.live := h.ok.closed dir hp e.link hmem hn
    have hnone := h.names_of_emptyDir hlive hempty
    have hparent : T.parent e.inode = dir := (h.ok.parent_eq hp hmem hlive).2
    have hne : e.inode ≠ dir := by
      rintro heq
      rw [← heq, hnone] at hmem
      exact Multiset.notMem_zero _ hmem
    have hdismiss := hkeeps.dismiss hlive (by rw [NameTree.remove, setNames_names_ne hne, hnone])
    rw [NameTree.remove, setNames_parent, hparent, zero_add] at hdismiss
    have hfirst := (hdismiss.outside (Finset.notMem_erase _ _) []).dec (n := e.inode) (by
      have hnonneg := one_nonneg dir e.inode
      rw [Pi.add_apply, one_self]
      omega)
    rw [add_sub_cancel_left] at hfirst
    rw [if_neg (not_not.mpr rfl)]
    refine ⟨T.prune dir e.link, NameTree.Ok.prune h.ok hp hmem hlive hnone,
      (hfirst.dec (n := dir) ?_).congr fun k => ?_⟩
    · rw [one_self]
      exact Int.one_pos
    · rw [sub_self]
  · exact ⟨T, h⟩

/-! ## Inodes -/

lemma Keeps.setInode {debt : ℕ → ℤ} (h : fs.Keeps T debt) (n : ℕ) (ino : Inode) :
    (fs.setInode n ino).Keeps T debt := ⟨h.entries, h.owes⟩

lemma isDir_setInode {ino : Inode} (h : sIsdir ino.iMode = fs.isDir n) :
    (fs.setInode n ino).isDir = fs.isDir := by
  funext k
  rw [isDir, setInode, isDir]
  simp only [Function.update_apply]
  split_ifs with heq
  · rw [heq, h, isDir]
  · rfl

lemma Sound.deleteInode (h : fs.Sound root T) (hn : fs.nlink n = 0) :
    (fs.deleteInode n).Sound root T := by
  have hisDir : (fs.deleteInode n).isDir = fs.isDir := isDir_setInode rfl
  exact ⟨hisDir.symm ▸ h.ok, (h.keeps.setInode n _).outside (h.unlinked hn).1 []⟩

lemma Keeps.setFileType {debt : ℕ → ℤ} (h : fs.Keeps T debt) (dir : ℕ) (name : Name) :
    (fs.setFileType dir name).Keeps T debt := by
  unfold Fs.setFileType
  split
  · exact h
  · refine h.setTypes ?_
    rw [map_modify_of_comp]
    exact fun _ => rfl

lemma isDir_setFileType (fs : Fs) (dir : ℕ) (name : Name) :
    (fs.setFileType dir name).isDir = fs.isDir := by
  unfold Fs.setFileType
  split <;> rfl

/-- Neither writing nor converting makes a directory of a file. -/
lemma sIsdir_syncWrite {vfs : Vfs} (hvfs : vfs.KeepsType) (key : UInt8) (env : Env) (filp : Filp)
    (ino : Inode) (buf : List UInt8) (ppos : ℕ) :
    sIsdir (syncWrite vfs key env filp ino buf ppos).inode.iMode = sIsdir ino.iMode := by
  rcases syncWrite_type hvfs key env filp ino buf ppos with ⟨hconv, hreg, -⟩ | ⟨-, htype, -⟩
  · have him := hconv.immediate
    simp only [sIsim, sIsreg, decide_eq_true_eq] at him hreg
    rw [sIsdir, sIsdir, him, hreg]
    rfl
  · rw [sIsdir, htype, sIsdir]

lemma Sound.write (h : fs.Sound root T) (key : UInt8) (w : WriteOp) (hvfs : w.vfs.KeepsType) :
    (fs.write key w).2.Sound root T := by
  have hisDir : ∀ env, (fs.setInode w.n
      (syncWrite w.vfs key env w.filp (fs.inodes w.n) w.buf w.ppos).inode).isDir = fs.isDir :=
    fun env => isDir_setInode (sIsdir_syncWrite hvfs key env w.filp _ w.buf w.ppos)
  unfold Fs.write
  simp only
  split_ifs
  · refine ⟨?_, (h.keeps.setInode w.n _).setFileType w.dir _⟩
    rw [isDir_setFileType, hisDir]
    exact h.ok
  · refine ⟨?_, h.keeps.setInode w.n _⟩
    rw [hisDir]
    exact h.ok

end Fs

end Comp3301.Ext3301
