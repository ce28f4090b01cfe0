import Comp3301.Ext3301.Immediate
import Comp3301.Ext3301.Namei

/-!
# What a rename releases

`ext2_rename` with the trace of what it obtains and releases.

* `Rename.traced` is `Rename.run` with the trace next to the result (`traced_fst`). `ext2_set_link`
  and `ext2_delete_entry` release the page they are given.
* The labels at the end fall through into one another, and each of them frees the two strings. So a
  rename that fails behind the search for the old entry frees them twice or three times
  (`releasedOnce_iff`).
-/

namespace Comp3301.Ext3301

/-! ## Traces -/

/-- What a rename obtains. -/
inductive Resource where
  | oldDirPath
  | newDirPath
  | oldPage
  | dirPage
  | newPage
  deriving DecidableEq

instance : Fintype Resource where
  elems := {.oldDirPath, .newDirPath, .oldPage, .dirPage, .newPage}
  complete r := by cases r <;> decide

/-- An event of a trace. -/
inductive RenameEvent where
  | obtain (r : Resource)
  | release (r : Resource)
  deriving DecidableEq

/-- Everything that is obtained is released exactly once, and nothing else is released. -/
def ReleasedOnce (events : List RenameEvent) : Prop :=
  ∀ r, events.count (.release r) = if .obtain r ∈ events then 1 else 0

instance (events : List RenameEvent) : Decidable (ReleasedOnce events) :=
  inferInstanceAs (Decidable (∀ _, _))

/-! ## The rename -/

/-- `kfree (old_dir_path)` and `kfree (new_dir_path)`. -/
def freePaths : List RenameEvent := [.release .oldDirPath, .release .newDirPath]

/-- From the label `out` on. -/
def outEvents : List RenameEvent := freePaths

/-- From the label `out_old` on. -/
def outOldEvents : List RenameEvent := .release .oldPage :: freePaths ++ outEvents

/-- From the label `out_dir` on. `isDir` says that `dir_de` is set. -/
def outDirEvents (isDir : Bool) : List RenameEvent :=
  (if isDir then [.release .dirPage] else []) ++ freePaths ++ outOldEvents

/-- The end of a rename that succeeds: `ext2_delete_entry` releases the old page, and
`ext2_set_link` or the code itself the one of the directory. -/
def successEvents (isDir : Bool) : List RenameEvent :=
  freePaths ++ .release .oldPage :: if isDir then [.release .dirPage] else []

namespace Rename

/-- The events while the new entry is made: `ext2_find_entry` obtains the page of the target, and
`ext2_set_link` releases it. -/
def linkEvents (c : Rename) (isDir : Bool) (fs : Fs) : List RenameEvent :=
  match c.newInode with
  | some n =>
      if isDir && !fs.emptyDir n then []
      else if (fs.findEntry c.newDir c.newDentry.dName).isSome then
        [.obtain .newPage, .release .newPage]
      else []
  | none => []

/-- `ext2_rename`, with its trace. -/
def traced (key : UInt8) (c : Rename) (fs : Fs) : (ℤ × Fs) × List RenameEvent :=
  let isDir := sIsdir (fs.inodes c.oldInode).iMode
  let events : List RenameEvent := [.obtain .oldDirPath, .obtain .newDirPath]
  match fs.findEntry c.oldDir c.oldDentry.dName with
  | none => ((-enoent, fs), events ++ outEvents)
  | some i =>
      let events := events ++ [.obtain .oldPage]
      if isDir && !c.dotdot then ((-eio, fs), events ++ outOldEvents)
      else
        let events := events ++ if isDir then [.obtain .dirPage] else []
        let events := events ++ c.linkEvents isDir fs
        let (err, fs) := c.link isDir fs
        if err ≠ 0 then ((err, fs), events ++ outDirEvents isDir)
        else ((0, c.unlink isDir i (c.convert key fs)), events ++ successEvents isDir)

/-- But for the trace it is `Rename.run`. -/
lemma traced_fst (key : UInt8) (c : Rename) (fs : Fs) : (c.traced key fs).1 = c.run key fs := by
  unfold traced run
  rcases fs.findEntry c.oldDir c.oldDentry.dName with _ | i
  · rfl
  · simp only
    split_ifs <;> rfl

/-! ## When it succeeds -/

/-- Nothing prevents the new entry: a target that a directory is renamed to is empty, and its entry
is there; or there is no target, the limit on links is not reached, and `ext2_add_link` succeeds. -/
def LinkOk (c : Rename) (isDir : Bool) (fs : Fs) : Prop :=
  match c.newInode with
  | some n =>
      (isDir → fs.emptyDir n) ∧ (fs.findEntry c.newDir c.newDentry.dName).isSome
  | none =>
      (isDir → fs.nlink c.newDir < linkMax) ∧
        fs.findEntry c.newDir c.newDentry.dName = none ∧ c.addErr = 0

/-- What the rename needs once the old entry is found: a directory's entry for its parent can be
read, and nothing prevents the new entry. -/
def Goes (c : Rename) (fs : Fs) : Prop :=
  (sIsdir (fs.inodes c.oldInode).iMode → c.dotdot) ∧
    c.LinkOk (sIsdir (fs.inodes c.oldInode).iMode) fs

lemma link_eq_zero_iff (c : Rename) (isDir : Bool) (fs : Fs) :
    (c.link isDir fs).1 = 0 ↔ c.LinkOk isDir fs := by
  unfold link LinkOk
  rcases c.newInode with _ | n
  · have hfind : (fs.incLinkCount c.oldInode).findEntry c.newDir c.newDentry.dName =
        fs.findEntry c.newDir c.newDentry.dName := rfl
    by_cases hmax : isDir ∧ linkMax ≤ fs.nlink c.newDir
    · simp only [if_pos hmax]
      exact iff_of_false (by decide) fun h => absurd (h.1 hmax.1) hmax.2.not_gt
    · simp only [if_neg hmax, Fs.addLink, hfind]
      have hlimit : (isDir → fs.nlink c.newDir < linkMax) ↔ True :=
        iff_of_true (fun hdir => not_le.mp fun hle => hmax ⟨hdir, hle⟩) trivial
      rw [hlimit, true_and]
      rcases fs.findEntry c.newDir c.newDentry.dName with _ | i
      · by_cases herr : c.addErr = 0
        · simp [herr]
        · simp [herr]
      · simp [eexist]
  · by_cases hempty : isDir && !fs.emptyDir n
    · simp only [if_pos hempty]
      refine iff_of_false (by decide) fun h => ?_
      rw [Bool.and_eq_true, Bool.not_eq_true'] at hempty
      rw [h.1 hempty.1] at hempty
      exact absurd hempty.2 (by decide)
    · simp only [if_neg hempty]
      have hdir : isDir → fs.emptyDir n := by
        intro hd
        simpa [hd] using hempty
      rcases fs.findEntry c.newDir c.newDentry.dName with _ | i
      · simp [enoent]
      · simpa using hdir

/-- The events of the new entry, when it is made. -/
lemma linkEvents_of_linkOk {c : Rename} {isDir : Bool} {fs : Fs} (h : c.LinkOk isDir fs) :
    c.linkEvents isDir fs =
      if c.newInode.isSome then [.obtain .newPage, .release .newPage] else [] := by
  unfold LinkOk at h
  unfold linkEvents
  rcases hnew : c.newInode with _ | n
  · rfl
  · rw [hnew] at h
    have hempty : ¬ (isDir && !fs.emptyDir n) := by
      cases isDir
      · simp
      · simpa using h.1 rfl
    simp [hempty, h.2]

/-- When it is not made, there are none. -/
lemma linkEvents_of_not_linkOk {c : Rename} {isDir : Bool} {fs : Fs} (h : ¬ c.LinkOk isDir fs) :
    c.linkEvents isDir fs = [] := by
  unfold LinkOk at h
  unfold linkEvents
  rcases hnew : c.newInode with _ | n
  · rfl
  · rw [hnew] at h
    by_cases hempty : isDir && !fs.emptyDir n
    · exact if_pos hempty
    · have hdir : isDir → fs.emptyDir n := by
        intro hd
        simpa [hd] using hempty
      simp only [if_neg hempty]
      exact if_neg fun hfound => h ⟨hdir, hfound⟩

/-! ## What is released -/

/-- The events until the old entry is found. -/
def foundEvents : List RenameEvent := [.obtain .oldDirPath, .obtain .newDirPath, .obtain .oldPage]

/-- The events until the new entry is made. `isDir` says that `dir_de` is set. -/
def dirEvents (isDir : Bool) : List RenameEvent :=
  foundEvents ++ if isDir then [.obtain .dirPage] else []

/-- The trace. -/
lemma traced_snd (key : UInt8) (c : Rename) (fs : Fs) :
    (c.traced key fs).2 =
      match fs.findEntry c.oldDir c.oldDentry.dName with
      | none => [.obtain .oldDirPath, .obtain .newDirPath] ++ outEvents
      | some _ =>
          let isDir := sIsdir (fs.inodes c.oldInode).iMode
          if isDir && !c.dotdot then foundEvents ++ outOldEvents
          else dirEvents isDir ++ c.linkEvents isDir fs ++
            if (c.link isDir fs).1 ≠ 0 then outDirEvents isDir else successEvents isDir := by
  unfold traced
  rcases fs.findEntry c.oldDir c.oldDentry.dName with _ | i
  · rfl
  · simp only [dirEvents]
    split_ifs <;> rfl

/-- From the new entry on everything is released exactly once if the entry is made. -/
lemma releasedOnce_link_iff (c : Rename) (isDir : Bool) (fs : Fs) :
    ReleasedOnce (dirEvents isDir ++ c.linkEvents isDir fs ++
      if (c.link isDir fs).1 ≠ 0 then outDirEvents isDir else successEvents isDir) ↔
      c.LinkOk isDir fs := by
  by_cases hlink : c.LinkOk isDir fs
  · have hzero : ¬ (c.link isDir fs).1 ≠ 0 :=
      not_not.mpr ((c.link_eq_zero_iff isDir fs).mpr hlink)
    rw [if_neg hzero, linkEvents_of_linkOk hlink]
    have hall : ∀ isDir replaces : Bool, ReleasedOnce (dirEvents isDir ++
        (if replaces then [.obtain .newPage, .release .newPage] else []) ++
          successEvents isDir) := by decide
    exact iff_of_true (hall isDir c.newInode.isSome) hlink
  · -- `out_dir`: the strings are freed three times
    have hne : (c.link isDir fs).1 ≠ 0 := fun h => hlink ((c.link_eq_zero_iff isDir fs).mp h)
    rw [if_pos hne, linkEvents_of_not_linkOk hlink]
    have hall : ∀ isDir : Bool, ¬ ReleasedOnce (dirEvents isDir ++ [] ++ outDirEvents isDir) := by
      decide
    exact iff_of_false (hall isDir) hlink

/-- **When a rename releases everything exactly once**: if the old entry is not found, or if the
rename succeeds. -/
theorem releasedOnce_iff (key : UInt8) (c : Rename) (fs : Fs) :
    ReleasedOnce (c.traced key fs).2 ↔
      fs.findEntry c.oldDir c.oldDentry.dName = none ∨ c.Goes fs := by
  rw [traced_snd, Goes]
  rcases fs.findEntry c.oldDir c.oldDentry.dName with _ | i
  · have hout : ReleasedOnce ([.obtain .oldDirPath, .obtain .newDirPath] ++ outEvents) := by decide
    exact iff_of_true hout (Or.inl rfl)
  · simp only [reduceCtorEq, false_or]
    generalize sIsdir (fs.inodes c.oldInode).iMode = isDir
    by_cases hdotdot : isDir && !c.dotdot
    · -- `out_old`: the strings are freed twice
      have hold : ¬ ReleasedOnce (foundEvents ++ outOldEvents) := by decide
      rw [if_pos hdotdot]
      rw [Bool.and_eq_true, Bool.not_eq_true'] at hdotdot
      refine iff_of_false hold fun h => ?_
      rw [h.1 hdotdot.1] at hdotdot
      exact Bool.noConfusion hdotdot.2
    · have hdir : isDir → c.dotdot := by
        intro hd
        simpa [hd] using hdotdot
      rw [if_neg hdotdot, and_iff_right hdir]
      exact c.releasedOnce_link_iff isDir fs

end Rename

/-- A root directory with the regular file `f`. -/
def fsWithRegular : Fs where
  filetype := true
  inodes n := if n = 12 then ⟨0x81A4, Data.new 0, []⟩ else ⟨0x41ED, Data.new 0, []⟩
  nlink _ := 1
  dirs := Function.update (fun _ => []) 2 [⟨['f'], 12, 1⟩]

/-- Renaming `f` to `h`, when `ext2_add_link` finds no space. -/
def renameNoSpace : Rename :=
  ⟨2, .node .root fName, 12, 2, .node .root ⟨['h'], by decide⟩, none, true, -28⟩

/-- Both strings are freed three times. -/
theorem not_releasedOnce_no_space :
    (renameNoSpace.traced 0 fsWithRegular).1.1 = -28 ∧
      (renameNoSpace.traced 0 fsWithRegular).2.count (.release .oldDirPath) = 3 ∧
      ¬ ReleasedOnce (renameNoSpace.traced 0 fsWithRegular).2 := by
  decide

end Comp3301.Ext3301
