import Comp3301.Ext3301.Namei

/-!
# The tests for `/encrypt`

* A `DentryTree` is a directory tree: the root is its own parent and is named `/`, and every other
  dentry has a name that is not empty and in which there is no slash.
* `ext2_rename` compares the name of the directory behind that of its parent with `/encrypt`
  (`renameTest`); `ext3301_sync_read` and `ext3301_sync_write` compare the two names one by one
  (`syncTest`).
* Only the name of the root begins with a slash, and so both tests find out whether the directory is
  `encrypt` in the root (`tests_agree`). The dentries of the model are such a tree (`Dentry.tree`).
-/

namespace Comp3301.Ext3301

/-- The dentries of a directory tree. -/
structure DentryTree (δ : Type) where
  /-- `d_parent`. -/
  dParent : δ → δ
  /-- `d_name.name`. -/
  dName : δ → Name
  root : δ
  dParent_root : dParent root = root
  dName_root : dName root = slash
  dName_ne_nil : ∀ d, d ≠ root → dName d ≠ []
  slash_notMem_dName : ∀ d, d ≠ root → '/' ∉ dName d

namespace DentryTree

variable {δ : Type} (t : DentryTree δ) (d : δ)

/-- The test of `ext2_rename`: `strcmp` of the composed names with `/encrypt`. -/
def renameTest : Bool := t.dName (t.dParent (t.dParent d)) ++ t.dName (t.dParent d) = encryptDir

/-- The test of `ext3301_sync_read` and `ext3301_sync_write`. -/
def syncTest : Bool :=
  t.dName (t.dParent (t.dParent d)) = slash ∧ t.dName (t.dParent d) = encryptName

/-- The file is in the directory `encrypt` directly under the root. -/
structure InEncryptDir : Prop where
  ne_root : t.dParent d ≠ t.root
  parent : t.dParent (t.dParent d) = t.root
  name : t.dName (t.dParent d) = encryptName

variable {t d}

/-- Only the root is named `/`. -/
lemma dName_eq_slash_iff {g : δ} : t.dName g = slash ↔ g = t.root := by
  constructor
  · intro hname
    by_contra hg
    refine t.slash_notMem_dName g hg ?_
    rw [hname]
    exact List.mem_singleton_self _
  · rintro rfl
    exact t.dName_root

/-- Two names behind each other begin with a slash only if the first is that of the root. -/
lemma append_eq_iff {g : δ} {name rest : Name} :
    t.dName g ++ name = slash ++ rest ↔ g = t.root ∧ name = rest := by
  constructor
  · intro hpath
    have hg : g = t.root := by
      by_contra hg
      obtain ⟨c, cs, hname⟩ := List.exists_cons_of_ne_nil (t.dName_ne_nil g hg)
      rw [hname] at hpath
      have hc : c = '/' := (List.cons.inj hpath).1
      refine t.slash_notMem_dName g hg ?_
      rw [hname, hc]
      exact List.mem_cons_self
    rw [hg, t.dName_root] at hpath
    exact ⟨hg, List.append_cancel_left hpath⟩
  · rintro ⟨rfl, rfl⟩
    rw [t.dName_root]

lemma syncTest_iff :
    t.syncTest d ↔ t.dParent (t.dParent d) = t.root ∧ t.dName (t.dParent d) = encryptName := by
  rw [syncTest, decide_eq_true_eq, dName_eq_slash_iff]

lemma renameTest_iff :
    t.renameTest d ↔ t.dParent (t.dParent d) = t.root ∧ t.dName (t.dParent d) = encryptName := by
  rw [renameTest, decide_eq_true_eq]
  exact append_eq_iff

/-- A directory named `encrypt` is not the root. -/
lemma inEncryptDir_iff :
    t.InEncryptDir d ↔ t.dParent (t.dParent d) = t.root ∧ t.dName (t.dParent d) = encryptName := by
  constructor
  · intro h
    exact ⟨h.parent, h.name⟩
  · rintro ⟨hparent, hname⟩
    refine ⟨?_, hparent, hname⟩
    intro hroot
    rw [hroot, t.dName_root] at hname
    cases hname

variable (t d) in
/-- **The two tests agree**, and find the files in the directory `encrypt` directly under the root,
in every directory tree and for every file. -/
theorem tests_agree :
    (t.renameTest d ↔ t.syncTest d) ∧ (t.syncTest d ↔ t.InEncryptDir d) :=
  ⟨renameTest_iff.trans syncTest_iff.symm, syncTest_iff.trans inEncryptDir_iff.symm⟩

end DentryTree

/-! ## The dentries of the model -/

namespace Dentry

/-- The dentries form a directory tree. -/
def tree : DentryTree Dentry where
  dParent := dParent
  dName := dName
  root := root
  dParent_root := rfl
  dName_root := rfl
  dName_ne_nil := by
    rintro (_ | ⟨dir, name⟩) hroot
    · exact absurd rfl hroot
    · exact name.2.1
  slash_notMem_dName := by
    rintro (_ | ⟨dir, name⟩) hroot
    · exact absurd rfl hroot
    · exact name.2.2

lemma syncTest_tree (d : Dentry) : tree.syncTest d = d.inEncrypt := rfl

lemma renameTest_tree (d : Dentry) : tree.renameTest d ↔ d.dirPath = encryptDir := by
  rw [DentryTree.renameTest, decide_eq_true_eq]
  rfl

end Dentry

end Comp3301.Ext3301
