import Comp3301.Ext3301.LinkCalls

/-!
# Link counts: renaming

`ext2_rename` keeps the tree of directories and the link counts.

* Its first half makes the new name, in place of an old one or not; `Fs.Linked` is what it leaves to
  the second, which takes the old name away.
* In between, a directory has two names, and its new parent one link too many.
-/

namespace Comp3301.Ext3301

open Comp3301.Lib NameTree

namespace Fs

variable {fs : Fs} {root n d : ℕ} {T : NameTree}

lemma addLink_getElem (fs : Fs) {i : ℕ} {e : Entry} (he : (fs.dirs d)[i]? = some e) (p : ℕ) (name : Name)
    (n : ℕ) (err : ℤ) : ((fs.addLink p name n err).2.dirs d)[i]? = some e := by
  rcases addLink_cases fs p name n err with ⟨-, hfs⟩ | ⟨-, -, hfs⟩
  · rw [hfs, he]
  · rw [hfs, setDir]
    simp only [Function.update_apply]
    split_ifs with hd
    · subst hd
      rw [List.getElem?_append_left (List.getElem?_eq_some_iff.mp he).1, he]
    · exact he

lemma setLink_getElem (fs : Fs) {i j p : ℕ} {e : Entry} (he : (fs.dirs d)[i]? = some e)
    (hne : d = p → j ≠ i) (n : ℕ) : ((fs.setLink p j n).dirs d)[i]? = some e := by
  rw [setLink, setDir]
  simp only [Function.update_apply]
  split_ifs with hd
  · subst hd
    rw [List.getElem?_modify_ne _ _ (hne rfl), he]
  · exact he

/-- What the first half of a rename leaves to the second. `T` is the tree without the new name. -/
structure Linked (fs : Fs) (root : ℕ) (T : NameTree) (c : Rename) (i : ℕ) (dir : Bool) : Prop where
  kind : fs.isDir c.oldInode = dir
  ok : T.Ok root fs.isDir
  keeps : fs.Keeps (T.add c.newDir (c.newDentry.dName, c.oldInode))
    (if dir then one c.newDir else 0)
  entry : ∃ e, (fs.dirs c.oldDir)[i]? = some e ∧ e.link = (c.oldDentry.dName, c.oldInode)
  oldDir : c.oldDir ∈ T.live
  newDir : c.newDir ∈ T.live
  proper : Proper c.oldDentry.dName ∧ Proper c.newDentry.dName
  mem : (c.oldDentry.dName, c.oldInode) ∈ T.names c.oldDir
  fresh : c.newDentry.dName ∉ (T.names c.newDir).map Prod.fst
  below : dir = true → ∀ k, T.parent^[k] c.newDir ≠ c.oldInode

section rename

variable {c : Rename} {i : ℕ} {e : Entry} {dir : Bool}

/-- The first half, where the new name is not there yet. -/
lemma Sound.link_new (h : fs.Sound root T) (hc : c.Promise fs) (hkind : fs.isDir c.oldInode = dir)
    (he : (fs.dirs c.oldDir)[i]? = some e) (hlink : e.link = (c.oldDentry.dName, c.oldInode))
    (hmem : (c.oldDentry.dName, c.oldInode) ∈ T.names c.oldDir)
    (hbelow : dir = true → ∀ k, T.parent^[k] c.newDir ≠ c.oldInode) (hnone : c.newInode = none) :
    let r := c.link dir fs
    (r.1 ≠ 0 ∧ r.2.Sound root T) ∨ (r.1 = 0 ∧ Linked r.2 root T c i dir) := by
  have hinc := h.keeps.inc c.oldInode
  have hadd := hinc.addLink (h.live hc.newDir) c.newDentry.dName c.oldInode c.addErr
  have hentry := addLink_getElem (fs.incLinkCount c.oldInode) he c.newDir
    c.newDentry.dName c.oldInode c.addErr
  unfold Rename.link
  rw [hnone]
  generalize (fs.incLinkCount c.oldInode).addLink c.newDir c.newDentry.dName c.oldInode c.addErr = r
    at hadd hentry
  obtain ⟨err, fs'⟩ := r
  simp only at hadd hentry ⊢
  by_cases hmax : dir = true ∧ linkMax ≤ fs.nlink c.newDir
  · rw [if_pos hmax]
    exact Or.inl ⟨by simp [emlink], h⟩
  · rw [if_neg hmax]
    obtain ⟨herr, rfl⟩ | ⟨rfl, hproper, hfresh, hisDir, hkeeps⟩ := hadd
    · rw [if_pos herr]
      refine Or.inl ⟨herr, h.ok, (hinc.dec (n := c.oldInode) ?_).congr fun k => ?_⟩
      · rw [zero_add, one_self]
        exact Int.one_pos
      · rw [zero_add, sub_self]
    · rw [if_neg (not_not.mpr rfl)]
      rw [zero_add, sub_self] at hkeeps
      have hisDir' : fs'.isDir = fs.isDir := hisDir
      have hkind' : fs'.isDir c.oldInode = dir := hisDir' ▸ hkind
      have htree : T.Ok root fs'.isDir := hisDir'.symm ▸ h.ok
      refine Or.inr ⟨rfl, ?_⟩
      rcases dir with _ | _
      · exact ⟨hkind', htree, hkeeps, ⟨e, hentry, hlink⟩, h.live hc.oldDir, h.live hc.newDir,
          ⟨hc.old.1, hproper⟩, hmem, hfresh, hbelow⟩
      · refine ⟨hkind', htree, (hkeeps.inc c.newDir).congr fun k => ?_, ⟨e, hentry, hlink⟩,
          h.live hc.oldDir, h.live hc.newDir, ⟨hc.old.1, hproper⟩, hmem, hfresh, hbelow⟩
        rw [zero_add]
        rfl

/-- The first half, where the new name stands for the file `n`. -/
lemma Sound.link_file {j : ℕ} {z : Entry} (h : fs.Sound root T) (hc : c.Promise fs)
    (hkind : fs.isDir c.oldInode = false) (he : (fs.dirs c.oldDir)[i]? = some e)
    (hlink : e.link = (c.oldDentry.dName, c.oldInode))
    (hmem : (c.oldDentry.dName, c.oldInode) ∈ T.names c.oldDir)
    (hz : (fs.dirs c.newDir)[j]? = some z) (hzlink : z.link = (c.newDentry.dName, n))
    (hproper : Proper c.newDentry.dName) (hn : fs.isDir n = false) (hne : n ≠ c.oldInode)
    (hij : c.oldDir = c.newDir → j ≠ i) :
    Linked (((fs.incLinkCount c.oldInode).setLink c.newDir j c.oldInode).decLinkCount n) root
      (T.remove c.newDir (c.newDentry.dName, n)) c i false := by
  have hp := h.live hc.newDir
  obtain ⟨hname, hinode⟩ := Prod.mk.inj hzlink
  obtain ⟨hzmem, hset⟩ := (h.keeps.inc c.oldInode).setLink hp hz (hname ▸ hproper) c.oldInode
  rw [hzlink] at hzmem
  rw [hzlink, hname, hinode, zero_add, add_sub_cancel_left] at hset
  refine ⟨hkind, NameTree.Ok.remove h.ok hzmem hn, (hset.dec (n := n) ?_).congr fun k => ?_,
    ⟨e, setLink_getElem (fs.incLinkCount c.oldInode) he hij c.oldInode, hlink⟩,
    h.live hc.oldDir, hp, ⟨hc.old.1, hproper⟩, mem_remove_of_ne hmem ?_,
    fresh_remove (h.ok.nodup _ hp) hzmem, fun hdir => absurd hdir Bool.false_ne_true⟩
  · rw [one_self]
    exact Int.one_pos
  · rw [sub_self]
    rfl
  · exact fun _ heq => hne (Prod.mk.inj heq).2.symm

/-- The first half, where the new name stands for the empty directory `n`. -/
lemma Sound.link_dir {j : ℕ} {z : Entry} (h : fs.Sound root T) (hc : c.Promise fs)
    (hkind : fs.isDir c.oldInode = true) (he : (fs.dirs c.oldDir)[i]? = some e)
    (hlink : e.link = (c.oldDentry.dName, c.oldInode))
    (hmem : (c.oldDentry.dName, c.oldInode) ∈ T.names c.oldDir)
    (hbelow : ∀ k, T.parent^[k] c.newDir ≠ c.oldInode)
    (hz : (fs.dirs c.newDir)[j]? = some z) (hzlink : z.link = (c.newDentry.dName, n))
    (hproper : Proper c.newDentry.dName) (hn : fs.isDir n = true) (hne : n ≠ c.oldInode)
    (hempty : fs.emptyDir n = true) (hij : c.oldDir = c.newDir → j ≠ i) :
    Linked ((((fs.incLinkCount c.oldInode).setLink c.newDir j c.oldInode).decLinkCount
      n).decLinkCount n) root (T.prune c.newDir (c.newDentry.dName, n)) c i true := by
  have hp := h.live hc.newDir
  obtain ⟨hname, hinode⟩ := Prod.mk.inj hzlink
  have hzmem := ((h.keeps.entries _ hp).split hz (hname ▸ hproper)).1
  rw [hzlink] at hzmem
  have hlive : n ∈ T.live := h.ok.closed _ hp _ hzmem hn
  have hnone := h.names_of_emptyDir hlive hempty
  have hparent : T.parent n = c.newDir := (h.ok.parent_eq hp hzmem hlive).2
  -- a directory with names in it is not empty
  have hother : ∀ d x, x ∈ T.names d → d ≠ n := by
    rintro d x hx rfl
    rw [hnone] at hx
    exact Multiset.notMem_zero x hx
  have hp' : c.newDir ∈ T.live.erase n := Finset.mem_erase.mpr ⟨hother _ _ hzmem, hp⟩
  have hq' : c.oldDir ∈ T.live.erase n := Finset.mem_erase.mpr ⟨hother _ _ hmem, h.live hc.oldDir⟩
  have hdismiss := h.keeps.dismiss hlive hnone
  obtain ⟨-, hset⟩ := (hdismiss.inc c.oldInode).setLink hp' hz (hname ▸ hproper) c.oldInode
  rw [hzlink, hname, hinode, hparent, zero_add] at hset
  have hnonneg := one_nonneg c.newDir n
  have hfirst := hset.dec (n := n) (by
    rw [Pi.sub_apply, Pi.add_apply, Pi.add_apply, Pi.add_apply, one_self]
    omega)
  refine ⟨hkind, NameTree.Ok.prune h.ok hp hzmem hlive hnone,
    (hfirst.dec (n := n) ?_).congr fun k => ?_,
    ⟨e, setLink_getElem (fs.incLinkCount c.oldInode) he hij c.oldInode, hlink⟩,
    hq', hp', ⟨hc.old.1, hproper⟩, mem_remove_of_ne hmem ?_,
    fresh_remove (h.ok.nodup _ hp) hzmem, fun _ => hbelow⟩
  · simp only [Pi.sub_apply, Pi.add_apply, one_self]
    omega
  · simp only [Pi.sub_apply, Pi.add_apply, if_true]
    ring
  · exact fun _ heq => hne (Prod.mk.inj heq).2.symm

/-- **The first half of a rename.** -/
lemma Sound.link_rename (h : fs.Sound root T) (hc : c.Promise fs)
    (hkind : fs.isDir c.oldInode = dir) (he : (fs.dirs c.oldDir)[i]? = some e)
    (hlink : e.link = (c.oldDentry.dName, c.oldInode))
    (hmem : (c.oldDentry.dName, c.oldInode) ∈ T.names c.oldDir)
    (hbelow : dir = true → ∀ k, T.parent^[k] c.newDir ≠ c.oldInode) :
    let r := c.link dir fs
    (r.1 ≠ 0 ∧ r.2.Sound root T) ∨ (r.1 = 0 ∧ ∃ T', Linked r.2 root T' c i dir) := by
  rcases hnew : c.newInode with _ | n
  · rcases h.link_new hc hkind he hlink hmem hbelow hnew with hfail | ⟨hok, hlinked⟩
    · exact Or.inl hfail
    · exact Or.inr ⟨hok, T, hlinked⟩
  · obtain ⟨hnames, hne, hsame⟩ := hc.target n hnew
    obtain ⟨j, z, hfind, hz, -, -, hzlink⟩ := hnames.entry
    -- the two entries are not the same
    have hij : c.oldDir = c.newDir → j ≠ i := by
      rintro hdir rfl
      rw [hdir, hz, Option.some_inj] at he
      rw [← he, hzlink] at hlink
      exact hne (Prod.mk.inj hlink).2
    unfold Rename.link
    rw [hnew]
    simp only
    rw [hfind]
    rcases dir with _ | _
    · rw [Bool.false_and, if_neg Bool.false_ne_true]
      exact Or.inr ⟨rfl, _, h.link_file hc hkind he hlink hmem hz hzlink hnames.1
        (hsame.trans hkind) hne hij⟩
    · rcases hempty : fs.emptyDir n with _ | _
      · exact Or.inl ⟨by simp [enotempty], h⟩
      · exact Or.inr ⟨rfl, _, h.link_dir hc hkind he hlink hmem (hbelow rfl) hz hzlink hnames.1
          (hsame.trans hkind) hne hempty hij⟩

/-- Converting a file is nothing to the directories. -/
lemma Linked.convert (h : Linked fs root T c i dir) (key : UInt8) :
    Linked (c.convert key fs) root T c i dir := by
  unfold Rename.convert
  split_ifs
  · have hisDir : (fs.setInode c.oldInode (crypto key (fs.inodes c.oldInode))).isDir = fs.isDir :=
      isDir_setInode rfl
    exact ⟨hisDir ▸ h.kind, hisDir.symm ▸ h.ok, h.keeps.setInode _ _, h.entry, h.oldDir, h.newDir,
      h.proper, h.mem, h.fresh, h.below⟩
  · exact h

/-- **The second half of a rename.** -/
lemma Linked.unlink (h : Linked fs root T c i dir) :
    ∃ T', (c.unlink dir i fs).Sound root T' := by
  obtain ⟨e, he, hlink⟩ := h.entry
  obtain ⟨hname, hinode⟩ := Prod.mk.inj hlink
  have hdebt : (0 : ℤ) ≤ (if dir then one c.newDir else 0 : ℕ → ℤ) e.inode := by
    split_ifs
    · exact one_nonneg _ _
    · exact le_rfl
  obtain ⟨-, hunlink⟩ := h.keeps.unlink h.oldDir he (hname ▸ h.proper.1) hdebt
  rw [hlink, hinode] at hunlink
  have hfresh' : c.newDentry.dName ∉ (((T.remove c.oldDir
      (c.oldDentry.dName, c.oldInode)).names c.newDir).map Prod.fst) := by
    intro hmem
    obtain ⟨x, hx, heq⟩ := Multiset.mem_map.mp hmem
    exact h.fresh (Multiset.mem_map.mpr ⟨x, mem_remove hx, heq⟩)
  rcases dir with _ | _
  · -- a file
    have hadd : (T.add c.newDir (c.newDentry.dName, c.oldInode)).Ok root fs.isDir :=
      NameTree.Ok.add h.ok h.kind h.proper.2 h.fresh
    have hremove := NameTree.Ok.remove hadd (mem_add_of_mem h.mem) h.kind
    exact ⟨_, hremove, hunlink⟩
  · -- a directory
    rw [add_remove h.mem] at hunlink
    have hlive : c.oldInode ∈ T.live := h.ok.closed _ h.oldDir _ h.mem h.kind
    have hparent : T.parent c.oldInode = c.oldDir := (h.ok.parent_eq h.oldDir h.mem hlive).2
    have hmove := NameTree.Ok.move h.ok h.oldDir h.newDir h.mem hlive h.proper.2 hfresh'
      (h.below rfl)
    unfold Rename.unlink
    simp only [if_true] at hunlink ⊢
    split_ifs with hsame
    · have hset := hunlink.setParent (d := c.oldInode) hlive c.newDir
      rw [show ((T.remove c.oldDir (c.oldDentry.dName, c.oldInode)).add c.newDir
        (c.newDentry.dName, c.oldInode)).parent c.oldInode = c.oldDir from hparent,
        add_sub_cancel_left] at hset
      refine ⟨_, hmove, (hset.dec (n := c.oldDir) ?_).congr fun k => ?_⟩
      · rw [one_self]
        exact Int.one_pos
      · rw [sub_self]
    · rw [not_not] at hsame
      rw [move_eq (hparent.trans hsame)] at hmove
      refine ⟨_, hmove, (hunlink.dec (n := c.oldDir) ?_).congr fun k => ?_⟩
      · rw [hsame, one_self]
        exact Int.one_pos
      · rw [hsame, sub_self]

/-- **`ext2_rename`.** -/
lemma Sound.rename (h : fs.Sound root T) (key : UInt8) (hc : c.Promise fs) :
    ∃ T', (c.run key fs).2.Sound root T' := by
  obtain ⟨i, e, hfind, he, -, -, hlink⟩ := hc.old.entry
  have hp := h.live hc.oldDir
  obtain ⟨hname, -⟩ := Prod.mk.inj hlink
  have hmem := ((h.keeps.entries _ hp).split he (hname ▸ hc.old.1)).1
  rw [hlink] at hmem
  have hbelow : fs.isDir c.oldInode = true → ∀ k, T.parent^[k] c.newDir ≠ c.oldInode := by
    intro hdir k heq
    have hway := h.below (h.live hc.newDir) k
    rw [heq] at hway
    exact hc.below hdir hway
  have hhalf := h.link_rename hc rfl he hlink hmem hbelow
  unfold Rename.run
  rw [hfind]
  simp only
  split_ifs with hdotdot herr
  · exact ⟨T, h⟩
  · rcases hhalf with ⟨-, hfail⟩ | ⟨hok, -⟩
    · exact ⟨T, hfail⟩
    · exact absurd hok herr
  · rcases hhalf with ⟨herr', -⟩ | ⟨-, T', hlinked⟩
    · exact absurd herr' herr
    · exact (hlinked.convert key).unlink

end rename

end Fs

end Comp3301.Ext3301
