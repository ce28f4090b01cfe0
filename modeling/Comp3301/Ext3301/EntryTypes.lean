import Comp3301.Ext3301.Moves
import Comp3301.Lib.System

/-!
# The types in directory entries

Every entry of a file repeats the type of its inode.

* `Typed` says that all entries of files have the right type.
* Making, redirecting and removing links keeps it (`Edits.typed`).
* A write that converts an immediate file changes the type in one entry, the one that is found under
  the file's present name. It keeps `Typed` exactly if that entry is the only link to the inode and
  no entry of another immediate file is found in its place (`typed_write_iff`).
* `typed_of_reach`: a run whose conversions are all of this kind keeps it.
-/

namespace Comp3301.Ext3301

open Comp3301.Lib

/-! ## Types -/

/-- The type in an entry is the one of the inode, if the inode is a file. -/
def TypeOk (mode : Mode) (fileType : UInt8) : Prop :=
  sIsim mode ∨ sIsreg mode → (fileType = 8 ↔ sIsim mode) ∧ (fileType = 1 ↔ sIsreg mode)

/-- Every live entry of a file has the type of its inode. -/
def Typed (fs : Fs) : Prop :=
  ∀ dir, ∀ e ∈ fs.dirs dir, TypeOk (fs.inodes e.inode).iMode e.fileType

lemma typed_iff_getElem? {fs : Fs} :
    Typed fs ↔ ∀ (dir i : ℕ) (e : Entry), (fs.dirs dir)[i]? = some e →
      TypeOk (fs.inodes e.inode).iMode e.fileType := by
  constructor
  · exact fun h dir i e he => h dir e (List.mem_of_getElem? he)
  · intro h dir e he
    obtain ⟨i, hi⟩ := List.mem_iff_getElem?.mp he
    exact h dir i e hi

lemma typeOk_of_sIsim_iff {mode : Mode} (him : sIsim mode) (t : UInt8) :
    TypeOk mode t ↔ t = 8 := by
  have hreg := not_sIsreg_of_sIsim him
  simp only [TypeOk, him, hreg, true_or, true_implies, iff_true, Bool.false_eq_true, iff_false]
  constructor
  · exact And.left
  · rintro rfl
    exact ⟨rfl, by decide⟩

lemma typeOk_of_sIsreg_iff {mode : Mode} (hreg : sIsreg mode) (t : UInt8) :
    TypeOk mode t ↔ t = 1 := by
  have him := not_sIsim_of_sIsreg hreg
  simp only [TypeOk, him, hreg, or_true, true_implies, iff_true, Bool.false_eq_true, iff_false]
  constructor
  · exact And.right
  · rintro rfl
    exact ⟨by decide, rfl⟩

lemma typeOk_deType (mode : Mode) : TypeOk mode (deType true mode) := by
  intro hfile
  rcases hfile with him | hreg
  · refine (typeOk_of_sIsim_iff him _).mpr ?_ (Or.inl him)
    rw [deType, if_pos rfl, if_pos him]
  · refine (typeOk_of_sIsreg_iff hreg _).mpr ?_ (Or.inr hreg)
    have htype : mode &&& sIfmt = sIfreg := by simpa [sIsreg] using hreg
    rw [deType, if_pos rfl, if_neg (by simp [not_sIsim_of_sIsreg hreg]), htype]
    rfl

/-- Only the type of the inode matters. -/
lemma typeOk_congr {mode mode' : Mode} (h : mode' &&& sIfmt = mode &&& sIfmt) (t : UInt8) :
    TypeOk mode' t ↔ TypeOk mode t := by
  simp only [TypeOk, sIsim, sIsreg, h]

/-! ## Edits -/

namespace Fs

variable {fs fs' : Fs}

lemma addLink_filetype (fs : Fs) (dir : ℕ) (name : Name) (n : ℕ) (err : ℤ) :
    (fs.addLink dir name n err).2.filetype = fs.filetype := by
  unfold addLink
  split_ifs <;> rfl

lemma Edits.filetype_eq (h : Edits fs fs') : fs'.filetype = fs.filetype := by
  induction h with
  | refl => rfl
  | incLinkCount _ n ih => exact ih
  | decLinkCount _ n ih => exact ih
  | setLink _ dir i n ih => exact ih
  | addLink _ dir name n err ih => exact (addLink_filetype _ _ _ _ _).trans ih
  | deleteEntry _ dir i ih => exact ih

/-- Other entries in one directory. -/
lemma typed_setDir (h : Typed fs) {dir : ℕ} {entries : List Entry}
    (hentries : ∀ e ∈ entries, e ∈ fs.dirs dir ∨ TypeOk (fs.inodes e.inode).iMode e.fileType) :
    Typed (fs.setDir dir entries) := by
  intro dir' e he
  by_cases hdir : dir' = dir
  · subst hdir
    rw [setDir] at he
    simp only [Function.update_self] at he
    rcases hentries e he with hold | hok
    · exact h dir' e hold
    · exact hok
  · rw [setDir] at he
    simp only [Function.update_of_ne hdir] at he
    exact h dir' e he

lemma typed_setLink (hft : fs.filetype = true) (h : Typed fs) (dir i n : ℕ) :
    Typed (fs.setLink dir i n) := by
  apply typed_setDir h
  intro e he
  obtain ⟨k, hk⟩ := List.mem_iff_getElem?.mp he
  rw [List.getElem?_modify] at hk
  split_ifs at hk with hik
  · obtain ⟨e', -, rfl⟩ := Option.map_eq_some_iff.mp hk
    right
    rw [hft]
    exact typeOk_deType _
  · exact Or.inl (List.mem_iff_getElem?.mpr ⟨k, by simpa using hk⟩)

lemma typed_addLink (hft : fs.filetype = true) (h : Typed fs) (dir : ℕ) (name : Name) (n : ℕ)
    (err : ℤ) : Typed (fs.addLink dir name n err).2 := by
  unfold addLink
  split_ifs
  · exact h
  · exact h
  · apply typed_setDir h
    intro e he
    rcases List.mem_append.mp he with hold | hnew
    · exact Or.inl hold
    · right
      rw [List.mem_singleton.mp hnew, hft]
      exact typeOk_deType _

lemma typed_deleteEntry (h : Typed fs) (dir i : ℕ) : Typed (fs.deleteEntry dir i) :=
  typed_setDir h fun _ he => Or.inl (List.mem_of_mem_eraseIdx he)

/-- Edits keep the types. -/
lemma Edits.typed (hft : fs.filetype = true) (h : Edits fs fs') (htyped : Typed fs) :
    Typed fs' := by
  induction h with
  | refl => exact htyped
  | incLinkCount _ n ih => exact ih
  | decLinkCount _ n ih => exact ih
  | setLink hedits dir i n ih => exact typed_setLink (hedits.filetype_eq.trans hft) ih dir i n
  | addLink hedits dir name n err ih =>
      exact typed_addLink (hedits.filetype_eq.trans hft) ih dir name n err
  | deleteEntry _ dir i ih => exact typed_deleteEntry ih dir i

/-- An inode whose type stays. -/
lemma typed_setInode (h : Typed fs) {n : ℕ} {ino : Inode}
    (hmode : ino.iMode &&& sIfmt = (fs.inodes n).iMode &&& sIfmt) : Typed (fs.setInode n ino) := by
  intro dir e he
  rw [setInode]
  by_cases hn : e.inode = n
  · simp only [hn, Function.update_self]
    rw [typeOk_congr hmode, ← hn]
    exact h dir e he
  · simp only [Function.update_of_ne hn]
    exact h dir e he

/-- An inode without entries. -/
lemma typed_setInode_of_unused (h : Typed fs) {n : ℕ} (hunused : fs.Unused n) (ino : Inode) :
    Typed (fs.setInode n ino) := by
  intro dir e he
  rw [setInode]
  simp only [Function.update_of_ne (hunused dir e he)]
  exact h dir e he

/-! ## The calls other than writes -/

lemma edits_link (fs : Fs) (n dir : ℕ) (dentry : Dentry) (addErr : ℤ) :
    Edits fs (fs.link n dir dentry addErr).2 := by
  have hinc : Edits fs (fs.incLinkCount n) := Edits.refl.incLinkCount n
  have hadd := hinc.addLink dir dentry.dName n addErr
  unfold link
  simp only
  split_ifs
  · exact Edits.refl
  · exact hadd.decLinkCount n
  · exact hadd

lemma edits_unlink (fs : Fs) (dir : ℕ) (dentry : Dentry) (n : ℕ) :
    Edits fs (fs.unlink dir dentry n).2 := by
  unfold unlink
  split
  · exact Edits.refl
  · exact (Edits.refl.deleteEntry _ _).decLinkCount _

lemma typed_create (hft : fs.filetype = true) (h : Typed fs) (dir : ℕ) (dentry : Dentry)
    (mode : {m : Mode // sIsreg m}) {n : ℕ} (hunused : fs.Unused n) (iFlags : BitVec 32)
    (addErr : ℤ) : Typed (fs.create dir dentry mode (.ok (n, iFlags)) addErr).2 := by
  have hnew : Typed (fs.addInode n (newInode mode iFlags)) :=
    typed_setInode_of_unused h hunused (newInode mode iFlags)
  have hadd : Typed ((fs.addInode n (newInode mode iFlags)).addLink dir dentry.dName n addErr).2 :=
    typed_addLink (show (fs.addInode n (newInode mode iFlags)).filetype = true from hft) hnew
      dir dentry.dName n addErr
  unfold create
  simp only
  split_ifs
  · exact hadd
  · exact hadd

lemma typed_rename (hft : fs.filetype = true) (h : Typed fs) (key : UInt8) (c : Rename) :
    Typed (c.run key fs).2 := by
  rcases c.run_cases key fs with ⟨-, hedits⟩ | ⟨fs', hbefore, hafter⟩
  · exact hedits.typed hft h
  · have hfs' := hbefore.typed hft h
    have hft' := hbefore.filetype_eq.trans hft
    refine hafter.typed ?_ ?_
    · unfold Rename.convert
      split_ifs
      · exact hft'
      · exact hft'
    · unfold Rename.convert
      split_ifs
      · exact typed_setInode hfs' rfl
      · exact hfs'

end Fs

/-! ## Writes -/

/-- A write that converts the file. -/
structure Converts (env : Env) (filp : Filp) (ino : Inode) (buf : List UInt8) (ppos : ℕ) :
    Prop where
  immediate : sIsim ino.iMode
  long : 60 < buf.length + ppos
  accepted : ¬ filp.Rejects env
  memory : ino.data.strlen ≠ 0 ∧ filp.append → env.imAlloc

section write

variable {vfs : Vfs} (hvfs : vfs.KeepsType)

include hvfs

/-- The effect of `ext3301_im_write` on the type. -/
lemma imWrite_type (env : Env) (append : Bool) {ino : Inode} (him : sIsim ino.iMode)
    (buf : List UInt8) (ppos : ℕ) :
    let r := imWrite vfs env append ino buf ppos
    ((60 < buf.length + ppos ∧ (ino.data.strlen ≠ 0 ∧ append → env.imAlloc)) ∧
        sIsreg r.inode.iMode ∧ r.setType = env.found) ∨
      (¬ (60 < buf.length + ppos ∧ (ino.data.strlen ≠ 0 ∧ append → env.imAlloc)) ∧
        r.inode.iMode &&& sIfmt = ino.iMode &&& sIfmt ∧ r.setType = false) := by
  intro r
  rcases imPrepare_cases append env.imAlloc ino.data buf ppos with
    ⟨hconv, out, hout⟩ | ⟨hnot, hcases⟩
  · have htype := hvfs append { ino with data := ino.data.memset } out ppos
    have hreg : sIsreg (converted (vfs.doSyncWrite append
        { ino with data := ino.data.memset } out ppos).inode.iMode) := by
      apply sIsreg_converted
      simpa only [sIsim, htype] using him
    refine Or.inl ⟨hconv, ?_⟩
    simp only [r, imWrite, hout]
    split_ifs with hfound
    · exact ⟨hreg, hfound.symm⟩
    · exact ⟨hreg, by simpa using hfound⟩
  · refine Or.inr ⟨hnot, ?_⟩
    rcases hcases with ⟨d', hd'⟩ | hnone
    · simp only [r, imWrite, hd', and_self]
    · simp only [r, imWrite, hnone, and_self]

/-- The effect of a write on the type, and whether the type in the entry is changed. -/
lemma syncWrite_type (key : UInt8) (env : Env) (filp : Filp) (ino : Inode) (buf : List UInt8)
    (ppos : ℕ) :
    let r := syncWrite vfs key env filp ino buf ppos
    (Converts env filp ino buf ppos ∧ sIsreg r.inode.iMode ∧ r.setType = env.found) ∨
      (¬ Converts env filp ino buf ppos ∧
        r.inode.iMode &&& sIfmt = ino.iMode &&& sIfmt ∧ r.setType = false) := by
  intro r
  by_cases hrej : filp.Rejects env
  · obtain ⟨hino, hset⟩ := syncWrite_of_rejects vfs key hrej ino buf ppos
    exact Or.inr ⟨fun h => h.accepted hrej, by rw [hino], hset⟩
  · have hr : r = plainWrite vfs env filp.append ino (cipher key filp buf) ppos :=
      syncWrite_of_not_rejects vfs key hrej ino buf ppos
    rw [hr, plainWrite]
    by_cases him : sIsim ino.iMode
    · rw [if_pos him]
      have htype := imWrite_type hvfs env filp.append him (cipher key filp buf) ppos
      rw [length_cipher] at htype
      rcases htype with ⟨hconv, hres⟩ | ⟨hnot, hres⟩
      · exact Or.inl ⟨⟨him, hconv.1, hrej, hconv.2⟩, hres⟩
      · exact Or.inr ⟨fun h => hnot ⟨h.long, h.memory⟩, hres⟩
    · rw [if_neg him]
      exact Or.inr ⟨fun h => him h.immediate, hvfs _ _ _ _, rfl⟩

end write

/-! ## Conversions -/

/-- The write converts its file. -/
def WriteOp.converts (fs : Fs) (w : WriteOp) : Prop :=
  Converts w.env w.filp (fs.inodes w.n) w.buf w.ppos

/-- The entry that `ext2_find_entry` finds is the only link to the inode, and no link to another
immediate file. -/
def WriteOp.ReachesAll (fs : Fs) (w : WriteOp) : Prop :=
  (∀ dir i e, (fs.dirs dir)[i]? = some e → e.inode = w.n →
      dir = w.dir ∧ fs.findEntry w.dir w.filp.dentry.dName = some i) ∧
    ∀ i e, fs.findEntry w.dir w.filp.dentry.dName = some i → (fs.dirs w.dir)[i]? = some e →
      e.inode ≠ w.n → ¬ sIsim (fs.inodes e.inode).iMode

lemma Fs.getElem?_setFileType (fs : Fs) (dir : ℕ) (name : Name) (dir' i : ℕ) :
    ((fs.setFileType dir name).dirs dir')[i]? =
      (fs.dirs dir')[i]?.map fun e =>
        if dir' = dir ∧ fs.findEntry dir name = some i then { e with fileType := 1 } else e := by
  unfold Fs.setFileType
  rcases hfind : fs.findEntry dir name with _ | k
  · simp
  · simp only [Fs.setDir]
    by_cases hdir : dir' = dir
    · subst hdir
      rw [Function.update_self, List.getElem?_modify]
      by_cases hik : k = i
      · simp [hik]
      · simp [hik]
    · simp [hdir]

/-- An entry after a conversion: the entries of the file must have been changed, those of other
immediate files must not. -/
lemma typeOk_converted_iff {mode : Mode} {t : UInt8} (h : TypeOk mode t) (own changed : Prop)
    [Decidable own] [Decidable changed] {mode' : Mode} (hmode : own → sIsim mode)
    (hmode' : sIsreg mode') :
    TypeOk (if own then mode' else mode) (if changed then 1 else t) ↔
      (own → changed) ∧ (changed → ¬ own → ¬ sIsim mode) := by
  by_cases hown : own
  · have ht : t = 8 := (typeOk_of_sIsim_iff (hmode hown) t).mp h
    simp only [hown, if_true, true_implies, not_true_eq_false, false_implies, implies_true,
      and_true, typeOk_of_sIsreg_iff hmode']
    by_cases hchanged : changed
    · simp [hchanged]
    · simp [hchanged, ht]
  · simp only [hown, if_false, false_implies, true_and, not_false_eq_true, true_implies]
    by_cases hchanged : changed
    · simp only [hchanged, if_true, true_implies]
      constructor
      · intro hok him
        exact absurd ((typeOk_of_sIsim_iff him 1).mp hok) (by decide)
      · rintro hnot (him | hreg)
        · exact absurd him hnot
        · exact (typeOk_of_sIsreg_iff hreg 1).mpr rfl (Or.inr hreg)
    · simp only [hchanged, if_false, false_implies, iff_true]
      exact h

@[simp] lemma Fs.dirs_setInode (fs : Fs) (n : ℕ) (ino : Inode) :
    (fs.setInode n ino).dirs = fs.dirs := rfl

@[simp] lemma Fs.findEntry_setInode (fs : Fs) (n : ℕ) (ino : Inode) (dir : ℕ) (name : Name) :
    (fs.setInode n ino).findEntry dir name = fs.findEntry dir name := rfl

/-- The types after inode `n` has become regular and the type in one entry has been changed. -/
lemma typed_setFileType_iff {fs : Fs} {n : ℕ} {ino : Inode} (dir : ℕ) (name : Name) :
    Typed ((fs.setInode n ino).setFileType dir name) ↔
      ∀ dir' i e, (fs.dirs dir')[i]? = some e →
        TypeOk (if e.inode = n then ino.iMode else (fs.inodes e.inode).iMode)
          (if dir' = dir ∧ fs.findEntry dir name = some i then 1 else e.fileType) := by
  have hinodes : ∀ m, (((fs.setInode n ino).setFileType dir name).inodes m).iMode =
      if m = n then ino.iMode else (fs.inodes m).iMode := by
    intro m
    have hsame : ((fs.setInode n ino).setFileType dir name).inodes =
        (fs.setInode n ino).inodes := by
      unfold Fs.setFileType
      split <;> rfl
    rw [hsame, Fs.setInode]
    by_cases hm : m = n
    · simp [hm]
    · simp [hm]
  rw [typed_iff_getElem?]
  refine forall_congr' fun dir' => forall_congr' fun i => ?_
  simp only [Fs.getElem?_setFileType, Fs.dirs_setInode]
  cases (fs.dirs dir')[i]? with
  | none => simp
  | some e =>
      simp only [Option.map_some, Option.some.injEq, forall_eq', hinodes]
      by_cases hchanged : dir' = dir ∧ (fs.setInode n ino).findEntry dir name = some i
      · rw [if_pos hchanged, if_pos (c := dir' = dir ∧ fs.findEntry dir name = some i) hchanged]
      · rw [if_neg hchanged, if_neg (c := dir' = dir ∧ fs.findEntry dir name = some i) hchanged]

/-- **What one write does to the types**: they stay right exactly if the write converts nothing, or
the change of the type reaches all entries of the file and no entry of another immediate file. -/
theorem typed_write_iff {fs : Fs} (h : Typed fs) (key : UInt8) {w : WriteOp}
    (hvfs : w.vfs.KeepsType) :
    Typed (fs.write key w).2 ↔ (w.converts fs → w.ReachesAll fs) := by
  set env := { w.env with found := (fs.findEntry w.dir w.filp.dentry.dName).isSome } with henv
  set r := syncWrite w.vfs key env w.filp (fs.inodes w.n) w.buf w.ppos with hr
  have hres : (fs.write key w).2 = if r.setType then
      (fs.setInode w.n r.inode).setFileType w.dir w.filp.dentry.dName
    else fs.setInode w.n r.inode := rfl
  have hconv_iff : Converts env w.filp (fs.inodes w.n) w.buf w.ppos ↔ w.converts fs :=
    ⟨fun h => ⟨h.1, h.2, h.3, h.4⟩, fun h => ⟨h.1, h.2, h.3, h.4⟩⟩
  rcases syncWrite_type hvfs key env w.filp (fs.inodes w.n) w.buf w.ppos with
    ⟨hconv, hreg, hset⟩ | ⟨hnot, htype, hset⟩
  · have hchanged : (fs.write key w).2 =
        (fs.setInode w.n r.inode).setFileType w.dir w.filp.dentry.dName := by
      rw [hres, hset, henv]
      split_ifs with hfound
      · rfl
      · have hnone : (fs.setInode w.n r.inode).findEntry w.dir w.filp.dentry.dName = none := by
          simpa using hfound
        rw [Fs.setFileType, hnone]
    have him := hconv.immediate
    rw [hconv_iff] at hconv
    simp only [hconv, true_implies]
    rw [hchanged, typed_setFileType_iff]
    have hentry : ∀ dir i e, (fs.dirs dir)[i]? = some e → (TypeOk
        (if e.inode = w.n then r.inode.iMode else (fs.inodes e.inode).iMode)
        (if dir = w.dir ∧ fs.findEntry w.dir w.filp.dentry.dName = some i then 1
          else e.fileType) ↔ _) := fun dir i e he =>
      typeOk_converted_iff (typed_iff_getElem?.mp h dir i e he) (e.inode = w.n)
        (dir = w.dir ∧ fs.findEntry w.dir w.filp.dentry.dName = some i)
        (fun hown => by rwa [hown]) hreg
    constructor
    · intro hall
      constructor
      · intro dir i e he
        exact ((hentry dir i e he).mp (hall dir i e he)).1
      · intro i e hfind he
        exact ((hentry w.dir i e he).mp (hall w.dir i e he)).2 ⟨rfl, hfind⟩
    · rintro ⟨hown, hother⟩ dir i e he
      refine (hentry dir i e he).mpr ⟨hown dir i e he, ?_⟩
      rintro ⟨rfl, hfind⟩
      exact hother i e hfind he
  · rw [hconv_iff] at hnot
    rw [hres, hset, if_neg Bool.false_ne_true]
    exact iff_of_true (Fs.typed_setInode h htype) fun hconv => absurd hconv hnot

/-! ## Runs -/

/-- One call, with any key. -/
def Fs.Next (fs : Fs) (call : Call) (fs' : Fs) : Prop :=
  call.Possible fs ∧ ∃ key, fs' = (fs.step key call).2

/-- The condition on the steps of a run: a conversion reaches all entries of its file. -/
def Call.ReachesAll (fs : Fs) : Call → Prop
  | .write w => w.converts fs → w.ReachesAll fs
  | _ => True

lemma Fs.step_filetype (key : UInt8) (fs : Fs) (call : Call) :
    (fs.step key call).2.filetype = fs.filetype := by
  cases call with
  | create dir dentry mode new addErr =>
      rcases new with _ | ⟨n, iFlags⟩
      · rfl
      · simp only [Fs.step, Fs.create]
        split_ifs
        · exact Fs.addLink_filetype _ _ _ _ _
        · exact Fs.addLink_filetype _ _ _ _ _
  | link n dir dentry addErr => exact (Fs.edits_link fs n dir dentry addErr).filetype_eq
  | unlink dir dentry n => exact (Fs.edits_unlink fs dir dentry n).filetype_eq
  | rename c =>
      rcases c.run_cases key fs with ⟨-, hedits⟩ | ⟨fs', hbefore, hafter⟩
      · exact hedits.filetype_eq
      · refine hafter.filetype_eq.trans (Eq.trans ?_ hbefore.filetype_eq)
        unfold Rename.convert
        split_ifs <;> rfl
  | write w =>
      simp only [Fs.step, Fs.write]
      split_ifs
      · unfold Fs.setFileType
        split <;> rfl
      · rfl

/-- One call of a run. -/
lemma typed_step {fs fs' : Fs} (hft : fs.filetype = true) (h : Typed fs) {call : Call}
    (hreach : call.ReachesAll fs) (hnext : fs.Next call fs') : Typed fs' := by
  obtain ⟨hpossible, key, rfl⟩ := hnext
  cases call with
  | create dir dentry mode new addErr =>
      rcases new with err | ⟨n, iFlags⟩
      · exact h
      · exact Fs.typed_create hft h dir dentry mode hpossible iFlags addErr
  | link n dir dentry addErr => exact (Fs.edits_link fs n dir dentry addErr).typed hft h
  | unlink dir dentry n => exact (Fs.edits_unlink fs dir dentry n).typed hft h
  | rename c => exact Fs.typed_rename hft h key c
  | write w => exact (typed_write_iff h key hpossible).mpr hreach

/-- **Directory entry types follow inode types** in every run whose conversions reach all entries
of their files. -/
theorem typed_of_reach {fs₀ fs : Fs} (hft : fs₀.filetype = true) (h₀ : Typed fs₀)
    (hreach : Reach fs₀ Fs.Next (fun fs call => call.ReachesAll fs) fs) : Typed fs := by
  have hinv : fs.filetype = true ∧ Typed fs := by
    refine hreach.invariant (P := fun fs => fs.filetype = true ∧ Typed fs) ⟨hft, h₀⟩ ?_
    intro s call s' _ hs hguard hnext
    refine ⟨?_, typed_step hs.1 hs.2 hguard hnext⟩
    obtain ⟨-, key, rfl⟩ := hnext
    rw [Fs.step_filetype]
    exact hs.1
  exact hinv.2

/-- A file system with an empty root directory. -/
def emptyFs : Fs where
  filetype := true
  inodes _ := ⟨0x41ED, Data.new 0, []⟩
  nlink _ := 2
  dirs _ := []

/-- `f` in the root directory. -/
def fDentry : Dentry := .node .root fName

/-- Creating `f`. -/
def createF : Call := .create 2 fDentry plainMode (.ok (12, 0)) 0

/-- Making the link `g` to it. -/
def linkG : Call := .link 12 2 (.node .root ⟨['g'], by decide⟩) 0

/-- Writing 61 bytes to it as `f`. -/
def writeF : WriteOp := ⟨byteArray, Env.good, ⟨fDentry, false⟩, 12, 2, List.replicate 61 65, 0⟩

lemma typed_emptyFs : Typed emptyFs := by
  intro dir e he
  cases he

lemma keepsType_byteArray : byteArray.KeepsType := fun _ _ _ _ => rfl

/-- A file with one name is converted. -/
theorem typed_one_name :
    Typed ((emptyFs.step 0 createF).2.step 0 (.write writeF)).2 := by
  refine typed_of_reach rfl typed_emptyFs ((Reach.init.step (k := createF)
    trivial ⟨?_, 0, rfl⟩).step (k := .write writeF) ?_ ⟨keepsType_byteArray, 0, rfl⟩)
  · intro _
    have hentry : ∀ dir i e, ((emptyFs.step 0 createF).2.dirs dir)[i]? = some e →
        dir = 2 ∧ i = 0 ∧ e = ⟨['f'], 12, 8⟩ := by
      intro dir i e he
      rw [show (emptyFs.step 0 createF).2.dirs = Function.update (fun _ => []) 2 [⟨['f'], 12, 8⟩]
        from rfl] at he
      by_cases hdir : dir = 2
      · subst hdir
        cases i with
        | zero => exact ⟨rfl, rfl, by simpa using he.symm⟩
        | succ i => simp at he
      · simp [hdir] at he
    constructor
    · intro dir i e he _
      obtain ⟨rfl, rfl, -⟩ := hentry dir i e he
      exact ⟨rfl, by decide⟩
    · intro i e _ he hne
      obtain ⟨-, -, rfl⟩ := hentry _ i e he
      exact absurd rfl hne
  · intro dir e he
    cases he

/-- A file with two names is not: the entry `g` keeps the type 8. -/
theorem not_typed_two_names :
    emptyFs.Next createF (emptyFs.step 0 createF).2 ∧
      (emptyFs.step 0 createF).2.Next linkG ((emptyFs.step 0 createF).2.step 0 linkG).2 ∧
      ((emptyFs.step 0 createF).2.step 0 linkG).2.Next (.write writeF)
        (((emptyFs.step 0 createF).2.step 0 linkG).2.step 0 (.write writeF)).2 ∧
      Typed emptyFs ∧
      ¬ Typed (((emptyFs.step 0 createF).2.step 0 linkG).2.step 0 (.write writeF)).2 := by
  refine ⟨⟨?_, 0, rfl⟩, ⟨trivial, 0, rfl⟩, ⟨keepsType_byteArray, 0, rfl⟩, typed_emptyFs, ?_⟩
  · intro dir e he
    cases he
  · intro h
    have hg := typed_iff_getElem?.mp h 2 1 ⟨['g'], 12, 8⟩ (by decide)
    have hreg : sIsreg ((((emptyFs.step 0 createF).2.step 0 linkG).2.step 0
        (.write writeF)).2.inodes 12).iMode := by decide
    exact absurd ((typeOk_of_sIsreg_iff hreg 8).mp hg) (by decide)

end Comp3301.Ext3301
