import Comp3301.Ext3301.EntryTypes

/-!
# Writes that fail

A write to an immediate file that returns an error.

* A write that does not outgrow the inode, or that fails before `ext3301_im_write` clears `i_data`,
  leaves all as it was (`Kept`).
* From then on nothing is undone: whatever `do_sync_write` returns, and whether the entry is found
  or not, the file becomes a regular one. So a failure is clean exactly if the write does not get
  that far, or does not fail there (`cleanFailure_iff`).
-/

namespace Comp3301.Ext3301

/-! ## The write -/

/-- The bytes that `ext3301_im_write` hands over to `do_sync_write`. -/
def Data.handedOver (d : Data) (append : Bool) (buf : List UInt8) : List UInt8 :=
  if d.strlen ≠ 0 ∧ append then
    d.bytes.take (d.strlen - 1) ++ buf.takeWhile (· ≠ 0) ++ [0]
  else buf

lemma imPrepare_handedOver {append imAlloc : Bool} {d : Data} {buf : List UInt8} {ppos : ℕ}
    (hlong : 60 < buf.length + ppos) (hmem : d.strlen ≠ 0 ∧ append → imAlloc) :
    imPrepare append imAlloc d buf ppos = .handsOver d.memset (d.handedOver append buf) := by
  unfold imPrepare Data.handedOver
  rw [dif_neg (Nat.not_le.mpr hlong)]
  split_ifs with hgrow halloc
  · rfl
  · exact absurd (hmem hgrow) halloc
  · rfl

namespace WriteOp

/-- `do_sync_write` as a conversion calls it. -/
def synced (key : UInt8) (fs : Fs) (w : WriteOp) : SyncWritten :=
  let ino := fs.inodes w.n
  w.vfs.doSyncWrite w.filp.append { ino with data := ino.data.memset }
    (ino.data.handedOver w.filp.append (cipher key w.filp w.buf)) w.ppos

/-- `ext2_find_entry` finds the entry. -/
def entryFound (fs : Fs) (w : WriteOp) : Bool :=
  (fs.findEntry w.dir w.filp.dentry.dName).isSome

end WriteOp

lemma Fs.inodes_setFileType (fs : Fs) (dir : ℕ) (name : Name) :
    (fs.setFileType dir name).inodes = fs.inodes := by
  unfold Fs.setFileType
  split <;> rfl

section write

variable {fs : Fs} {w : WriteOp} {key : UInt8}

/-- The inode after a write, and the directory when the type is not changed. -/
lemma write_result (key : UInt8) (fs : Fs) (w : WriteOp) :
    let r := syncWrite w.vfs key { w.env with found := w.entryFound fs } w.filp (fs.inodes w.n)
      w.buf w.ppos
    (fs.write key w).1 = r.ret ∧ (fs.write key w).2.inodes w.n = r.inode ∧
      (r.setType = false → (fs.write key w).2.dirs = fs.dirs) := by
  intro r
  have hres : fs.write key w =
      (r.ret, if r.setType then
        (fs.setInode w.n r.inode).setFileType w.dir w.filp.dentry.dName
      else fs.setInode w.n r.inode) := rfl
  have hinode : (fs.setInode w.n r.inode).inodes w.n = r.inode := Function.update_self _ _ _
  rw [hres]
  refine ⟨rfl, ?_, ?_⟩
  · simp only
    split_ifs
    · rw [Fs.inodes_setFileType, hinode]
    · exact hinode
  · intro hset
    rw [hset]
    rfl

/-- A conversion. -/
lemma write_of_converts (key : UInt8) (h : w.converts fs) :
    (fs.write key w).1 = (if w.entryFound fs then (w.synced key fs).ret else -enoent) ∧
      ((fs.write key w).2.inodes w.n).iMode = converted (w.synced key fs).inode.iMode := by
  obtain ⟨hret, hinode, -⟩ := write_result key fs w
  have hrej : ¬ w.filp.Rejects { w.env with found := w.entryFound fs } := h.accepted
  have hlong : 60 < (cipher key w.filp w.buf).length + w.ppos := by
    rw [length_cipher]
    exact h.long
  rw [hret, hinode, syncWrite_of_not_rejects _ key hrej, plainWrite, if_pos h.immediate, imWrite,
    imPrepare_handedOver hlong h.memory]
  simp only
  cases w.entryFound fs <;> exact ⟨rfl, rfl⟩

/-- A write to an immediate file that converts nothing succeeds, or changes neither the inode nor
the directory. -/
lemma write_of_not_converts (key : UInt8) (him : sIsim (fs.inodes w.n).iMode)
    (h : ¬ w.converts fs) :
    0 ≤ (fs.write key w).1 ∨
      (fs.write key w).2.inodes w.n = fs.inodes w.n ∧ (fs.write key w).2.dirs = fs.dirs := by
  obtain ⟨hret, hinode, hdirs⟩ := write_result key fs w
  rw [hret, hinode]
  by_cases hrej : w.filp.Rejects { w.env with found := w.entryFound fs }
  · obtain ⟨hsame, hset⟩ := syncWrite_of_rejects w.vfs key hrej (fs.inodes w.n) w.buf w.ppos
    exact Or.inr ⟨hsame, hdirs hset⟩
  · have hshort : ¬ (60 < (cipher key w.filp w.buf).length + w.ppos ∧
        ((fs.inodes w.n).data.strlen ≠ 0 ∧ w.filp.append → w.env.imAlloc)) := by
      rw [length_cipher]
      exact fun hconv => h ⟨him, hconv.1, hrej, hconv.2⟩
    rw [syncWrite_of_not_rejects _ key hrej, plainWrite, if_pos him, imWrite] at hdirs ⊢
    rcases imPrepare_cases w.filp.append w.env.imAlloc (fs.inodes w.n).data
      (cipher key w.filp w.buf) w.ppos with ⟨hconv, -⟩ | ⟨-, ⟨d, hfits⟩ | hnone⟩
    · exact absurd hconv hshort
    · refine Or.inl ?_
      rw [hfits]
      exact Int.natCast_nonneg _
    · rw [hnone] at hdirs ⊢
      exact Or.inr ⟨rfl, hdirs rfl⟩

end write

/-! ## Failures -/

/-- The mode and the 60 bytes of `i_data` of the file, and the types in the entries of its
directory, are as they were. -/
structure Kept (fs fs' : Fs) (w : WriteOp) : Prop where
  mode : (fs'.inodes w.n).iMode = (fs.inodes w.n).iMode
  data : (fs'.inodes w.n).data.bytes.take 60 = (fs.inodes w.n).data.bytes.take 60
  types : (fs'.dirs w.dir).map Entry.fileType = (fs.dirs w.dir).map Entry.fileType

/-- If the write fails, it leaves the file as it was. -/
def CleanFailure (key : UInt8) (fs : Fs) (w : WriteOp) : Prop :=
  (fs.write key w).1 < 0 → Kept fs (fs.write key w).2 w

/-- **When a write to an immediate file that fails leaves the file as it was.** -/
theorem cleanFailure_iff {key : UInt8} {fs : Fs} {w : WriteOp}
    (him : sIsim (fs.inodes w.n).iMode) (hvfs : w.vfs.KeepsType) :
    CleanFailure key fs w ↔
      (w.converts fs → w.entryFound fs ∧ 0 ≤ (w.synced key fs).ret) := by
  by_cases hconv : w.converts fs
  · obtain ⟨hret, hmode⟩ := write_of_converts key hconv
    have hchanged : ((fs.write key w).2.inodes w.n).iMode ≠ (fs.inodes w.n).iMode := by
      intro hsame
      -- the file is regular now
      have him' : sIsim (w.synced key fs).inode.iMode := by
        have htype : (w.synced key fs).inode.iMode &&& sIfmt = (fs.inodes w.n).iMode &&& sIfmt :=
          hvfs _ _ _ _
        simpa only [sIsim, htype] using him
      have hreg := sIsreg_converted him'
      rw [← hmode, hsame] at hreg
      rw [not_sIsim_of_sIsreg hreg] at him
      cases him
    have hclean : CleanFailure key fs w ↔ 0 ≤ (fs.write key w).1 :=
      ⟨fun h => le_of_not_gt fun hneg => hchanged (h hneg).mode, fun h hneg => absurd h hneg.not_ge⟩
    rw [hclean, hret]
    simp only [hconv, true_implies]
    cases w.entryFound fs
    · simp [enoent]
    · simp
  · refine iff_of_true ?_ fun h => absurd h hconv
    intro hneg
    rcases write_of_not_converts key him hconv with hok | ⟨hinode, hdirs⟩
    · exact absurd hok hneg.not_ge
    · exact ⟨by rw [hinode], by rw [hinode], by rw [hdirs]⟩

/-- `ENOSPC`. -/
def enospc : ℤ := 28

/-- A device that is full. -/
def fullDevice : Vfs where
  doSyncRead := byteArray.doSyncRead
  doSyncWrite _ ino _ ppos := ⟨-enospc, ppos, ino⟩

/-- A root directory with the new file `f`. -/
def fsWithF : Fs := (emptyFs.step 0 createF).2

/-- A write of 61 bytes to a file in `/encrypt` for which there is no memory. -/
theorem cleanFailure_no_memory :
    CleanFailure 0 fsWithF
      ⟨fullDevice, { Env.good with alloc := false }, ⟨encryptedFile, false⟩, 12, 2,
        List.replicate 61 65, 0⟩ := by
  refine (cleanFailure_iff (by decide) fun _ _ _ _ => rfl).mpr fun h => ?_
  exact absurd h.accepted (by decide)

/-- A write of 61 bytes when the device is full: the file is a regular one afterwards. -/
theorem not_cleanFailure_full_device :
    sIsim (fsWithF.inodes 12).iMode ∧ fullDevice.KeepsType ∧
      ¬ CleanFailure 0 fsWithF { writeF with vfs := fullDevice } := by
  refine ⟨by decide, fun _ _ _ _ => rfl, fun h => ?_⟩
  have hmode := (h (by decide)).mode
  exact absurd hmode (by decide)

end Comp3301.Ext3301
