import Comp3301.Ext3301.Encrypt

/-!
# The address limit of a task

`ext3301_sync_read` and `ext3301_sync_write` move the address limit of the calling task: under
`KERNEL_DS` the kernel takes any pointer for a user's pointer.

* `syncReadFs` and `syncWriteFs` are the two functions with their calls of `get_fs` and `set_fs`.
  `do_sync_read` and `do_sync_write` are called under the limit of the moment, on which they may
  depend, and leave it alone (`kernel : Seg → Vfs`). But for the limit the two functions are
  `syncRead` and `syncWrite`.
* `Task` is a task with the inodes it works on, `Task.run` a sequence of its calls.
* In `/encrypt` the limit is put back. Outside, `ext3301_sync_write` sets it and never puts it
  back: a run keeps the limit exactly if it has no such write (`restored_iff`).
-/

namespace Comp3301.Ext3301

open Comp3301.Lib

/-! ## The functions with the address limit -/

/-- `mm_segment_t`. -/
inductive Seg where
  /-- `USER_DS`. -/
  | userDs
  /-- `KERNEL_DS`. -/
  | kernelDs
  deriving DecidableEq, Repr

section functions

variable (kernel : Seg → Vfs) (key : UInt8) (env : Env) (filp : Filp) (ino : Inode)
  (buf : List UInt8) (ppos : ℕ) (fs : Seg)

/-- `ext3301_sync_read` by a task with the address limit `fs`: what it returns, and the limit
after the return. -/
def syncReadFs : Read × Seg :=
  let oldfs := fs
  if filp.dentry.inEncrypt then
    if env.alloc then
      let fs := Seg.kernelDs
      let r := plainRead (kernel fs) { env with copy := true } ino
        (List.replicate buf.length 0) ppos
      let fs := oldfs
      if env.copy then (⟨r.ret, r.ppos, r.buf.map (crypt key)⟩, fs)
      else (⟨-efault, r.ppos, buf⟩, fs)
    else (⟨-enomem, ppos, buf⟩, fs)
  else (plainRead (kernel fs) env ino buf ppos, fs)

/-- `ext3301_sync_write` by a task with the address limit `fs`: what it returns, and the limit
after the return. The branch outside `/encrypt` has no `set_fs (oldfs)`. -/
def syncWriteFs : Written × Seg :=
  let oldfs := fs
  if filp.dentry.inEncrypt then
    if env.alloc then
      if env.copy then
        let fs := Seg.kernelDs
        let w := plainWrite (kernel fs) env filp.append ino (buf.map (crypt key)) ppos
        let fs := oldfs
        (w, fs)
      else (⟨-efault, ppos, ino, false⟩, fs)
    else (⟨-enomem, ppos, ino, false⟩, fs)
  else
    let fs := Seg.kernelDs
    (plainWrite (kernel fs) env filp.append ino buf ppos, fs)

/-- The limit under which `do_sync_read` is called. -/
def readFs : Seg := if filp.dentry.inEncrypt then .kernelDs else fs

/-- But for the limit the function is `syncRead`. -/
lemma syncReadFs_fst :
    (syncReadFs kernel key env filp ino buf ppos fs).1 =
      syncRead (kernel (readFs filp fs)) key env filp ino buf ppos := by
  unfold syncReadFs syncRead readFs
  split_ifs <;> rfl

/-- A read leaves the limit as it was. -/
lemma syncReadFs_snd : (syncReadFs kernel key env filp ino buf ppos fs).2 = fs := by
  unfold syncReadFs
  split_ifs <;> rfl

/-- But for the limit the function is `syncWrite`; `do_sync_write` is always called under
`KERNEL_DS`. -/
lemma syncWriteFs_fst :
    (syncWriteFs kernel key env filp ino buf ppos fs).1 =
      syncWrite (kernel .kernelDs) key env filp ino buf ppos := by
  unfold syncWriteFs syncWrite
  split_ifs <;> rfl

/-- A write in `/encrypt` leaves the limit as it was, any other one leaves `KERNEL_DS`. -/
lemma syncWriteFs_snd :
    (syncWriteFs kernel key env filp ino buf ppos fs).2 =
      if filp.dentry.inEncrypt then fs else .kernelDs := by
  unfold syncWriteFs
  split_ifs <;> rfl

end functions

/-! ## Runs -/

/-- The two functions. -/
inductive Rw where
  | read
  | write
  deriving DecidableEq, Repr

/-- A call of one of them on the inode `ino`, with what it finds. -/
structure SyncCall (Ino : Type) where
  rw : Rw
  kernel : Seg → Vfs
  key : UInt8
  env : Env
  filp : Filp
  ino : Ino
  buf : List UInt8
  ppos : ℕ

/-- A task, with the inodes of the files it works on. -/
structure Task (Ino : Type) where
  addrLimit : Seg
  inodes : Ino → Inode

section task

variable {Ino : Type} [DecidableEq Ino]

/-- One call. -/
def Task.step (t : Task Ino) (k : SyncCall Ino) : Task Ino :=
  match k.rw with
  | .read =>
      { t with
        addrLimit := (syncReadFs k.kernel k.key k.env k.filp (t.inodes k.ino) k.buf k.ppos
          t.addrLimit).2 }
  | .write =>
      let r := syncWriteFs k.kernel k.key k.env k.filp (t.inodes k.ino) k.buf k.ppos t.addrLimit
      { addrLimit := r.2, inodes := Function.update t.inodes k.ino r.1.inode }

/-- Calls, one after the other. -/
def Task.run (t : Task Ino) (ks : List (SyncCall Ino)) : Task Ino := ks.foldl Task.step t

/-- The address limit is `USER_DS` after every return. -/
def Task.Restored (t : Task Ino) (ks : List (SyncCall Ino)) : Prop :=
  ∀ done, done <+: ks → (t.run done).addrLimit = .userDs

/-- The call is a write to a file outside `/encrypt`. -/
def SyncCall.WritesPlain (k : SyncCall Ino) : Prop :=
  k.rw = .write ∧ k.filp.dentry.inEncrypt = false

instance (k : SyncCall Ino) : Decidable k.WritesPlain := inferInstanceAs (Decidable (_ ∧ _))

/-- What one call does to the limit. -/
lemma Task.step_addrLimit (t : Task Ino) (k : SyncCall Ino) :
    (t.step k).addrLimit = if k.WritesPlain then .kernelDs else t.addrLimit := by
  obtain ⟨rw, kernel, key, env, filp, ino, buf, ppos⟩ := k
  cases rw with
  | read =>
      rw [if_neg (fun h : SyncCall.WritesPlain _ => Rw.noConfusion h.1)]
      exact syncReadFs_snd _ _ _ _ _ _ _ _
  | write =>
      simp only [Task.step, syncWriteFs_snd, SyncCall.WritesPlain, true_and]
      cases filp.dentry.inEncrypt <;> rfl

/-- What a run does to it. -/
lemma Task.run_addrLimit (t : Task Ino) (ks : List (SyncCall Ino)) :
    (t.run ks).addrLimit = if ∃ k ∈ ks, k.WritesPlain then .kernelDs else t.addrLimit := by
  induction ks generalizing t with
  | nil => simp [Task.run]
  | cons k ks ih =>
      have hrun : (t.run (k :: ks)).addrLimit = ((t.step k).run ks).addrLimit := rfl
      rw [hrun, ih, Task.step_addrLimit]
      by_cases hk : k.WritesPlain <;> simp [hk]

/-- **A task that starts with `USER_DS` has it after every return exactly if it does not write to
a file outside `/encrypt`**, for all files, immediate and regular, and whatever the calls meet. -/
theorem restored_iff {t : Task Ino} (ht : t.addrLimit = .userDs) (ks : List (SyncCall Ino)) :
    t.Restored ks ↔ ∀ k ∈ ks, k.rw = .write → k.filp.dentry.inEncrypt := by
  have hplain : (∃ k ∈ ks, k.WritesPlain) ↔
      ¬ ∀ k ∈ ks, k.rw = .write → k.filp.dentry.inEncrypt := by
    simp [SyncCall.WritesPlain]
  constructor
  · intro h
    by_contra hnot
    have hend := h ks (List.prefix_refl ks)
    rw [Task.run_addrLimit, if_pos (hplain.mpr hnot)] at hend
    cases hend
  · intro h done hdone
    rw [Task.run_addrLimit, if_neg, ht]
    rintro ⟨k, hk, hplain⟩
    have hin := h k (hdone.subset hk) hplain.1
    rw [hplain.2] at hin
    cases hin

end task

/-- A task with one file, which is empty and regular. -/
def oneFileTask : Task Unit := ⟨.userDs, fun _ => emptyFile⟩

/-- A call with a buffer of one byte that meets no failure. -/
def oneByteCall (rw : Rw) (dentry : Dentry) : SyncCall Unit :=
  ⟨rw, fun _ => byteArray, 1, Env.good, ⟨dentry, false⟩, (), [65], 0⟩

/-- Writing and reading a file in `/encrypt`. -/
theorem restored_encrypted :
    oneFileTask.Restored [oneByteCall .write encryptedFile, oneByteCall .read encryptedFile] :=
  (restored_iff rfl _).mpr (by decide)

/-- Writing one byte to a file in the root directory. -/
theorem not_restored_plain : ¬ oneFileTask.Restored [oneByteCall .write rootFilp.dentry] := by
  intro h
  exact absurd (h _ (List.prefix_refl _)) (by decide)

end Comp3301.Ext3301
