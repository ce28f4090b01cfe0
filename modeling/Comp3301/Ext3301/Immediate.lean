import Comp3301.Ext3301.File

/-!
# Immediate files and byte-array files

A new immediate file next to a byte-array file, through one open descriptor.

* `Op` are the calls: `lseek`, a write of a buffer and a read into a buffer.
* `observe` is what the caller sees of the calls on the file, `Reference.observe` what it would see
  of a byte-array file.
* A write to an immediate file does not move the position. So from the first write on that is not
  empty, the two differ (`observe_eq_iff`).
-/

namespace Comp3301.Ext3301

open Comp3301.Lib

/-! ## Calls -/

/-- A call through the descriptor. The buffer of a read is given with what it holds before. -/
inductive Op where
  | lseek (pos : ℕ)
  | write (buf : List UInt8)
  | read (buf : List UInt8)

/-- What the caller sees of a call: the result, the position, and the bytes delivered. -/
structure Seen where
  ret : ℤ
  ppos : ℕ
  delivered : List UInt8
  deriving DecidableEq

/-! ## The reference -/

namespace Reference

/-- A byte-array file, open at a position. -/
structure State where
  bytes : List UInt8
  pos : ℕ

/-- A call on the byte-array file. -/
def step (s : State) : Op → Seen × State
  | .lseek pos => (⟨pos, pos, []⟩, { s with pos := pos })
  | .write buf =>
      (⟨buf.length, s.pos + buf.length, []⟩,
        ⟨ByteFile.put 0 s.bytes s.pos buf, s.pos + buf.length⟩)
  | .read buf =>
      let got := ByteFile.get s.bytes s.pos buf.length
      (⟨got.length, s.pos + got.length, got⟩, { s with pos := s.pos + got.length })

/-- What the caller sees of a run. -/
def observe (s : State) : List Op → List Seen
  | [] => []
  | op :: ops => (step s op).1 :: observe (step s op).2 ops

/-- Every write of the run ends at most at position 60. -/
def Within (s : State) : List Op → Prop
  | [] => True
  | op :: ops => (∀ buf, op = .write buf → s.pos + buf.length ≤ 60) ∧ Within (step s op).2 ops

end Reference

/-! ## The file -/

/-- An inode that is open at a position. -/
structure Opened where
  ino : Inode
  pos : ℕ

section run

variable (key : UInt8) (filp : Filp)

/-- A call on the file. -/
def step (env : Env) (s : Opened) : Op → Seen × Opened
  | .lseek pos => (⟨pos, pos, []⟩, { s with pos := pos })
  | .write buf =>
      let w := syncWrite byteArray key env filp s.ino buf s.pos
      (⟨w.ret, w.ppos, []⟩, ⟨w.inode, w.ppos⟩)
  | .read buf =>
      let r := syncRead byteArray key env filp s.ino buf s.pos
      (⟨r.ret, r.ppos, r.delivered⟩, { s with pos := r.ppos })

/-- What the caller sees of a run, the calls being given with what they find. -/
def observe (s : Opened) : List (Env × Op) → List Seen
  | [] => []
  | (env, op) :: ops => (step key filp env s op).1 :: observe (step key filp env s op).2 ops

end run

/-! ## Comparison -/

section compare

variable {key : UInt8} {filp : Filp}

/-- Outside `/encrypt`, a write that fits copies the bytes to `i_data` and leaves the position. -/
lemma syncWrite_fits (hdir : filp.dentry.inEncrypt = false) (env : Env) {ino : Inode}
    (him : sIsim ino.iMode) {buf : List UInt8} {ppos : ℕ} (hfits : buf.length + ppos ≤ 60) :
    syncWrite byteArray key env filp ino buf ppos =
      ⟨buf.length, ppos, { ino with data := ino.data.memcpy buf (le_of_add_le_left hfits) },
        false⟩ := by
  rw [syncWrite, hdir, if_neg Bool.false_ne_true, plainWrite, if_pos him, imWrite, imPrepare,
    dif_pos hfits]

lemma Data.memcpy_nil (d : Data) (h : ([] : List UInt8).length ≤ 60) : d.memcpy [] h = d := rfl

/-- Outside `/encrypt`, a read of an empty immediate file. -/
lemma syncRead_empty (hdir : filp.dentry.inEncrypt = false) (env : Env) {ino : Inode}
    (him : sIsim ino.iMode) (hempty : ino.data.strlen = 0) (buf : List UInt8) (ppos : ℕ) :
    syncRead byteArray key env filp ino buf ppos = ⟨0, ppos, buf⟩ := by
  rw [syncRead, hdir, if_neg Bool.false_ne_true, plainRead, if_pos him, imRead, hempty]
  exact if_pos (Nat.zero_le _)

/-- From an empty file on: the calls look alike exactly if all writes are empty. -/
lemma observe_eq_iff_of_empty (hdir : filp.dentry.inEncrypt = false) {ino : Inode}
    (him : sIsim ino.iMode) (hempty : ino.data.strlen = 0) (pos : ℕ) (calls : List (Env × Op))
    (hwithin : Reference.Within ⟨[], pos⟩ (calls.map Prod.snd)) :
    observe key filp ⟨ino, pos⟩ calls = Reference.observe ⟨[], pos⟩ (calls.map Prod.snd) ↔
      ∀ buf, .write buf ∈ calls.map Prod.snd → buf = [] := by
  induction calls generalizing pos with
  | nil => simp [observe, Reference.observe]
  | cons call calls ih =>
      obtain ⟨env, op⟩ := call
      obtain ⟨hfits, hwithin⟩ := hwithin
      rw [observe, List.map_cons, Reference.observe, List.cons_eq_cons]
      cases op with
      | lseek p =>
          simp only [step, Reference.step, true_and]
          rw [ih p hwithin]
          simp
      | read buf =>
          simp only [step, Reference.step, syncRead_empty hdir env him hempty]
          rw [ByteFile.get_of_length_le (Nat.zero_le _)]
          have hwithin' : Reference.Within ⟨[], pos⟩ (calls.map Prod.snd) := by
            simpa [Reference.step] using hwithin
          simpa [Read.delivered] using ih pos hwithin'
      | write buf =>
          have hfits' : buf.length + pos ≤ 60 := by
            rw [Nat.add_comm]
            exact hfits buf rfl
          simp only [step, Reference.step, syncWrite_fits hdir env him hfits']
          by_cases hbuf : buf = []
          · -- nothing is written
            subst hbuf
            rw [Data.memcpy_nil, ByteFile.put_nil]
            have hwithin' : Reference.Within ⟨[], pos⟩ (calls.map Prod.snd) := by
              simpa [Reference.step] using hwithin
            simpa using ih pos hwithin'
          · -- the position stays where it is
            have hpos : 0 < buf.length := List.length_pos_of_ne_nil hbuf
            refine iff_of_false ?_ ?_
            · rintro ⟨hseen, -⟩
              have := congrArg Seen.ppos hseen
              simp only at this
              omega
            · exact fun h => hbuf (h buf List.mem_cons_self)

/-- **A new immediate file outside `/encrypt` looks like a byte-array file exactly as long as all
writes are empty**, for every run whose writes end at most at position 60. -/
theorem observe_eq_iff (hdir : filp.dentry.inEncrypt = false) (mode : {m : Mode // sIsreg m})
    (iFlags : BitVec 32) (calls : List (Env × Op))
    (hwithin : Reference.Within ⟨[], 0⟩ (calls.map Prod.snd)) :
    observe key filp ⟨newInode mode iFlags, 0⟩ calls =
        Reference.observe ⟨[], 0⟩ (calls.map Prod.snd) ↔
      ∀ buf, .write buf ∈ calls.map Prod.snd → buf = [] :=
  observe_eq_iff_of_empty hdir (sIsim_created mode.2) (Data.strlen_new iFlags) 0 calls hwithin

end compare

/-- The name of a file. -/
def fName : {n : Name // n ≠ [] ∧ '/' ∉ n} := ⟨['f'], by decide⟩

/-- A file in the root directory. -/
def rootFilp : Filp := ⟨.node .root fName, false⟩

/-- `S_IFREG | 0644`. -/
def plainMode : {m : Mode // sIsreg m} := ⟨0x81A4, rfl⟩

/-- Nothing fails. -/
def Env.good : Env := ⟨true, true, true, true⟩

/-- Seeking and reading in a new file. -/
theorem observe_eq_of_reads :
    observe 0 rootFilp ⟨newInode plainMode 0, 0⟩
        [(Env.good, .read [7, 7]), (Env.good, .lseek 3), (Env.good, .write [])] =
      Reference.observe ⟨[], 0⟩ [.read [7, 7], .lseek 3, .write []] := by
  refine (observe_eq_iff rfl plainMode 0
    [(Env.good, .read [7, 7]), (Env.good, .lseek 3), (Env.good, .write [])] ?_).mpr ?_
  · simp [Reference.Within, Reference.step]
  · simp

/-- After a write of one byte the position is still 0. -/
theorem observe_ne_of_write :
    Reference.Within ⟨[], 0⟩ [.write [65]] ∧
      observe 0 rootFilp ⟨newInode plainMode 0, 0⟩ [(Env.good, .write [65])] ≠
        Reference.observe ⟨[], 0⟩ [.write [65]] := by
  refine ⟨by simp [Reference.Within], ?_⟩
  decide

end Comp3301.Ext3301
