import Comp3301.Lib.CString

/-!
# The shell: reading and dispatching lines

`main` and `parseline` of `a0/shell.c`.

* Standard input is the list of the characters that have not been read and the end-of-file
  indicator. `fgets` follows the C standard: when nothing is read at the end of the file, the array
  is left alone and the indicator is set.
* Local arrays start with arbitrary contents (`Memory`), the array `extra` anew in every round of
  the loop.
* `main` is given a number of rounds. Its result is the list of the lines dispatched before the
  program ends; it is `none` when the rounds do not suffice and when an array is indexed out of its
  bounds.
-/

namespace Comp3301.Shell

open Comp3301.Lib

/-! ## Standard input -/

/-- `MAX_CHAR`. -/
def maxChar : ℕ := 1024

/-- `'\n'`. -/
def newline : UInt8 := 10

/-- `' '`. -/
def space : UInt8 := 32

/-- `EOF`, as a `char`. -/
def eofChar : UInt8 := 255

/-- Standard input. -/
structure Stdin where
  rest : List UInt8
  eof : Bool

/-- At most `n` characters, up to and including the first newline. -/
def takeLine : ℕ → List UInt8 → List UInt8
  | 0, _ => []
  | _ + 1, [] => []
  | n + 1, c :: cs => if c = newline then [c] else c :: takeLine n cs

/-- `fgets`. The indicator is set when the end of the file is met before the line or the array
ends. -/
def fgets (m : Block UInt8) (n : ℕ) (s : Stdin) : Option (Block UInt8 × Stdin) :=
  let got := takeLine (n - 1) s.rest
  let hitEnd := decide (got.length < n - 1 ∧ got.getLast? ≠ some newline)
  let s := ⟨s.rest.drop got.length, s.eof || hitEnd⟩
  if got = [] then some (m, s) else do
    let m ← m.write (got ++ [0])
    some (m, s)

/-! ## Parsing -/

/-- The variables `count`, `command`, `arg1` and `arg2` of `main`. -/
structure Vars where
  count : ℤ
  command : Block UInt8
  arg1 : Block UInt8
  arg2 : Block UInt8

/-- `clear`. -/
def clear (v : Vars) : Option Vars := do
  let command ← strcpy v.command []
  let arg1 ← strcpy v.arg1 []
  let arg2 ← strcpy v.arg2 []
  some ⟨0, command, arg1, arg2⟩

/-- The strings that are still to be returned by `strtok`, which has passed over `acc`. -/
def tokensFrom (acc : List UInt8) : List UInt8 → List (List UInt8)
  | [] => if acc = [] then [] else [acc]
  | c :: cs =>
      if c = space then
        if acc = [] then tokensFrom [] cs else acc :: tokensFrom [] cs
      else tokensFrom (acc ++ [c]) cs

/-- The strings that `strtok (line, " ")` and the calls after it return. -/
def strtokens (line : List UInt8) : List (List UInt8) := tokensFrom [] line

/-- `if (ptr != NULL) { strcpy (dst, ptr); ptr = strtok (NULL, " "); (*count)++; }` -/
def takeToken (dst : Block UInt8) (count : ℤ) :
    List (List UInt8) → Option (Block UInt8 × ℤ × List (List UInt8))
  | [] => some (dst, count, [])
  | ptr :: rest => do
      let dst ← strcpy dst ptr
      some (dst, count + 1, rest)

/-- `parseline`. -/
def parseline (line : List UInt8) (v : Vars) : Option Vars := do
  let (command, count, ptr) ← takeToken v.command v.count (strtokens line)
  let (arg1, count, ptr) ← takeToken v.arg1 count ptr
  let (arg2, count, ptr) ← takeToken v.arg2 count ptr
  some ⟨count + ptr.length, command, arg1, arg2⟩

/-! ## The loop -/

/-- What a line is dispatched to. -/
inductive Builtin where
  | ls
  | cp
  | rm
  | empty
  | unrecognised
  deriving DecidableEq, Repr

/-- A line with the values with which it is dispatched. -/
structure Dispatch where
  line : List UInt8
  builtin : Builtin
  vars : Vars

/-- `!strcmp (m, s)` for a string constant. -/
def streq (m : Block UInt8) (s : List UInt8) : Prop := slice m.cell 0 (s.length + 1) = s ++ [0]

instance (m : Block UInt8) (s : List UInt8) : Decidable (streq m s) :=
  inferInstanceAs (Decidable (_ = _))

/-- The chain of `strcmp`s. -/
def builtinOf (command : Block UInt8) : Builtin :=
  if streq command [108, 115] then .ls
  else if streq command [99, 112] then .cp
  else if streq command [114, 109] then .rm
  else if streq command [] then .empty
  else .unrecognised

/-- The state at the top of the loop. -/
structure State where
  stdin : Stdin
  line : Block UInt8
  vars : Vars

/-- How a round ends: the program exits, or the next round starts, with the line that was
dispatched, if any. -/
inductive Round where
  | exit
  | next (dispatched : Option Dispatch) (s : State)

/-- The check for a line that is too long, which reads on in `extra`. -/
def tooLong (extra line : Block UInt8) (len : ℕ) (stdin : Stdin) : Option (Bool × Stdin) :=
  if len = maxChar - 1 ∧ line.cell (maxChar - 2) ≠ newline ∧ stdin.eof = false then do
    let (extra, stdin) ← fgets extra maxChar stdin
    let elen ← strlen extra
    some (!decide ((elen = 1 ∧ extra.cell 0 = newline) ∨ elen = 0), stdin)
  else some (false, stdin)

/-- `if (line[strlen (line) - 1] == '\n') line[strlen (line) - 1] = '\0';` -/
def chomp (line : Block UInt8) (len : ℕ) : Option (Block UInt8) := do
  let last ← line.load ((len : ℤ) - 1)
  if last = newline then line.store ((len : ℤ) - 1) 0 else some line

/-- Parse and dispatch the line. After an empty command `clear` is not called. -/
def dispatch (line : Block UInt8) (stdin : Stdin) (v : Vars) : Option Round := do
  let text ← cstring line
  let vars ← parseline text v
  if line.cell 0 = eofChar then some .exit else
    let builtin := builtinOf vars.command
    let cleared ← if builtin = .empty then some vars else clear vars
    some (.next (some ⟨text, builtin, vars⟩) ⟨stdin, line, cleared⟩)

/-- One round of the loop of `main`. -/
def round (extra : Block UInt8) (s : State) : Option Round :=
  if s.stdin.eof then some .exit else do
    let (line, stdin) ← fgets s.line maxChar s.stdin
    let len ← strlen line
    let (skip, stdin) ← tooLong extra line len stdin
    if skip then some (.next none ⟨stdin, line, s.vars⟩) else do
      let line ← chomp line len
      dispatch line stdin s.vars

/-- The contents of the local arrays before they are written, and of `count`. -/
structure Memory where
  count : ℤ
  line : ℕ → UInt8
  command : ℕ → UInt8
  arg1 : ℕ → UInt8
  arg2 : ℕ → UInt8
  extra : ℕ → ℕ → UInt8

/-- The loop of `main`, for at most the given number of rounds. -/
def loop : ℕ → (ℕ → ℕ → UInt8) → State → Option (List Dispatch)
  | 0, _, _ => none
  | n + 1, extra, s => do
      match ← round ⟨maxChar, extra 0⟩ s with
      | .exit => some []
      | .next dispatched s =>
          let rest ← loop n (fun i => extra (i + 1)) s
          some (dispatched.toList ++ rest)

/-- `main`, without arguments. -/
def main (rounds : ℕ) (mem : Memory) (input : List UInt8) : Option (List Dispatch) :=
  loop rounds mem.extra
    ⟨⟨input, false⟩, ⟨maxChar, mem.line⟩,
      ⟨mem.count, ⟨maxChar, mem.command⟩, ⟨maxChar, mem.arg1⟩, ⟨maxChar, mem.arg2⟩⟩⟩

end Comp3301.Shell
