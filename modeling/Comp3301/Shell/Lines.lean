import Comp3301.Shell.Main

/-!
# The shell: which lines are dispatched

`lines` are the lines of a stream, the last one possibly without its newline. The loop tests for the
end of the file before it reads and ignores what `fgets` returns. When the stream ends with a
newline, the end has not been met when the last line is dispatched; the next round finds nothing to
read and takes the line again that is still in the array (`not_runs_nil_of_end`). So each line is
dispatched once exactly if the stream is not empty and does not end with a newline
(`linesOnce_iff`).
-/

namespace Comp3301.Shell

open Comp3301.Lib

/-! ## Lines -/

/-- The lines of a stream whose first line starts with `acc`. -/
def linesFrom (acc : List UInt8) : List UInt8 → List (List UInt8)
  | [] => if acc = [] then [] else [acc]
  | c :: cs => if c = newline then acc :: linesFrom [] cs else linesFrom (acc ++ [c]) cs

/-- The lines of a stream. -/
def lines (input : List UInt8) : List (List UInt8) := linesFrom [] input

lemma linesFrom_of_not_mem {l : List UInt8} (hl : newline ∉ l) (acc : List UInt8) :
    linesFrom acc l = if acc ++ l = [] then [] else [acc ++ l] := by
  induction l generalizing acc with
  | nil => simp [linesFrom]
  | cons c l ih =>
      simp only [List.mem_cons, not_or] at hl
      rw [linesFrom, if_neg (Ne.symm hl.1), ih hl.2]
      simp

lemma linesFrom_append {l : List UInt8} (hl : newline ∉ l) (acc rest : List UInt8) :
    linesFrom acc (l ++ newline :: rest) = (acc ++ l) :: lines rest := by
  induction l generalizing acc with
  | nil => simp [linesFrom, lines]
  | cons c l ih =>
      simp only [List.mem_cons, not_or] at hl
      rw [List.cons_append, linesFrom, if_neg (Ne.symm hl.1), ih hl.2]
      simp

/-- A last line without a newline. -/
lemma lines_of_not_mem {l : List UInt8} (hl : newline ∉ l) (hne : l ≠ []) : lines l = [l] := by
  rw [lines, linesFrom_of_not_mem hl, List.nil_append, if_neg hne]

/-- A line with its newline. -/
lemma lines_append {l : List UInt8} (hl : newline ∉ l) (rest : List UInt8) :
    lines (l ++ newline :: rest) = l :: lines rest := linesFrom_append hl [] rest

/-- A stream is a last line, or a line with its newline and a stream. -/
lemma line_cases (input : List UInt8) :
    newline ∉ input ∨ ∃ l rest, newline ∉ l ∧ input = l ++ newline :: rest := by
  induction input with
  | nil => exact Or.inl List.not_mem_nil
  | cons c cs ih =>
      by_cases hc : c = newline
      · exact Or.inr ⟨[], cs, List.not_mem_nil, by rw [hc, List.nil_append]⟩
      · rcases ih with hcs | ⟨l, rest, hl, rfl⟩
        · exact Or.inl (by simp [Ne.symm hc, hcs])
        · exact Or.inr ⟨c :: l, rest, by simp [Ne.symm hc, hl], rfl⟩

/-- Induction over the lines of a stream. -/
@[elab_as_elim]
lemma line_induction {P : List UInt8 → Prop} (last : ∀ l, newline ∉ l → P l)
    (line : ∀ l rest, newline ∉ l → P rest → P (l ++ newline :: rest)) (input : List UInt8) :
    P input := by
  induction hn : input.length using Nat.strong_induction_on generalizing input with
  | _ n ih =>
      rcases line_cases input with hl | ⟨l, rest, hl, rfl⟩
      · exact last input hl
      · refine line l rest hl (ih rest.length ?_ rest rfl)
        rw [← hn, List.length_append, List.length_cons]
        exact Nat.lt_add_left _ (Nat.lt_succ_self _)

/-- A line that fits the array: short enough, without a zero, and not taken for the end of the
file. -/
structure LineOk (l : List UInt8) : Prop where
  short : l.length ≤ maxChar - 2
  nonzero : 0 ∉ l
  notEof : l.head? ≠ some eofChar

/-- The streams in question. -/
def InputOk (input : List UInt8) : Prop := ∀ l ∈ lines input, LineOk l

/-! ## Reading -/

lemma takeLine_append {l : List UInt8} (hl : newline ∉ l) (rest : List UInt8) {n : ℕ}
    (hn : l.length < n) : takeLine n (l ++ newline :: rest) = l ++ [newline] := by
  induction l generalizing n with
  | nil =>
      obtain ⟨n, rfl⟩ := Nat.exists_eq_succ_of_ne_zero (Nat.ne_zero_of_lt hn)
      simp [takeLine]
  | cons c l ih =>
      obtain ⟨n, rfl⟩ := Nat.exists_eq_succ_of_ne_zero (Nat.ne_zero_of_lt hn)
      simp only [List.mem_cons, not_or] at hl
      rw [List.cons_append, takeLine, if_neg (Ne.symm hl.1), ih hl.2 (Nat.lt_of_succ_lt_succ hn)]
      rfl

lemma takeLine_of_not_mem {l : List UInt8} (hl : newline ∉ l) {n : ℕ} (hn : l.length ≤ n) :
    takeLine n l = l := by
  induction l generalizing n with
  | nil => cases n <;> rfl
  | cons c l ih =>
      obtain ⟨n, rfl⟩ := Nat.exists_eq_succ_of_ne_zero
        (Nat.one_le_iff_ne_zero.mp ((Nat.le_add_left 1 _).trans hn))
      simp only [List.mem_cons, not_or] at hl
      rw [takeLine, if_neg (Ne.symm hl.1), ih hl.2 (Nat.le_of_succ_le_succ hn)]

section fgets

variable {m : Block UInt8} {l rest : List UInt8}

/-- Reading a line with its newline. -/
lemma fgets_line (hm : m.size = maxChar) (hl : newline ∉ l) (hshort : l.length ≤ maxChar - 2) :
    fgets m maxChar ⟨l ++ newline :: rest, false⟩ =
      some (m.written (l ++ [newline] ++ [0]), ⟨rest, false⟩) := by
  have hlt : l.length < maxChar - 1 := by
    unfold maxChar at hshort ⊢
    omega
  have hfits : (l ++ [newline] ++ [0]).length ≤ m.size := by
    rw [hm]
    simp only [List.length_append, List.length_singleton]
    unfold maxChar at hshort ⊢
    omega
  unfold fgets
  simp only
  rw [takeLine_append hl rest hlt, if_neg (by simp), Block.write_eq hfits]
  simp

/-- Reading a last line. -/
lemma fgets_last (hm : m.size = maxChar) (hl : newline ∉ l) (hne : l ≠ []) (hok : LineOk l) :
    fgets m maxChar ⟨l, false⟩ = some (m.written (l ++ [0]), ⟨[], true⟩) := by
  have hshort := hok.short
  have hlt : l.length < maxChar - 1 := by
    unfold maxChar at hshort ⊢
    omega
  have hfits : (l ++ [0]).length ≤ m.size := by
    rw [hm]
    simp only [List.length_append, List.length_singleton]
    unfold maxChar at hshort ⊢
    omega
  have hlast : l.getLast? ≠ some newline := fun h => hl (List.mem_of_getLast? h)
  unfold fgets
  simp only
  rw [takeLine_of_not_mem hl hlt.le, if_neg hne, Block.write_eq hfits]
  simp [hlt, hlast]

/-- Reading at the end leaves the array alone. -/
lemma fgets_end : fgets m maxChar ⟨[], false⟩ = some (m, ⟨[], true⟩) := by
  simp [fgets, maxChar, takeLine]

end fgets

/-! ## Dispatching -/

/-- The arrays have their size. -/
structure Vars.Sized (v : Vars) : Prop where
  command : v.command.size = maxChar
  arg1 : v.arg1.size = maxChar
  arg2 : v.arg2.size = maxChar

lemma length_of_mem_tokensFrom {acc l t : List UInt8} (ht : t ∈ tokensFrom acc l) :
    t.length ≤ acc.length + l.length := by
  induction l generalizing acc with
  | nil =>
      unfold tokensFrom at ht
      split_ifs at ht with hacc
      · cases ht
      · rw [List.mem_singleton.mp ht]
        exact Nat.le_add_right _ _
  | cons c l ih =>
      unfold tokensFrom at ht
      split_ifs at ht with hc hacc
      · have := ih ht
        simp only [List.length_nil, List.length_cons] at this ⊢
        omega
      · rcases List.mem_cons.mp ht with rfl | ht
        · exact Nat.le_add_right _ _
        · have := ih ht
          simp only [List.length_nil, List.length_cons] at this ⊢
          omega
      · have := ih ht
        simp only [List.length_append, List.length_cons, List.length_nil] at this ⊢
        omega

/-- Copying the next string. -/
lemma takeToken_spec {dst : Block UInt8} (hdst : dst.size = maxChar) {ts : List (List UInt8)}
    (hts : ∀ t ∈ ts, t.length < maxChar) (count : ℤ) :
    ∃ dst' count', takeToken dst count ts = some (dst', count', ts.tail) ∧
      dst'.size = maxChar := by
  cases ts with
  | nil => exact ⟨dst, count, rfl, hdst⟩
  | cons t ts =>
      have hfits : (t ++ [0]).length ≤ dst.size := by
        rw [List.length_append, hdst]
        exact hts t List.mem_cons_self
      refine ⟨dst.written (t ++ [0]), count + 1, ?_, hdst⟩
      rw [takeToken, strcpy, Block.write_eq hfits]
      rfl

/-- `parseline` stays inside the arrays. -/
lemma parseline_spec {l : List UInt8} (hl : l.length < maxChar) {v : Vars} (hv : v.Sized) :
    ∃ v', parseline l v = some v' ∧ v'.Sized := by
  have hts : ∀ t ∈ strtokens l, t.length < maxChar := by
    intro t ht
    have := length_of_mem_tokensFrom ht
    rw [List.length_nil, Nat.zero_add] at this
    exact this.trans_lt hl
  have htail : ∀ t ∈ (strtokens l).tail, t.length < maxChar :=
    fun t ht => hts t (List.mem_of_mem_tail ht)
  have htail' : ∀ t ∈ (strtokens l).tail.tail, t.length < maxChar :=
    fun t ht => htail t (List.mem_of_mem_tail ht)
  obtain ⟨command, n₁, h₁, hs₁⟩ := takeToken_spec hv.command hts v.count
  obtain ⟨arg1, n₂, h₂, hs₂⟩ := takeToken_spec hv.arg1 htail n₁
  obtain ⟨arg2, n₃, h₃, hs₃⟩ := takeToken_spec hv.arg2 htail' n₂
  refine ⟨⟨n₃ + (strtokens l).tail.tail.tail.length, command, arg1, arg2⟩, ?_, hs₁, hs₂, hs₃⟩
  simp only [parseline, Option.bind_eq_bind, h₁, h₂, h₃, Option.bind_some]

lemma clear_spec {v : Vars} (hv : v.Sized) : ∃ v', clear v = some v' ∧ v'.Sized := by
  have hone : ∀ m : Block UInt8, m.size = maxChar →
      strcpy m [] = some (m.written ([] ++ [0])) := by
    intro m hm
    refine Block.write_eq ?_
    rw [hm]
    decide
  refine ⟨⟨0, v.command.written ([] ++ [0]), v.arg1.written ([] ++ [0]),
    v.arg2.written ([] ++ [0])⟩, ?_, hv.command, hv.arg1, hv.arg2⟩
  rw [clear, hone _ hv.command, hone _ hv.arg1, hone _ hv.arg2]
  rfl

/-- The state between two rounds: no end met yet, and all arrays of their size. -/
structure Between (s : State) (rest : List UInt8) : Prop where
  stdin : s.stdin = ⟨rest, false⟩
  line : s.line.size = maxChar
  vars : s.vars.Sized

/-- The string in the array is dispatched, unless it is taken for the end of the file. -/
lemma dispatch_eq {line : Block UInt8} {l : List UInt8} (hline : HoldsString line l)
    (hshort : l.length < maxChar) (stdin : Stdin) {v : Vars} (hv : v.Sized) :
    ∃ d v', d.line = l ∧ v'.Sized ∧ dispatch line stdin v =
      some (if line.cell 0 = eofChar then .exit else .next (some d) ⟨stdin, line, v'⟩) := by
  obtain ⟨v₁, hparse, hv₁⟩ := parseline_spec hshort hv
  obtain ⟨v₂, hclear, hv₂⟩ := clear_spec hv₁
  unfold dispatch
  rw [hline.cstring_eq, Option.bind_eq_bind, Option.bind_some, hparse, Option.bind_eq_bind,
    Option.bind_some]
  by_cases hempty : builtinOf v₁.command = .empty
  · exact ⟨⟨l, .empty, v₁⟩, v₁, rfl, hv₁, by split_ifs <;> simp [hempty]⟩
  · exact ⟨⟨l, builtinOf v₁.command, v₁⟩, v₂, rfl, hv₂, by split_ifs <;> simp [hempty, hclear]⟩

/-- A line in the array is dispatched as it is. -/
lemma dispatch_spec {line : Block UInt8} {l : List UInt8} (hline : HoldsString line l)
    (hok : LineOk l) (stdin : Stdin) {v : Vars} (hv : v.Sized) :
    ∃ d v', dispatch line stdin v = some (.next (some d) ⟨stdin, line, v'⟩) ∧ d.line = l ∧
      v'.Sized := by
  have hshort : l.length < maxChar := by
    have := hok.short
    unfold maxChar at this ⊢
    omega
  have hnot : ¬ line.cell 0 = eofChar := by
    cases l with
    | nil =>
        have hzero := hline.terminated
        rw [List.length_nil] at hzero
        rw [hzero]
        decide
    | cons c l =>
        rw [hline.cell_eq (Nat.zero_lt_succ _)]
        intro hc
        exact hok.notEof (congrArg some hc)
  obtain ⟨d, v', hd, hv', hdispatch⟩ := dispatch_eq hline hshort stdin hv
  rw [if_neg hnot] at hdispatch
  exact ⟨d, v', hdispatch, hd, hv'⟩

/-! ## Rounds -/

lemma tooLong_of_ne {extra line : Block UInt8} {len : ℕ} {stdin : Stdin}
    (h : len = maxChar - 1 → line.cell (maxChar - 2) = newline) :
    tooLong extra line len stdin = some (false, stdin) := by
  refine if_neg ?_
  rintro ⟨hlen, hcell, -⟩
  exact hcell (h hlen)

/-- The last character of a line with its newline is replaced by a zero. -/
lemma chomp_line {m : Block UInt8} {l : List UInt8} (h : HoldsString m (l ++ [newline])) :
    ∃ m', chomp m (l.length + 1) = some m' ∧ HoldsString m' l ∧ m'.size = m.size := by
  have hlt : l.length < m.size := by
    have := h.lt_size
    rw [List.length_append] at this
    exact (Nat.le_succ _).trans_lt this
  have hindex : ((l.length + 1 : ℕ) : ℤ) - 1 = (l.length : ℕ) := by push_cast; ring
  have hlast : m.cell l.length = newline := by
    rw [h.cell_eq (by simp)]
    simp
  refine ⟨{ m with cell := Function.update m.cell l.length 0 }, ?_, ⟨hlt, ?_, ?_, ?_⟩, rfl⟩
  · rw [chomp, hindex, Block.load_natCast hlt, Option.bind_eq_bind, Option.bind_some,
      if_pos hlast, Block.store_natCast hlt]
  · apply slice_eq_of_getElem
    intro k hk
    rw [Nat.zero_add]
    simp only
    rw [Function.update_of_ne hk.ne, h.cell_eq (by simp; omega), List.getElem_append_left hk]
  · exact Function.update_self _ _ _
  · exact fun hzero => h.nonzero (List.mem_append_left _ hzero)

/-- A line without a newline stays as it is. -/
lemma chomp_of_holds {m : Block UInt8} {l : List UInt8} (h : HoldsString m l) (hne : l ≠ [])
    (hl : newline ∉ l) : chomp m l.length = some m := by
  have hpos : 0 < l.length := List.length_pos_of_ne_nil hne
  have hindex : (l.length : ℤ) - 1 = (l.length - 1 : ℕ) := by omega
  have hlt : l.length - 1 < m.size := (Nat.sub_le _ _).trans_lt h.lt_size
  have hlast : m.cell (l.length - 1) ≠ newline := by
    rw [h.cell_eq (Nat.sub_lt hpos one_pos)]
    exact fun heq => hl (heq ▸ List.getElem_mem _)
  rw [chomp, hindex, Block.load_natCast hlt, Option.bind_eq_bind, Option.bind_some, if_neg hlast]

/-- An empty line has no last character. -/
lemma chomp_empty (m : Block UInt8) : chomp m 0 = none := by
  simp [chomp, Block.load]

section round

variable {s : State} {l rest : List UInt8}

/-- A round that reads a line with its newline: the end has not been met, and the line stays in the
array. -/
lemma round_line (extra : Block UInt8) (hs : Between s (l ++ newline :: rest)) (hl : newline ∉ l)
    (hok : LineOk l) :
    ∃ d s', round extra s = some (.next (some d) s') ∧ d.line = l ∧ Between s' rest ∧
      HoldsString s'.line l := by
  have hshort := hok.short
  have hholds : HoldsString (s.line.written (l ++ [newline] ++ [0])) (l ++ [newline]) := by
    apply holdsString_written
    · rw [hs.line, List.length_append, List.length_singleton]
      unfold maxChar at hshort ⊢
      omega
    · rw [List.mem_append, not_or]
      exact ⟨hok.nonzero, by decide⟩
  have hstrlen := hholds.strlen_eq
  rw [List.length_append, List.length_singleton] at hstrlen
  have htoo : ∀ stdin, tooLong extra (s.line.written (l ++ [newline] ++ [0])) (l.length + 1) stdin =
      some (false, stdin) := by
    intro stdin
    apply tooLong_of_ne
    intro hlen
    have hlen' : maxChar - 2 = l.length := by
      unfold maxChar at hlen ⊢
      omega
    rw [hlen', hholds.cell_eq (by simp)]
    simp
  obtain ⟨m', hchomp, hm', hsize⟩ := chomp_line hholds
  obtain ⟨d, v', hdispatch, hd, hv'⟩ := dispatch_spec hm' hok ⟨rest, false⟩ hs.vars
  refine ⟨d, ⟨⟨rest, false⟩, m', v'⟩, ?_, hd, ⟨rfl, hsize.trans hs.line, hv'⟩, hm'⟩
  unfold round
  rw [hs.stdin, if_neg (by simp), fgets_line hs.line hl hshort]
  simp only [Option.bind_eq_bind, Option.bind_some, hstrlen, htoo, hchomp, hdispatch, if_false,
    Bool.false_eq_true]

/-- A line in the array, without a newline, when the end has just been met. -/
lemma round_of_holds (extra : Block UInt8) {m : Block UInt8} (hs : Between s rest)
    (hfgets : fgets s.line maxChar ⟨rest, false⟩ = some (m, ⟨[], true⟩)) (hm : HoldsString m l)
    (hne : l ≠ []) (hl : newline ∉ l) (hok : LineOk l) :
    ∃ d s', round extra s = some (.next (some d) s') ∧ d.line = l ∧ s'.stdin = ⟨[], true⟩ := by
  have hshort := hok.short
  have htoo : ∀ stdin, tooLong extra m l.length stdin = some (false, stdin) := by
    intro stdin
    apply tooLong_of_ne
    intro hlen
    unfold maxChar at hshort hlen
    omega
  obtain ⟨d, v', hdispatch, hd, -⟩ := dispatch_spec hm hok ⟨[], true⟩ hs.vars
  refine ⟨d, ⟨⟨[], true⟩, m, v'⟩, ?_, hd, rfl⟩
  unfold round
  rw [hs.stdin, if_neg (by simp), hfgets]
  simp only [Option.bind_eq_bind, Option.bind_some, hm.strlen_eq, htoo, chomp_of_holds hm hne hl,
    hdispatch, if_false, Bool.false_eq_true]

/-- A round at the end with an empty line in the array leaves the array. -/
lemma round_empty (extra : Block UInt8) (hs : Between s []) (hline : HoldsString s.line []) :
    round extra s = none := by
  unfold round
  rw [hs.stdin, if_neg (by simp), fgets_end]
  simp only [Option.bind_eq_bind, Option.bind_some, hline.strlen_eq, List.length_nil]
  rw [tooLong_of_ne (by simp [maxChar])]
  simp [chomp_empty]

end round

/-! ## The whole run -/

lemma loop_succ_of_dispatch {n : ℕ} {extra : ℕ → ℕ → UInt8} {s s' : State} {d : Dispatch}
    (h : round ⟨maxChar, extra 0⟩ s = some (.next (some d) s')) :
    loop (n + 1) extra s = (loop n (fun i => extra (i + 1)) s').map (d :: ·) := by
  rw [loop, h]
  simp only [Option.bind_eq_bind, Option.bind_some]
  cases loop n (fun i => extra (i + 1)) s' <;> rfl

/-- When the end has been met the program ends. -/
lemma loop_of_eof {n : ℕ} {extra : ℕ → ℕ → UInt8} {s : State} (h : s.stdin.eof = true) :
    loop (n + 1) extra s = some [] := by
  rw [loop, round, if_pos h]
  rfl

/-- A run from `s` ends with dispatched lines `ls`. -/
def Runs (extra : ℕ → ℕ → UInt8) (s : State) (ls : List (List UInt8)) : Prop :=
  ∃ rounds ds, loop rounds extra s = some ds ∧ ds.map Dispatch.line = ls

lemma runs_of_eof (extra : ℕ → ℕ → UInt8) {s : State} (h : s.stdin.eof = true) :
    Runs extra s [] := ⟨1, [], loop_of_eof h, rfl⟩

/-- A round that dispatches `d` puts its line in front of what the rest of the run dispatches. -/
lemma runs_iff_of_dispatch {extra : ℕ → ℕ → UInt8} {s s' : State} {d : Dispatch}
    (h : round ⟨maxChar, extra 0⟩ s = some (.next (some d) s')) (ls : List (List UInt8)) :
    Runs extra s ls ↔
      ∃ ls', ls = d.line :: ls' ∧ Runs (fun i => extra (i + 1)) s' ls' := by
  constructor
  · rintro ⟨rounds, ds, hloop, rfl⟩
    cases rounds with
    | zero => cases hloop
    | succ n =>
        rw [loop_succ_of_dispatch h, Option.map_eq_some_iff] at hloop
        obtain ⟨ds', hloop, rfl⟩ := hloop
        exact ⟨ds'.map Dispatch.line, rfl, n, ds', hloop, rfl⟩
  · rintro ⟨ls', rfl, n, ds', hloop, rfl⟩
    refine ⟨n + 1, d :: ds', ?_, rfl⟩
    rw [loop_succ_of_dispatch h, hloop]
    rfl

lemma not_runs_of_round_none {extra : ℕ → ℕ → UInt8} {s : State}
    (h : round ⟨maxChar, extra 0⟩ s = none) (ls : List (List UInt8)) : ¬ Runs extra s ls := by
  rintro ⟨rounds, ds, hloop, -⟩
  cases rounds with
  | zero => cases hloop
  | succ n =>
      rw [loop, h] at hloop
      cases hloop

/-- At the end of the file, with the line `l` still in the array: `l` is dispatched, whether or not
it has been before. -/
lemma not_runs_nil_of_end (extra : ℕ → ℕ → UInt8) {s : State} {l : List UInt8}
    (hs : Between s []) (hline : HoldsString s.line l) (hl : newline ∉ l) (hok : LineOk l) :
    ¬ Runs extra s [] := by
  by_cases hne : l = []
  · subst hne
    exact not_runs_of_round_none (round_empty _ hs hline) []
  · obtain ⟨d, s', hround, -, -⟩ := round_of_holds ⟨maxChar, extra 0⟩ hs fgets_end hline hne hl hok
    rw [runs_iff_of_dispatch hround]
    rintro ⟨ls', hls, -⟩
    cases hls

/-- From any round on, the lines of the rest are dispatched, each once, exactly if the rest ends
with a line that has no newline. -/
lemma runs_lines_iff {rest : List UInt8} (hok : InputOk rest) (hne : rest ≠ [])
    (extra : ℕ → ℕ → UInt8) {s : State} (hs : Between s rest) :
    Runs extra s (lines rest) ↔ rest.getLast? ≠ some newline := by
  induction rest using line_induction generalizing extra s with
  | last l hl =>
      have hlines := lines_of_not_mem hl hne
      have hline : LineOk l := hok l (by rw [hlines]; exact List.mem_singleton_self _)
      have hlast : l.getLast? ≠ some newline := fun h => hl (List.mem_of_getLast? h)
      have hfits : l.length < s.line.size := by
        have := hline.short
        rw [hs.line]
        unfold maxChar at this ⊢
        omega
      obtain ⟨d, s', hround, hd, heof⟩ := round_of_holds ⟨maxChar, extra 0⟩ hs
        (fgets_last hs.line hl hne hline) (holdsString_written hfits hline.nonzero) hne hl hline
      rw [hlines, runs_iff_of_dispatch hround]
      refine iff_of_true ⟨[], by rw [hd], ?_⟩ hlast
      exact runs_of_eof _ (by rw [heof])
  | line l rest hl ih =>
      have hlines := lines_append hl rest
      have hline : LineOk l := hok l (by rw [hlines]; exact List.mem_cons_self)
      have hrest : InputOk rest :=
        fun t ht => hok t (by rw [hlines]; exact List.mem_cons_of_mem _ ht)
      obtain ⟨d, s', hround, hd, hs', hholds⟩ := round_line ⟨maxChar, extra 0⟩ hs hl hline
      have hstep : Runs extra s (lines (l ++ newline :: rest)) ↔
          Runs (fun i => extra (i + 1)) s' (lines rest) := by
        rw [hlines, runs_iff_of_dispatch hround, hd]
        constructor
        · rintro ⟨ls', hls, hruns⟩
          rwa [(List.cons.inj hls).2]
        · exact fun hruns => ⟨_, rfl, hruns⟩
      rw [hstep]
      by_cases hne' : rest = []
      · -- the newline was the last character: the line is still in the array
        subst hne'
        refine iff_of_false ?_ (by simp)
        exact not_runs_nil_of_end _ hs' hholds hl hline
      · rw [ih hrest hne' _ hs', List.getLast?_append_of_ne_nil _ (List.cons_ne_nil _ _),
          List.getLast?_cons_of_ne_nil hne']

lemma between_start (mem : Memory) (input : List UInt8) :
    Between ⟨⟨input, false⟩, ⟨maxChar, mem.line⟩,
      ⟨mem.count, ⟨maxChar, mem.command⟩, ⟨maxChar, mem.arg1⟩, ⟨maxChar, mem.arg2⟩⟩⟩ input :=
  ⟨rfl, rfl, rfl, rfl, rfl⟩

/-- Whatever the arrays hold at the start, the program ends, and the lines it dispatches are the
lines of the stream, each once and in order. -/
def LinesOnce (input : List UInt8) : Prop :=
  ∀ mem, ∃ rounds ds, main rounds mem input = some ds ∧ ds.map Dispatch.line = lines input

lemma linesOnce_iff_of_ne_nil {input : List UInt8} (hok : InputOk input) (hne : input ≠ []) :
    LinesOnce input ↔ input.getLast? ≠ some newline := by
  have hiff : ∀ mem, _ ↔ _ := fun mem => runs_lines_iff hok hne mem.extra (between_start mem input)
  constructor
  · exact fun h => (hiff ⟨0, 0, 0, 0, 0, 0⟩).mp (h _)
  · exact fun h mem => (hiff mem).mpr h

/-- From an empty stream the program takes what is in the array for a line. -/
lemma not_linesOnce_nil : ¬ LinesOnce [] := by
  intro h
  let mem : Memory := ⟨0, fun k => if k = 0 then 120 else 0, 0, 0, 0, 0⟩
  have hline : HoldsString ⟨maxChar, mem.line⟩ [120] :=
    ⟨by decide, by decide, rfl, by decide⟩
  apply not_runs_nil_of_end mem.extra (between_start mem []) hline (by decide)
  · exact ⟨by decide, by decide, by decide⟩
  · exact h mem

/-- **The lines of a stream are dispatched once each exactly if the stream is not empty and its last
line has no newline.** -/
theorem linesOnce_iff {input : List UInt8} (hok : InputOk input) :
    LinesOnce input ↔ input ≠ [] ∧ input.getLast? ≠ some newline := by
  by_cases hne : input = []
  · subst hne
    exact iff_of_false not_linesOnce_nil fun h => h.1 rfl
  · rw [linesOnce_iff_of_ne_nil hok hne]
    exact ⟨fun h => ⟨hne, h⟩, fun h => h.2⟩

/-- `ls`, without a newline, is dispatched once. -/
theorem linesOnce_ls : InputOk [108, 115] ∧ LinesOnce [108, 115] := by
  have hok : InputOk [108, 115] := by
    intro l hl
    rw [show lines [108, 115] = [[108, 115]] by decide, List.mem_singleton] at hl
    subst hl
    exact ⟨by decide, by decide, by decide⟩
  exact ⟨hok, (linesOnce_iff hok).mpr ⟨by decide, by decide⟩⟩

/-- `rm a` with its newline is not: it is dispatched a second time. -/
theorem not_linesOnce_rm :
    InputOk [114, 109, 32, 97, 10] ∧ ¬ LinesOnce [114, 109, 32, 97, 10] := by
  have hok : InputOk [114, 109, 32, 97, 10] := by
    intro l hl
    rw [show lines [114, 109, 32, 97, 10] = [[114, 109, 32, 97]] by decide,
      List.mem_singleton] at hl
    subst hl
    exact ⟨by decide, by decide, by decide⟩
  refine ⟨hok, fun h => ?_⟩
  exact (linesOnce_iff_of_ne_nil hok (by decide)).mp h (by decide)

end Comp3301.Shell
