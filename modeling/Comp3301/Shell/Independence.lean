import Comp3301.Shell.Lines
import Comp3301.Lib.System

/-!
# The shell: what a line is dispatched with

`parseline` adds to `count` and leaves those of the strings alone for which the line has no word;
`clear` is called after a line has been dispatched, but not after a blank or an over-long one, and
not before the first.

* `Dispatched mem input d`: in some run on `input`, with `mem` in the local variables at the start,
  a round dispatches `d`.
* `Vars.Clean` says that `count` is zero and the strings are empty. The rounds keep it, and from
  clean variables a line is dispatched with its own words (`Words.of`).
* The lines are independent of each other exactly if the variables are clean at the start
  (`independent_iff`), which the program does not see to.
-/

namespace Comp3301.Shell

open Comp3301.Lib

/-! ## Words -/

/-- The values of `count`, `command`, `arg1` and `arg2`; a string that does not end is `none`. -/
structure Words where
  count : ℤ
  command : Option (List UInt8)
  arg1 : Option (List UInt8)
  arg2 : Option (List UInt8)
  deriving DecidableEq

/-- The values of the variables. -/
def Vars.words (v : Vars) : Words := ⟨v.count, cstring v.command, cstring v.arg1, cstring v.arg2⟩

/-- The words of a line: how many there are, and the first three. -/
def Words.of (line : List UInt8) : Words :=
  let ts := strtokens line
  ⟨ts.length, ts.headD [], ts.tail.headD [], ts.tail.tail.headD []⟩

/-- `count` is zero and the strings are empty. -/
structure Vars.Clean (v : Vars) : Prop where
  count : v.count = 0
  command : HoldsString v.command []
  arg1 : HoldsString v.arg1 []
  arg2 : HoldsString v.arg2 []

/-- The words of a line are not empty, and have no zeros if it has none. -/
lemma nonzero_of_mem_tokensFrom {acc l t : List UInt8} (ht : t ∈ tokensFrom acc l)
    (hacc : 0 ∉ acc) (hl : 0 ∉ l) : t ≠ [] ∧ 0 ∉ t := by
  induction l generalizing acc with
  | nil =>
      unfold tokensFrom at ht
      split_ifs at ht with hnil
      · cases ht
      · rw [List.mem_singleton.mp ht]
        exact ⟨hnil, hacc⟩
  | cons c l ih =>
      simp only [List.mem_cons, not_or] at hl
      unfold tokensFrom at ht
      split_ifs at ht with hc hnil
      · exact ih ht List.not_mem_nil hl.2
      · rcases List.mem_cons.mp ht with rfl | ht
        · exact ⟨hnil, hacc⟩
        · exact ih ht List.not_mem_nil hl.2
      · exact ih ht (by simp [hacc, hl.1]) hl.2

/-! ## Parsing -/

/-- A word goes to an empty string; without a word the string stays empty. -/
lemma takeToken_holds {dst dst' : Block UInt8} {count count' : ℤ} {ts rest : List (List UInt8)}
    (hdst : HoldsString dst []) (hts : ∀ t ∈ ts, 0 ∉ t)
    (h : takeToken dst count ts = some (dst', count', rest)) :
    HoldsString dst' (ts.headD []) ∧ count' + rest.length = count + ts.length ∧
      rest = ts.tail := by
  cases ts with
  | nil =>
      cases h
      exact ⟨hdst, rfl, rfl⟩
  | cons t ts =>
      rw [takeToken, Option.bind_eq_bind, Option.bind_eq_some_iff] at h
      obtain ⟨m, hcpy, hres⟩ := h
      cases hres
      refine ⟨holdsString_of_strcpy hcpy (hts t List.mem_cons_self), ?_, rfl⟩
      push_cast [List.length_cons]
      ring

/-- From clean variables `parseline` leaves the words of the line. -/
lemma parseline_words {l : List UInt8} (hl : 0 ∉ l) {v v' : Vars} (hv : v.Clean)
    (h : parseline l v = some v') :
    v'.words = Words.of l := by
  have hts : ∀ t ∈ strtokens l, 0 ∉ t :=
    fun t ht => (nonzero_of_mem_tokensFrom ht List.not_mem_nil hl).2
  have htail : ∀ t ∈ (strtokens l).tail, 0 ∉ t := fun t ht => hts t (List.mem_of_mem_tail ht)
  have htail' : ∀ t ∈ (strtokens l).tail.tail, 0 ∉ t :=
    fun t ht => htail t (List.mem_of_mem_tail ht)
  simp only [parseline, Option.bind_eq_bind, Option.bind_eq_some_iff] at h
  obtain ⟨⟨command, n₁, ts₁⟩, h₁, ⟨arg1, n₂, ts₂⟩, h₂, ⟨arg2, n₃, ts₃⟩, h₃, hres⟩ := h
  cases hres
  obtain ⟨hcommand, hn₁, rfl⟩ := takeToken_holds hv.command hts h₁
  obtain ⟨harg1, hn₂, rfl⟩ := takeToken_holds hv.arg1 htail h₂
  obtain ⟨harg2, hn₃, rfl⟩ := takeToken_holds hv.arg2 htail' h₃
  simp only [Vars.words, Words.of, hcommand.cstring_eq, harg1.cstring_eq, harg2.cstring_eq]
  rw [hn₃, hn₂, hn₁, hv.count, zero_add]

/-- A line without words leaves the variables alone. -/
lemma parseline_blank {l : List UInt8} (hl : strtokens l = []) (v : Vars) :
    parseline l v = some v := by
  simp [parseline, hl, takeToken]

/-- The variables are clean after `clear`. -/
lemma clear_clean {v v' : Vars} (h : clear v = some v') : v'.Clean := by
  simp only [clear, Option.bind_eq_bind, Option.bind_eq_some_iff] at h
  obtain ⟨command, h₁, arg1, h₂, arg2, h₃, hres⟩ := h
  cases hres
  exact ⟨rfl, holdsString_of_strcpy h₁ List.not_mem_nil, holdsString_of_strcpy h₂ List.not_mem_nil,
    holdsString_of_strcpy h₃ List.not_mem_nil⟩

/-- A command that is found to be empty begins with a zero. -/
lemma cell_zero_of_builtinOf {m : Block UInt8} (h : builtinOf m = .empty) : m.cell 0 = 0 := by
  unfold builtinOf at h
  split_ifs at h with hls hcp hrm hempty
  have hslice : [m.cell 0] = [0] := hempty
  exact List.head_eq_of_cons_eq hslice

/-- The first word of a line goes to `command`. -/
lemma command_of_parseline {l t : List UInt8} {ts : List (List UInt8)} (hl : 0 ∉ l)
    (hts : strtokens l = t :: ts) {v v' : Vars} (h : parseline l v = some v') :
    HoldsString v'.command t ∧ t ≠ [] := by
  have ht : t ∈ strtokens l := by
    rw [hts]
    exact List.mem_cons_self
  obtain ⟨hne, hzero⟩ := nonzero_of_mem_tokensFrom ht List.not_mem_nil hl
  simp only [parseline, hts, takeToken, Option.bind_eq_bind, Option.bind_eq_some_iff] at h
  obtain ⟨⟨command, n₁, ts₁⟩, ⟨m, hcpy, hm⟩, ⟨arg1, n₂, ts₂⟩, -, ⟨arg2, n₃, ts₃⟩, -, hres⟩ := h
  cases hm
  cases hres
  exact ⟨holdsString_of_strcpy hcpy hzero, hne⟩

/-- If the command is empty after a line has been parsed, the line had no words. -/
lemma strtokens_of_builtinOf {l : List UInt8} (hl : 0 ∉ l) {v v' : Vars}
    (h : parseline l v = some v') (hempty : builtinOf v'.command = .empty) :
    strtokens l = [] := by
  rcases hts : strtokens l with _ | ⟨t, ts⟩
  · rfl
  · obtain ⟨hcommand, hne⟩ := command_of_parseline hl hts h
    exact absurd (cell_zero_of_builtinOf hempty)
      (hcommand.cell_ne_zero (List.length_pos_of_ne_nil hne))

/-- Clean variables have the words of an empty line. -/
lemma clean_iff_words {v : Vars} : v.Clean ↔ v.words = ⟨0, some [], some [], some []⟩ := by
  constructor
  · intro h
    simp only [Vars.words, h.count, h.command.cstring_eq, h.arg1.cstring_eq, h.arg2.cstring_eq]
  · intro h
    obtain ⟨hcount, hcommand, harg1, harg2⟩ := Words.mk.inj h
    exact ⟨hcount, holdsString_of_cstring hcommand, holdsString_of_cstring harg1,
      holdsString_of_cstring harg2⟩

/-! ## Rounds -/

/-- What `dispatch` does with the variables. -/
lemma dispatch_cases {line : Block UInt8} {stdin : Stdin} {v : Vars} {o : Option Dispatch}
    {s' : State} (h : dispatch line stdin v = some (.next o s')) :
    ∃ d, o = some d ∧ 0 ∉ d.line ∧ parseline d.line v = some d.vars ∧
      (builtinOf d.vars.command = .empty ∧ s'.vars = d.vars ∨
        builtinOf d.vars.command ≠ .empty ∧ clear d.vars = some s'.vars) := by
  rw [dispatch, Option.bind_eq_bind, Option.bind_eq_some_iff] at h
  obtain ⟨text, htext, h⟩ := h
  rw [Option.bind_eq_bind, Option.bind_eq_some_iff] at h
  obtain ⟨vars, hparse, h⟩ := h
  have hzero : 0 ∉ text := (holdsString_of_cstring htext).nonzero
  by_cases heof : line.cell 0 = eofChar
  · rw [if_pos heof] at h
    cases h
  · simp only [if_neg heof, Option.bind_some] at h
    by_cases hempty : builtinOf vars.command = .empty
    · rw [if_pos hempty] at h
      cases h
      exact ⟨_, rfl, hzero, hparse, Or.inl ⟨hempty, rfl⟩⟩
    · rw [if_neg hempty, Option.bind_eq_some_iff] at h
      obtain ⟨cleared, hclear, hres⟩ := h
      cases hres
      exact ⟨_, rfl, hzero, hparse, Or.inr ⟨hempty, hclear⟩⟩

/-- What a round does with the variables: the line is skipped, or it is dispatched. -/
lemma round_cases {extra : Block UInt8} {s s' : State} {o : Option Dispatch}
    (h : round extra s = some (.next o s')) :
    (o = none ∧ s'.vars = s.vars) ∨
      ∃ d, o = some d ∧ 0 ∉ d.line ∧ parseline d.line s.vars = some d.vars ∧
        (builtinOf d.vars.command = .empty ∧ s'.vars = d.vars ∨
          builtinOf d.vars.command ≠ .empty ∧ clear d.vars = some s'.vars) := by
  by_cases heof : s.stdin.eof
  · rw [round, if_pos heof] at h
    cases h
  rw [round, if_neg heof] at h
  simp only [Option.bind_eq_bind, Option.bind_eq_some_iff] at h
  obtain ⟨⟨line, stdin⟩, -, len, -, ⟨skip, stdin'⟩, -, h⟩ := h
  split_ifs at h with hskip
  · cases h
    exact Or.inl ⟨rfl, rfl⟩
  · rw [Option.bind_eq_some_iff] at h
    obtain ⟨line', -, h⟩ := h
    exact Or.inr (dispatch_cases h)

/-- A round keeps the variables clean. -/
lemma round_clean {extra : Block UInt8} {s s' : State} {o : Option Dispatch} (hs : s.vars.Clean)
    (h : round extra s = some (.next o s')) : s'.vars.Clean := by
  rcases round_cases h with ⟨-, hvars⟩ | ⟨d, -, hzero, hparse, ⟨hempty, hvars⟩ | ⟨-, hclear⟩⟩
  · rwa [hvars]
  · rw [parseline_blank (strtokens_of_builtinOf hzero hparse hempty)] at hparse
    rwa [hvars, ← Option.some.inj hparse]
  · exact clear_clean hclear

/-- After a line with a word the variables are clean, whatever they were. -/
lemma clean_of_word {extra : Block UInt8} {s s' : State} {d : Dispatch}
    (h : round extra s = some (.next (some d) s')) (hword : strtokens d.line ≠ []) :
    s'.vars.Clean := by
  rcases round_cases h with ⟨hnone, -⟩ | ⟨d', hd, hzero, hparse, ⟨hempty, -⟩ | ⟨-, hclear⟩⟩
  · cases hnone
  · rw [Option.some.inj hd] at hword
    exact absurd (strtokens_of_builtinOf hzero hparse hempty) hword
  · exact clear_clean hclear

/-- A blank line is dispatched with the variables as they are. -/
lemma vars_of_blank {extra : Block UInt8} {s s' : State} {d : Dispatch}
    (h : round extra s = some (.next (some d) s')) (hblank : strtokens d.line = []) :
    d.vars = s.vars := by
  rcases round_cases h with ⟨hnone, -⟩ | ⟨d', hd, -, hparse, -⟩
  · cases hnone
  · rw [← Option.some.inj hd, parseline_blank hblank] at hparse
    exact (Option.some.inj hparse).symm

/-- From clean variables a line is dispatched with its words. -/
lemma round_words {extra : Block UInt8} {s s' : State} {d : Dispatch} (hs : s.vars.Clean)
    (h : round extra s = some (.next (some d) s')) : d.vars.words = Words.of d.line := by
  rcases round_cases h with ⟨hnone, -⟩ | ⟨d', hd, hzero, hparse, -⟩
  · cases hnone
  · rw [Option.some.inj hd]
    exact parseline_words hzero hs hparse

/-! ## Runs -/

/-- The state in which `main` enters the loop. -/
def State.start (mem : Memory) (input : List UInt8) : State :=
  ⟨⟨input, false⟩, ⟨maxChar, mem.line⟩,
    ⟨mem.count, ⟨maxChar, mem.command⟩, ⟨maxChar, mem.arg1⟩, ⟨maxChar, mem.arg2⟩⟩⟩

/-- A round, with the memory in which `extra` lies, that does not end the program. -/
def Next (s : State) (extra : ℕ → UInt8) (s' : State) : Prop :=
  ∃ o, round ⟨maxChar, extra⟩ s = some (.next o s')

/-- The states at the top of the loop in runs on `input`. -/
abbrev Reached (mem : Memory) (input : List UInt8) : State → Prop :=
  Reach (State.start mem input) Next fun _ _ => True

/-- In some run on `input`, a round dispatches `d`. -/
def Dispatched (mem : Memory) (input : List UInt8) (d : Dispatch) : Prop :=
  ∃ s extra s', Reached mem input s ∧ round ⟨maxChar, extra⟩ s = some (.next (some d) s')

/-- What the loop dispatches from a state that is reached is dispatched in some run. -/
lemma dispatched_of_loop {mem : Memory} {input : List UInt8} {rounds : ℕ}
    {extra : ℕ → ℕ → UInt8} {s : State} {ds : List Dispatch} (hs : Reached mem input s)
    (h : loop rounds extra s = some ds) : ∀ d ∈ ds, Dispatched mem input d := by
  induction rounds generalizing extra s ds with
  | zero => cases h
  | succ n ih =>
      rw [loop, Option.bind_eq_bind, Option.bind_eq_some_iff] at h
      obtain ⟨r, hround, h⟩ := h
      rcases r with _ | ⟨o, s'⟩
      · cases h
        simp
      · simp only [Option.bind_eq_bind, Option.bind_eq_some_iff] at h
        obtain ⟨rest, hloop, hres⟩ := h
        cases hres
        intro d hd
        rcases List.mem_append.mp hd with hd | hd
        · rw [Option.mem_toList.mp hd] at hround
          exact ⟨s, extra 0, s', hs, hround⟩
        · exact ih (hs.step trivial ⟨o, hround⟩) hloop d hd

/-- So is what `main` dispatches. -/
lemma dispatched_of_main {rounds : ℕ} {mem : Memory} {input : List UInt8} {ds : List Dispatch}
    (h : main rounds mem input = some ds) : ∀ d ∈ ds, Dispatched mem input d :=
  dispatched_of_loop Reach.init h

/-! ## Independence -/

/-- The variables are clean at the start. -/
def Memory.Clean (mem : Memory) : Prop :=
  mem.count = 0 ∧ mem.command 0 = 0 ∧ mem.arg1 0 = 0 ∧ mem.arg2 0 = 0

/-- A line is dispatched with the same values in runs from `mem₁` and in runs from `mem₂`, whatever
the runs have read before. -/
def Independent (mem₁ mem₂ : Memory) : Prop :=
  ∀ input₁ input₂ d₁ d₂, Dispatched mem₁ input₁ d₁ → Dispatched mem₂ input₂ d₂ →
    d₁.line = d₂.line → d₁.vars.words = d₂.vars.words

lemma maxChar_pos : 0 < maxChar := by decide

/-- The condition on the memory is that on the variables. -/
lemma clean_start_iff (mem : Memory) (input : List UInt8) :
    (State.start mem input).vars.Clean ↔ mem.Clean := by
  constructor
  · intro h
    exact ⟨h.count, h.command.terminated, h.arg1.terminated, h.arg2.terminated⟩
  · rintro ⟨hcount, hcommand, harg1, harg2⟩
    exact ⟨hcount, holdsString_nil_iff.mpr ⟨maxChar_pos, hcommand⟩,
      holdsString_nil_iff.mpr ⟨maxChar_pos, harg1⟩, holdsString_nil_iff.mpr ⟨maxChar_pos, harg2⟩⟩

/-- **From clean variables every line is dispatched with its words.** -/
lemma words_of_dispatched {mem : Memory} (hmem : mem.Clean) {input : List UInt8} {d : Dispatch}
    (h : Dispatched mem input d) : d.vars.words = Words.of d.line := by
  obtain ⟨s, extra, s', hs, hround⟩ := h
  have hclean : s.vars.Clean := by
    apply Reach.invariant (P := fun s => s.vars.Clean) _ _ hs
    · exact (clean_start_iff mem input).mpr hmem
    · rintro s _ s' - hs - ⟨o, hround⟩
      exact round_clean hs hround
  exact round_words hclean hround

/-- A blank line and a line with a word fit the array. -/
lemma lineOk_blank : LineOk [space] := ⟨by decide, by decide, by decide⟩

lemma lineOk_word : LineOk [120] := ⟨by decide, by decide, by decide⟩

/-- A blank first line is dispatched with what the memory holds. -/
lemma dispatched_blank (mem : Memory) : ∃ d, Dispatched mem [space, newline] d ∧
    d.line = [space] ∧ d.vars = (State.start mem [space, newline]).vars := by
  obtain ⟨d, s', hround, hline, -, -⟩ := round_line ⟨maxChar, mem.extra 0⟩
    (between_start mem ([space] ++ newline :: [])) (by decide) lineOk_blank
  exact ⟨d, ⟨_, _, s', Reach.init, hround⟩, hline, vars_of_blank hround (by rw [hline]; rfl)⟩

/-- After a line with a word a blank line is dispatched with clean variables. -/
lemma dispatched_word_blank (mem : Memory) :
    ∃ d, Dispatched mem [120, newline, space, newline] d ∧ d.line = [space] ∧ d.vars.Clean := by
  obtain ⟨d₁, s₁, hround₁, hline₁, hbetween, -⟩ := round_line ⟨maxChar, mem.extra 0⟩
    (between_start mem ([120] ++ newline :: [space, newline])) (by decide) lineOk_word
  have hclean : s₁.vars.Clean := clean_of_word hround₁ (by rw [hline₁]; decide)
  have hrest : Between s₁ ([space] ++ newline :: []) := hbetween
  obtain ⟨d₂, s₂, hround₂, hline₂, -, -⟩ :=
    round_line ⟨maxChar, mem.extra 1⟩ hrest (by decide) lineOk_blank
  refine ⟨d₂, ⟨s₁, _, s₂, Reach.init.step trivial ⟨_, hround₁⟩, hround₂⟩, hline₂, ?_⟩
  rwa [vars_of_blank hround₂ (by rw [hline₂]; rfl)]

/-- Variables that are not clean at the start are seen in the first line. -/
lemma clean_of_independent {mem₁ mem₂ : Memory} (h : Independent mem₁ mem₂) : mem₁.Clean := by
  obtain ⟨d₁, hd₁, hline₁, hvars⟩ := dispatched_blank mem₁
  obtain ⟨d₂, hd₂, hline₂, hclean⟩ := dispatched_word_blank mem₂
  have hwords := h _ _ d₁ d₂ hd₁ hd₂ (hline₁.trans hline₂.symm)
  rw [clean_iff_words.mp hclean, hvars] at hwords
  exact (clean_start_iff mem₁ [space, newline]).mp (clean_iff_words.mpr hwords)

lemma Independent.symm {mem₁ mem₂ : Memory} (h : Independent mem₁ mem₂) :
    Independent mem₂ mem₁ :=
  fun input₁ input₂ d₁ d₂ h₁ h₂ hline => (h input₂ input₁ d₂ d₁ h₂ h₁ hline.symm).symm

/-- **The values with which a line is dispatched depend on the line alone exactly if the variables
are clean at the start**, in any two runs and at any two positions in them. -/
theorem independent_iff (mem₁ mem₂ : Memory) :
    Independent mem₁ mem₂ ↔ mem₁.Clean ∧ mem₂.Clean := by
  constructor
  · exact fun h => ⟨clean_of_independent h, clean_of_independent h.symm⟩
  · rintro ⟨h₁, h₂⟩ input₁ input₂ d₁ d₂ hd₁ hd₂ hline
    rw [words_of_dispatched h₁ hd₁, words_of_dispatched h₂ hd₂, hline]

/-- Memory with 5 in `count` and empty strings. -/
def countFive : Memory := ⟨5, fun _ => 0, fun _ => 0, fun _ => 0, fun _ => 0, fun _ _ => 0⟩

/-- With 5 in `count` at the start, the first line is not dispatched as it is later. -/
theorem not_independent_count : ¬ Independent countFive countFive := by
  intro h
  have hcount : (5 : ℤ) = 0 := (clean_of_independent h).1
  exact absurd hcount (by decide)

end Comp3301.Shell
