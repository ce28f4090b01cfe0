import Comp3301.Lib.Strtok
import Comp3301.Shell.Independence

/-!
# The shell: `parseline` on its arrays

* `parselineMem` is `parseline` with its pointers: the line is copied to the array `templine`, in
  which `strtok` ends the words with zeros, and the words are copied from there.
* `Pending` says which words are still to come: the one that `ptr` points to and those of the string
  that `strtok` has still to search. `strcpy` and `strtok` keep it, and write the array that they
  are given and `templine` only.
* `parselineMem_eq`: the variables are those that `parseline` gives for the characters of the line,
  and the line is left alone.
* `parseline_tokenises`: these are the runs of the line of characters other than spaces.
-/

namespace Comp3301.Shell

open Comp3301.Lib

/-! ## Pointers -/

/-- The arrays that `parseline` reads and writes. -/
inductive ParseArray where
  | line
  | templine
  | command
  | arg1
  | arg2
  deriving DecidableEq, Repr

/-- The memory of `parseline`, with the pointer that `strtok` has saved. -/
structure ParseMem where
  arrays : Arrays ParseArray
  saved : Option (Pointer ParseArray)
  count : ℤ

/-- The variables of the caller. -/
def ParseMem.vars (s : ParseMem) : Vars :=
  ⟨s.count, s.arrays .command, s.arrays .arg1, s.arrays .arg2⟩

/-- `if (ptr != NULL) { strcpy (dst, ptr); ptr = strtok (NULL, " "); (*count)++; }` -/
def takeTokenMem (dst : ParseArray) (s : ParseMem) :
    Option (Pointer ParseArray) → Option (ParseMem × Option (Pointer ParseArray))
  | none => some (s, none)
  | some ptr => do
      let arrays ← strcpyFrom s.arrays dst ptr
      let (arrays, saved, ptr) ← strtok [space] arrays s.saved none
      some (⟨arrays, saved, s.count + 1⟩, ptr)

/-- `while (ptr != NULL) { (*count)++; ptr = strtok (NULL, " "); }`, for at most the given number of
rounds. -/
def countTokens : ℕ → ParseMem → Option (Pointer ParseArray) → Option ParseMem
  | _, s, none => some s
  | 0, _, some _ => none
  | rounds + 1, s, some _ => do
      let (arrays, saved, ptr) ← strtok [space] s.arrays s.saved none
      countTokens rounds ⟨arrays, saved, s.count + 1⟩ ptr

/-- `parseline`. The array `templine` starts with the contents `stack`. -/
def parselineMem (rounds : ℕ) (stack : ℕ → UInt8) (s : ParseMem) : Option ParseMem := do
  let len ← strlen (s.arrays .line)
  -- `char templine[strlen (line) + 1];`
  let arrays := Function.update s.arrays .templine ⟨len + 1, stack⟩
  let arrays ← strcpyFrom arrays .templine ⟨.line, 0⟩
  let (arrays, saved, ptr) ← strtok [space] arrays s.saved (some ⟨.templine, 0⟩)
  let (s, ptr) ← takeTokenMem .command ⟨arrays, saved, s.count⟩ ptr
  let (s, ptr) ← takeTokenMem .arg1 s ptr
  let (s, ptr) ← takeTokenMem .arg2 s ptr
  countTokens rounds s ptr

/-! ## Words -/

section words

variable {l seps w post : List UInt8}

/-- Spaces are passed over. -/
lemma tokensFrom_separators (hseps : ∀ c ∈ seps, ¬ c ≠ space) (l : List UInt8) :
    tokensFrom [] (seps ++ l) = tokensFrom [] l := by
  induction seps with
  | nil => rfl
  | cons c seps ih =>
      obtain ⟨hc, hrest⟩ := List.forall_mem_cons.mp hseps
      rw [List.cons_append, tokensFrom, if_pos (not_not.mp hc), if_pos rfl, ih hrest]

/-- The characters of a word are collected. -/
lemma tokensFrom_word (hw : ∀ c ∈ w, c ≠ space) (acc l : List UInt8) :
    tokensFrom acc (w ++ l) = tokensFrom (acc ++ w) l := by
  induction w generalizing acc with
  | nil => rw [List.nil_append, List.append_nil]
  | cons c w ih =>
      obtain ⟨hc, hrest⟩ := List.forall_mem_cons.mp hw
      rw [List.cons_append, tokensFrom, if_neg hc, ih hrest, List.append_assoc]
      rfl

lemma strtokens_of_separators (h : ∀ c ∈ l, ¬ c ≠ space) : strtokens l = [] := by
  have htokens := tokensFrom_separators h []
  rw [List.append_nil] at htokens
  exact htokens

/-- The first word of a line, and those behind it. -/
lemma strtokens_of_word (h : FirstWord (· ≠ space) l seps w post) :
    strtokens l = w :: strtokens post.tail := by
  have hne := h.ne_nil
  rw [strtokens, h.eq, List.append_assoc, tokensFrom_separators h.separators,
    tokensFrom_word h.word, List.nil_append]
  rcases post with _ | ⟨c, rest⟩
  · rw [tokensFrom, if_neg hne]
    rfl
  · have hc : c = space := not_not.mp (h.head c rfl)
    rw [tokensFrom, if_pos hc, if_neg hne]
    rfl

/-- `strtokens` finds the words. -/
lemma hasWords_strtokens (l : List UInt8) : HasWords (· ≠ space) l (strtokens l) := by
  induction hn : l.length using Nat.strong_induction_on generalizing l with
  | _ n ih =>
      rcases word_cases (p := (· ≠ space)) l with hnone | ⟨seps, w, post, h⟩
      · rw [strtokens_of_separators hnone]
        exact HasWords.nil hnone
      · rw [strtokens_of_word h]
        rcases post with _ | ⟨c, rest⟩
        · exact HasWords.last h
        · refine HasWords.cons h (ih rest.length ?_ rest rfl)
          rw [← hn, h.eq]
          simp only [List.length_append, List.length_cons]
          omega

end words

/-! ## Words that are still to come -/

/-- The words that are still to come: the one that `ptr` points to and those of the string that is
still to be searched. -/
def Pending (arrays : Arrays ParseArray) (saved ptr : Option (Pointer ParseArray))
    (ts : List (List UInt8)) : Prop :=
  match ptr with
  | none => ts = []
  | some p => p.array = .templine ∧ ∃ t rest, ts = t :: strtokens rest ∧
      HoldsString (deref arrays p) t ∧ Unsearched arrays .templine saved rest

section pending

variable {arrays : Arrays ParseArray} {saved ptr : Option (Pointer ParseArray)}
  {ts : List (List UInt8)} {s : ParseMem}

/-- A call of `strtok` finds the first word. -/
lemma strtok_pending (saved arg : Option (Pointer ParseArray)) {text : List UInt8}
    (h : Unsearched arrays .templine (arg <|> saved) text) :
    ∃ arrays' saved' ptr', strtok [space] arrays saved arg = some (arrays', saved', ptr') ∧
      Pending arrays' saved' ptr' (strtokens text) ∧
      ∀ a, a ≠ .templine → arrays' a = arrays a := by
  have hzero : (0 : UInt8) ∉ [space] := by decide
  have hsep : (fun c => c ∉ [space]) = (· ≠ space) := by
    funext c
    rw [List.mem_singleton]
  rcases word_cases (p := (· ≠ space)) text with hnone | ⟨seps, w, post, hword⟩
  · refine ⟨arrays, none, none, strtok_none h hzero ?_, strtokens_of_separators hnone,
      fun _ _ => rfl⟩
    exact fun c hc => List.mem_singleton.mpr (not_not.mp (hnone c hc))
  · obtain ⟨arrays', saved', token, hrun, harray, hholds, hrest, hframe⟩ :=
      strtok_word h hzero (hsep ▸ hword)
    exact ⟨arrays', saved', some token, hrun,
      ⟨harray, w, post.tail, strtokens_of_word hword, hholds, hrest⟩, hframe⟩

/-- What another array holds does not matter. -/
lemma Pending.update (h : Pending arrays saved ptr ts) {a : ParseArray} (ha : .templine ≠ a)
    (m : Block UInt8) : Pending (Function.update arrays a m) saved ptr ts := by
  rcases ptr with _ | p
  · exact h
  · obtain ⟨harray, t, rest, hts, hholds, hrest⟩ := h
    refine ⟨harray, t, rest, hts, ?_, ?_⟩
    · rw [deref_update_of_ne (harray ▸ ha)]
      exact hholds
    · rcases saved with _ | q
      · exact hrest
      · obtain ⟨harray', hholds'⟩ := hrest
        refine ⟨harray', ?_⟩
        rw [deref_update_of_ne (harray' ▸ ha)]
        exact hholds'

/-- Copying the next word does what `takeToken` does with it. -/
lemma takeTokenMem_spec (h : Pending s.arrays s.saved ptr ts) {dst : ParseArray}
    (hdst : .templine ≠ dst) {m : Block UInt8} {count : ℤ} {ts' : List (List UInt8)}
    (htake : takeToken (s.arrays dst) s.count ts = some (m, count, ts')) :
    ∃ s' ptr', takeTokenMem dst s ptr = some (s', ptr') ∧ Pending s'.arrays s'.saved ptr' ts' ∧
      s'.count = count ∧ s'.arrays dst = m ∧
      ∀ a, a ≠ dst → a ≠ .templine → s'.arrays a = s.arrays a := by
  rcases ptr with _ | p
  · obtain rfl : ts = [] := h
    cases htake
    exact ⟨s, none, rfl, rfl, rfl, rfl, fun _ _ _ => rfl⟩
  · have hupdate := fun m => h.update hdst m
    obtain ⟨-, t, rest, rfl, hholds, -⟩ := h
    rw [takeToken, Option.bind_eq_bind, Option.bind_eq_some_iff] at htake
    obtain ⟨m', hcopy, hres⟩ := htake
    cases hres
    -- the copy leaves what is still to be searched alone
    obtain ⟨-, t', rest', hts, -, hrest⟩ := hupdate m
    obtain ⟨-, hsame⟩ := List.cons.inj hts
    obtain ⟨arrays', saved', ptr', hrun, hpending, hframe⟩ :=
      strtok_pending s.saved none hrest
    refine ⟨⟨arrays', saved', s.count + 1⟩, ptr', ?_, hsame ▸ hpending, rfl, ?_, ?_⟩
    · simp only [takeTokenMem, strcpyFrom_eq hholds, hcopy, Option.map_some, Option.bind_eq_bind,
        Option.bind_some, hrun]
    · exact (hframe dst hdst.symm).trans (Function.update_self _ _ _)
    · intro a ha hat
      exact (hframe a hat).trans (Function.update_of_ne ha _ _)

/-- The loop counts the words that are left. -/
lemma countTokens_spec (h : Pending s.arrays s.saved ptr ts) {rounds : ℕ}
    (hrounds : ts.length ≤ rounds) :
    ∃ s', countTokens rounds s ptr = some s' ∧ s'.count = s.count + ts.length ∧
      ∀ a, a ≠ .templine → s'.arrays a = s.arrays a := by
  induction ts generalizing s ptr rounds with
  | nil =>
      rcases ptr with _ | p
      · refine ⟨s, ?_, (add_zero _).symm, fun _ _ => rfl⟩
        cases rounds <;> rfl
      · obtain ⟨-, t, rest, hts, -⟩ := h
        cases hts
  | cons t ts ih =>
      obtain ⟨rounds, rfl⟩ := Nat.exists_eq_succ_of_ne_zero
        (Nat.one_le_iff_ne_zero.mp ((Nat.le_add_left 1 _).trans hrounds))
      rcases ptr with _ | p
      · cases h
      · obtain ⟨-, t', rest, hts, -, hrest⟩ := h
        obtain ⟨rfl, rfl⟩ := List.cons.inj hts
        obtain ⟨arrays', saved', ptr', hrun, hpending, hframe⟩ :=
          strtok_pending s.saved none hrest
        obtain ⟨s', hloop, hcount, hframe'⟩ :=
          ih (s := ⟨arrays', saved', s.count + 1⟩) hpending (Nat.le_of_succ_le_succ hrounds)
        refine ⟨s', ?_, ?_, fun a ha => (hframe' a ha).trans (hframe a ha)⟩
        · rw [countTokens, hrun, Option.bind_eq_bind, Option.bind_some]
          exact hloop
        · rw [hcount, List.length_cons]
          push_cast
          ring

end pending

/-! ## The whole function -/

section parseline

variable {s : ParseMem} {text : List UInt8}

/-- The line is copied, and its first word is found. -/
lemma firstToken_pending (hline : HoldsString (s.arrays .line) text) (stack : ℕ → UInt8) :
    ∃ arrays saved ptr,
      (do
        let arrays ← strcpyFrom (Function.update s.arrays .templine ⟨text.length + 1, stack⟩)
          .templine ⟨.line, 0⟩
        strtok [space] arrays s.saved (some ⟨.templine, 0⟩)) = some (arrays, saved, ptr) ∧
      Pending arrays saved ptr (strtokens text) ∧ ∀ a, a ≠ .templine → arrays a = s.arrays a := by
  let arrays₀ := Function.update s.arrays .templine ⟨text.length + 1, stack⟩
  have hroom : arrays₀ .templine = ⟨text.length + 1, stack⟩ := Function.update_self _ _ _
  have hsource : HoldsString (deref arrays₀ ⟨.line, 0⟩) text := by
    rw [deref_update_of_ne (by decide), deref_zero]
    exact hline
  obtain ⟨m, hcopy, hholds, -⟩ :=
    strcpy_spec (m := ⟨text.length + 1, stack⟩) (Nat.lt_succ_self text.length) hline.nonzero
  let arrays₁ := Function.update arrays₀ .templine m
  have hcopied : strcpyFrom arrays₀ .templine ⟨.line, 0⟩ = some arrays₁ := by
    rw [strcpyFrom_eq hsource, hroom, hcopy, Option.map_some]
  have hleft : Unsearched arrays₁ .templine (some ⟨.templine, 0⟩ <|> s.saved) text := by
    have hcopy' : arrays₁ .templine = m := Function.update_self _ _ _
    refine ⟨rfl, ?_⟩
    rw [deref_zero, hcopy']
    exact hholds
  obtain ⟨arrays, saved, ptr, hrun, hpending, hframe⟩ := strtok_pending _ _ hleft
  refine ⟨arrays, saved, ptr, ?_, hpending, ?_⟩
  · rw [hcopied, Option.bind_eq_bind, Option.bind_some, hrun]
  · intro a ha
    calc arrays a = arrays₁ a := hframe a ha
      _ = arrays₀ a := Function.update_of_ne ha _ _
      _ = s.arrays a := Function.update_of_ne ha _ _

lemma length_takeToken_le {dst dst' : Block UInt8} {count count' : ℤ} {ts ts' : List (List UInt8)}
    (h : takeToken dst count ts = some (dst', count', ts')) : ts'.length ≤ ts.length := by
  cases ts with
  | nil =>
      cases h
      exact le_rfl
  | cons t ts =>
      rw [takeToken, Option.bind_eq_bind, Option.bind_eq_some_iff] at h
      obtain ⟨m, -, hres⟩ := h
      cases hres
      exact Nat.le_succ _

/-- **`parseline` on its arrays** computes what `parseline` computes from the characters of the
line, and leaves the line alone. -/
theorem parselineMem_eq (hline : HoldsString (s.arrays .line) text) {v : Vars}
    (hparse : parseline text s.vars = some v) (stack : ℕ → UInt8) {rounds : ℕ}
    (hrounds : (strtokens text).length ≤ rounds) :
    ∃ s', parselineMem rounds stack s = some s' ∧ s'.vars = v ∧
      s'.arrays .line = s.arrays .line := by
  simp only [parseline, Option.bind_eq_bind, Option.bind_eq_some_iff] at hparse
  obtain ⟨⟨command, n₁, ts₁⟩, h₁, ⟨arg1, n₂, ts₂⟩, h₂, ⟨arg2, n₃, ts₃⟩, h₃, hres⟩ := hparse
  cases hres
  obtain ⟨arrays, saved, ptr, hfirst, hpending, hkeep⟩ := firstToken_pending hline stack
  -- the three words that are copied
  have h₁' : takeToken (arrays .command) s.count (strtokens text) = some (command, n₁, ts₁) := by
    rw [hkeep _ (by decide)]
    exact h₁
  obtain ⟨s₁, ptr₁, hrun₁, hpending₁, rfl, rfl, hkeep₁⟩ :=
    takeTokenMem_spec (s := ⟨arrays, saved, s.count⟩) hpending (by decide) h₁'
  have h₂' : takeToken (s₁.arrays .arg1) s₁.count ts₁ = some (arg1, n₂, ts₂) := by
    rw [hkeep₁ _ (by decide) (by decide)]
    exact (congrArg (takeToken · s₁.count ts₁) (hkeep _ (by decide))).trans h₂
  obtain ⟨s₂, ptr₂, hrun₂, hpending₂, rfl, rfl, hkeep₂⟩ :=
    takeTokenMem_spec hpending₁ (by decide) h₂'
  have h₃' : takeToken (s₂.arrays .arg2) s₂.count ts₂ = some (arg2, n₃, ts₃) := by
    rw [hkeep₂ _ (by decide) (by decide), hkeep₁ _ (by decide) (by decide)]
    exact (congrArg (takeToken · s₂.count ts₂) (hkeep _ (by decide))).trans h₃
  obtain ⟨s₃, ptr₃, hrun₃, hpending₃, rfl, rfl, hkeep₃⟩ :=
    takeTokenMem_spec hpending₂ (by decide) h₃'
  have hleft : ts₃.length ≤ rounds :=
    ((length_takeToken_le h₃).trans (length_takeToken_le h₂)).trans
      ((length_takeToken_le h₁).trans hrounds)
  obtain ⟨s', hloop, hcount, hkeep'⟩ := countTokens_spec hpending₃ hleft
  refine ⟨s', ?_, ?_, ?_⟩
  · rw [Option.bind_eq_bind, Option.bind_eq_some_iff] at hfirst
    obtain ⟨copied, hcopied, hfound⟩ := hfirst
    simp only [parselineMem, hline.strlen_eq, hcopied, hfound, hrun₁, hrun₂, hrun₃,
      Option.bind_eq_bind, Option.bind_some]
    exact hloop
  · unfold ParseMem.vars
    rw [hcount, hkeep' _ (by decide), hkeep' _ (by decide), hkeep' _ (by decide),
      hkeep₃ _ (by decide) (by decide), hkeep₃ _ (by decide) (by decide),
      hkeep₂ _ (by decide) (by decide)]
  · rw [hkeep' _ (by decide), hkeep₃ _ (by decide) (by decide), hkeep₂ _ (by decide) (by decide),
      hkeep₁ _ (by decide) (by decide)]
    exact hkeep _ (by decide)

end parseline

/-! ## Runs of the line -/

/-- The variables are those that the runs `rs` of the line give, and the line is left alone. -/
structure Tokenised (text : List UInt8) (rs : List (ℕ × ℕ)) (s s' : ParseMem) : Prop where
  count : s'.count = rs.length
  command : HoldsString (s'.arrays .command) ((rs.map (stretch text)).getD 0 [])
  arg1 : HoldsString (s'.arrays .arg1) ((rs.map (stretch text)).getD 1 [])
  arg2 : HoldsString (s'.arrays .arg2) ((rs.map (stretch text)).getD 2 [])
  line : s'.arrays .line = s.arrays .line

/-- The words of a line, by their places. -/
lemma tokenised_of_words {s s' : ParseMem} {text : List UInt8} {rs : List (ℕ × ℕ)}
    (hrs : rs.map (stretch text) = strtokens text) (hwords : s'.vars.words = Words.of text)
    (hline : s'.arrays .line = s.arrays .line) : Tokenised text rs s s' := by
  obtain ⟨hcount, hcommand, harg1, harg2⟩ := Words.mk.inj hwords
  rw [← hrs] at hcount hcommand harg1 harg2
  have hheads : ∀ ws : List (List UInt8), ws.headD [] = ws.getD 0 [] ∧
      ws.tail.headD [] = ws.getD 1 [] ∧ ws.tail.tail.headD [] = ws.getD 2 [] := by
    rintro (_ | ⟨_, _ | ⟨_, _ | _⟩⟩) <;> exact ⟨rfl, rfl, rfl⟩
  obtain ⟨h₀, h₁, h₂⟩ := hheads (rs.map (stretch text))
  rw [h₀] at hcommand
  rw [h₁] at harg1
  rw [h₂] at harg2
  refine ⟨?_, holdsString_of_cstring hcommand, holdsString_of_cstring harg1,
    holdsString_of_cstring harg2, hline⟩
  rw [List.length_map] at hcount
  exact hcount

/-- **`parseline` finds the runs of characters other than spaces**, for every line that fits the
array of `main`: from cleared variables it counts them and copies the first three, each of which
fits with its end, and it leaves the line alone. -/
theorem parseline_tokenises {s : ParseMem} {text : List UInt8}
    (hline : HoldsString (s.arrays .line) text) (hlength : text.length ≤ 1023)
    (hsized : s.vars.Sized) (hclean : s.vars.Clean) (stack : ℕ → UInt8) :
    ∃ rs, RunsFrom (At (· ≠ space) text) 0 rs ∧
      (∀ r ∈ rs, (stretch text r).length + 1 ≤ maxChar) ∧
      ∃ n, ∀ rounds ≥ n, ∃ s', parselineMem rounds stack s = some s' ∧ Tokenised text rs s s' := by
  have hfits : text.length < maxChar := Nat.lt_succ_of_le hlength
  obtain ⟨rs, hruns, hrs⟩ := (hasWords_strtokens text).exists_runs
  obtain ⟨v, hparse, -⟩ := parseline_spec hfits hsized
  refine ⟨rs, hruns, ?_, (strtokens text).length, fun rounds hrounds => ?_⟩
  · intro r _
    exact (Nat.add_le_add_right (length_stretch_le text r) 1).trans hfits
  · obtain ⟨s', hrun, rfl, hkept⟩ := parselineMem_eq hline hparse stack hrounds
    exact ⟨s', hrun, tokenised_of_words hrs (parseline_words hline.nonzero hclean hparse) hkept⟩

/-- `"cp  a b"`. -/
def cpLine : List UInt8 := [99, 112, 32, 32, 97, 32, 98]

/-- The line is read, and the variables are cleared. -/
def cpMem : ParseMem where
  arrays
    | .line => Block.written ⟨maxChar, fun _ => 0⟩ (cpLine ++ [0])
    | _ => ⟨maxChar, fun _ => 0⟩
  saved := none
  count := 0

/-- A line with three words. -/
theorem parseline_tokenises_cp :
    ∃ rs, RunsFrom (At (· ≠ space) cpLine) 0 rs ∧
      (∀ r ∈ rs, (stretch cpLine r).length + 1 ≤ maxChar) ∧
      ∃ n, ∀ rounds ≥ n, ∃ s', parselineMem rounds (fun _ => 0) cpMem = some s' ∧
        Tokenised cpLine rs cpMem s' := by
  have hempty : HoldsString ⟨maxChar, fun _ => 0⟩ [] :=
    holdsString_nil_iff.mpr ⟨by decide, rfl⟩
  have hline : HoldsString (cpMem.arrays .line) cpLine := holdsString_written (by decide) (by decide)
  have hclean : cpMem.vars.Clean := ⟨rfl, hempty, hempty, hempty⟩
  exact parseline_tokenises hline (by decide) ⟨rfl, rfl, rfl⟩ hclean _

end Comp3301.Shell
