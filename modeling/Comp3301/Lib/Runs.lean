import Mathlib.Data.List.TakeWhile
import Mathlib.Tactic

/-!
# Maximal runs

* `IsRun q i j`: the places from `i` on and before `j` are a maximal run of places with the property
  `q`. Two runs that start at the same place are the same (`IsRun.end_unique`).
* `RunsFrom q a rs`: `rs` are the runs that start at `a` or later, in order. They are found from the
  right: there are none behind the last place with the property (`RunsFrom.nil`), a place without it
  is skipped (`RunsFrom.skip`), and a run is put in front of those that start behind it
  (`RunsFrom.cons`).
* `At p l k` is the property of the places of a list at which there is an element that meets `p`,
  and `stretch l r` the elements of `l` in a run.
* `HasWords p l ws`: searching `l` word by word gives `ws`. These are the runs
  (`HasWords.exists_runs`).
-/

namespace Comp3301.Lib

/-! ## Runs of places -/

/-- A maximal run of places with the property `q`, from `i` up to but not including `j`. -/
structure IsRun (q : ℕ → Prop) (i j : ℕ) : Prop where
  lt : i < j
  inside : ∀ k, i ≤ k → k < j → q k
  before : ∀ k, k + 1 = i → ¬ q k
  behind : ¬ q j

/-- The runs that start at `a` or later, in order. -/
structure RunsFrom (q : ℕ → Prop) (a : ℕ) (rs : List (ℕ × ℕ)) : Prop where
  mem_iff : ∀ i j, (i, j) ∈ rs ↔ a ≤ i ∧ IsRun q i j
  sorted : rs.Pairwise fun r r' => r.1 < r'.1

section places

variable {q : ℕ → Prop} {a b : ℕ} {rs : List (ℕ × ℕ)}

/-- Where a run ends depends on where it starts. -/
lemma IsRun.end_unique {i j j' : ℕ} (h : IsRun q i j) (h' : IsRun q i j') : j = j' := by
  rcases lt_trichotomy j j' with hlt | heq | hlt
  · exact absurd (h'.inside j h.lt.le hlt) h.behind
  · exact heq
  · exact absurd (h.inside j' h'.lt.le hlt) h'.behind

/-- A run that does not start before another one starts there or behind its end. -/
lemma IsRun.start_cases {i j : ℕ} (h : IsRun q a b) (h' : IsRun q i j) (hi : a ≤ i) :
    i = a ∨ b < i := by
  rcases hi.eq_or_lt with heq | hlt
  · exact Or.inl heq.symm
  · right
    obtain ⟨k, rfl⟩ := Nat.exists_eq_succ_of_ne_zero (Nat.ne_zero_of_lt hlt)
    -- the place in front of the second run is not in the first one
    have hk : ¬ q k := h'.before k rfl
    have hbk : b ≤ k := by
      by_contra hkb
      exact hk (h.inside k (Nat.le_of_lt_succ hlt) (Nat.not_le.mp hkb))
    exact Nat.lt_succ_of_le hbk

lemma RunsFrom.nil (h : ∀ k ≥ a, ¬ q k) : RunsFrom q a [] where
  mem_iff := by
    intro i j
    refine iff_of_false List.not_mem_nil ?_
    rintro ⟨hi, hrun⟩
    exact h i hi (hrun.inside i le_rfl hrun.lt)
  sorted := List.Pairwise.nil

lemma RunsFrom.skip (h : RunsFrom q (a + 1) rs) (ha : ¬ q a) : RunsFrom q a rs where
  mem_iff := by
    intro i j
    rw [h.mem_iff]
    refine and_congr_left fun hrun => ⟨Nat.le_of_succ_le, fun hi => ?_⟩
    refine Nat.lt_of_le_of_ne hi ?_
    rintro rfl
    exact ha (hrun.inside a le_rfl hrun.lt)
  sorted := h.sorted

lemma RunsFrom.cons (h : RunsFrom q b rs) (hrun : IsRun q a b) : RunsFrom q a ((a, b) :: rs) where
  mem_iff := by
    intro i j
    rw [List.mem_cons, h.mem_iff, Prod.mk.injEq]
    constructor
    · rintro (⟨rfl, rfl⟩ | ⟨hi, hrun'⟩)
      · exact ⟨le_rfl, hrun⟩
      · exact ⟨hrun.lt.le.trans hi, hrun'⟩
    · rintro ⟨hi, hrun'⟩
      rcases hrun.start_cases hrun' hi with rfl | hlt
      · exact Or.inl ⟨rfl, hrun'.end_unique hrun⟩
      · exact Or.inr ⟨hlt.le, hrun'⟩
  sorted := by
    refine List.pairwise_cons.mpr ⟨?_, h.sorted⟩
    rintro ⟨i, j⟩ hmem
    exact hrun.lt.trans_le ((h.mem_iff i j).mp hmem).1

end places

/-! ## Runs of elements -/

section elements

variable {α : Type} {p : α → Prop} {l : List α}

/-- There is an element that meets `p` at place `k`. -/
def At (p : α → Prop) (l : List α) (k : ℕ) : Prop := ∃ c, l[k]? = some c ∧ p c

/-- The elements of `l` from the start of a run to its end. -/
def stretch (l : List α) (r : ℕ × ℕ) : List α := (l.drop r.1).take (r.2 - r.1)

lemma not_at_of_length_le {k : ℕ} (hk : l.length ≤ k) : ¬ At p l k := by
  rintro ⟨c, hc, -⟩
  rw [List.getElem?_eq_none hk] at hc
  cases hc

/-- The run of the elements `w` that stand between two parts of the list. -/
lemma isRun_append {pre w post : List α} (hne : w ≠ []) (hw : ∀ c ∈ w, p c)
    (hpre : ∀ c ∈ pre.getLast?, ¬ p c) (hpost : ∀ c ∈ post.head?, ¬ p c) :
    IsRun (At p (pre ++ w ++ post)) pre.length (pre.length + w.length) where
  lt := Nat.lt_add_of_pos_right (List.length_pos_of_ne_nil hne)
  inside := by
    intro k hk hk'
    have hkw : k - pre.length < w.length := by omega
    refine ⟨w[k - pre.length], ?_, hw _ (List.getElem_mem hkw)⟩
    rw [List.append_assoc, List.getElem?_append_right hk, List.getElem?_append_left hkw,
      List.getElem?_eq_getElem hkw]
  before := by
    rintro k hk ⟨c, hc, hpc⟩
    have hlast : pre.getLast? = some c := by
      rw [List.append_assoc, List.getElem?_append_left (by omega)] at hc
      rw [List.getLast?_eq_getElem?, ← hk, Nat.add_sub_cancel]
      exact hc
    exact hpre c hlast hpc
  behind := by
    rintro ⟨c, hc, hpc⟩
    have hhead : post.head? = some c := by
      rw [← List.length_append, List.getElem?_append_right le_rfl, Nat.sub_self] at hc
      rw [List.head?_eq_getElem?]
      exact hc
    exact hpost c hhead hpc

lemma stretch_append (pre w post : List α) :
    stretch (pre ++ w ++ post) (pre.length, pre.length + w.length) = w := by
  unfold stretch
  rw [List.append_assoc, List.drop_left, Nat.add_sub_cancel_left, List.take_left]

lemma length_stretch_le (l : List α) (r : ℕ × ℕ) : (stretch l r).length ≤ l.length := by
  unfold stretch
  rw [List.length_take, List.length_drop]
  omega

end elements

/-! ## Words -/

section words

variable {α : Type}

/-- The first word of a list: separators, the word, and what is behind it. -/
structure FirstWord (p : α → Prop) (l seps w post : List α) : Prop where
  eq : l = seps ++ w ++ post
  separators : ∀ c ∈ seps, ¬ p c
  word : ∀ c ∈ w, p c
  ne_nil : w ≠ []
  head : ∀ c ∈ post.head?, ¬ p c

/-- The words of a list, one after the other. The separator behind a word is passed over. -/
inductive HasWords (p : α → Prop) : List α → List (List α) → Prop
  | nil {l : List α} (h : ∀ c ∈ l, ¬ p c) : HasWords p l []
  | last {l seps w : List α} (h : FirstWord p l seps w []) : HasWords p l [w]
  | cons {l seps w rest : List α} {c : α} {ws : List (List α)}
      (h : FirstWord p l seps w (c :: rest)) (hrest : HasWords p rest ws) : HasWords p l (w :: ws)

variable {p : α → Prop} {l : List α}

/-- There is no word in a list, or a first one. -/
lemma word_cases [DecidablePred p] (l : List α) :
    (∀ c ∈ l, ¬ p c) ∨ ∃ seps w post, FirstWord p l seps w post := by
  induction l with
  | nil => exact Or.inl fun c hc => absurd hc List.not_mem_nil
  | cons c l ih =>
      by_cases hc : p c
      · refine Or.inr ⟨[], (c :: l).takeWhile (p ·), (c :: l).dropWhile (p ·), ?_, ?_, ?_, ?_, ?_⟩
        · rw [List.nil_append, List.takeWhile_append_dropWhile]
        · exact fun d hd => absurd hd List.not_mem_nil
        · exact fun d hd => by simpa using List.mem_takeWhile_imp hd
        · rw [List.takeWhile_cons_of_pos (by simpa using hc)]
          exact List.cons_ne_nil _ _
        · intro d hd
          have hnot := List.head?_dropWhile_not (p ·) (c :: l)
          rw [Option.mem_def.mp hd] at hnot
          simpa using hnot
      · rcases ih with hnone | ⟨seps, w, post, h⟩
        · exact Or.inl (List.forall_mem_cons.mpr ⟨hc, hnone⟩)
        · refine Or.inr ⟨c :: seps, w, post, ?_, ?_, h.word, h.ne_nil, h.head⟩
          · rw [h.eq]
            rfl
          · exact List.forall_mem_cons.mpr ⟨hc, h.separators⟩

lemma RunsFrom.skip_all {q : ℕ → Prop} {a b : ℕ} {rs : List (ℕ × ℕ)} (hab : a ≤ b)
    (h : RunsFrom q b rs) (hnot : ∀ k, a ≤ k → k < b → ¬ q k) : RunsFrom q a rs := by
  induction b, hab using Nat.le_induction with
  | base => exact h
  | succ b hab ih =>
      apply ih (h.skip (hnot b hab (Nat.lt_succ_self b)))
      exact fun k hk hkb => hnot k hk (Nat.lt_succ_of_lt hkb)

/-- Places at which separators stand. -/
lemma not_at_separators {pre seps post : List α} (hseps : ∀ c ∈ seps, ¬ p c) {k : ℕ}
    (hk : pre.length ≤ k) (hk' : k < pre.length + seps.length) :
    ¬ At p (pre ++ (seps ++ post)) k := by
  rintro ⟨c, hc, hpc⟩
  rw [List.getElem?_append_right hk, List.getElem?_append_left (by omega)] at hc
  exact hseps c (List.mem_of_getElem? hc) hpc

/-- The first word of what is behind `pre` is a run, and there is none in front of it. -/
lemma FirstWord.runsFrom {pre seps w post : List α} (h : FirstWord p l seps w post)
    (hpre : ∀ c ∈ pre.getLast?, ¬ p c) {rs : List (ℕ × ℕ)}
    (hrs : RunsFrom (At p (pre ++ l)) (pre.length + seps.length + w.length) rs) :
    RunsFrom (At p (pre ++ l)) pre.length
      ((pre.length + seps.length, pre.length + seps.length + w.length) :: rs) := by
  have hlast : ∀ c ∈ (pre ++ seps).getLast?, ¬ p c := by
    intro c hc
    rcases seps with _ | ⟨d, seps⟩
    · rw [List.append_nil] at hc
      exact hpre c hc
    · rw [List.getLast?_append_of_ne_nil _ (List.cons_ne_nil _ _)] at hc
      exact h.separators c (List.mem_of_getLast? hc)
  have hrun := isRun_append h.ne_nil h.word hlast h.head
  rw [h.eq] at hrs ⊢
  simp only [List.append_assoc, List.length_append] at hrun hrs ⊢
  refine RunsFrom.skip_all (Nat.le_add_right _ _) (hrs.cons hrun) ?_
  exact fun k hk hk' => not_at_separators h.separators hk hk'

/-- The words of what is behind `pre` are the runs that start there. -/
lemma HasWords.exists_runs_behind {ws : List (List α)} (h : HasWords p l ws) (pre : List α)
    (hpre : ∀ c ∈ pre.getLast?, ¬ p c) :
    ∃ rs, RunsFrom (At p (pre ++ l)) pre.length rs ∧ rs.map (stretch (pre ++ l)) = ws := by
  induction h generalizing pre with
  | @nil l h =>
      refine ⟨[], RunsFrom.nil ?_, rfl⟩
      rintro k hk ⟨c, hc, hpc⟩
      rw [List.getElem?_append_right hk] at hc
      exact h c (List.mem_of_getElem? hc) hpc
  | @last l seps w h =>
      refine ⟨_, h.runsFrom hpre (RunsFrom.nil ?_), ?_⟩
      · intro k hk
        apply not_at_of_length_le
        rw [h.eq]
        simp only [List.length_append, List.length_nil]
        omega
      · have hstretch := stretch_append (pre ++ seps) w []
        rw [h.eq]
        simpa only [List.append_assoc, List.length_append, List.map_cons, List.map_nil,
          List.cons.injEq, and_true] using hstretch
  | @cons l seps w rest c ws h hrest ih =>
      have hl : pre ++ l = pre ++ seps ++ w ++ [c] ++ rest := by simp [h.eq]
      have hc : ¬ p c := h.head c rfl
      obtain ⟨rs, hrs, hmap⟩ := ih (pre ++ seps ++ w ++ [c]) (by simpa using hc)
      rw [← hl] at hrs hmap
      -- the separator behind the word
      have hskip : ¬ At p (pre ++ l) (pre.length + seps.length + w.length) := by
        rintro ⟨d, hd, hpd⟩
        rw [hl, List.append_assoc _ [c], ← List.length_append, ← List.length_append,
          List.getElem?_append_right le_rfl, Nat.sub_self] at hd
        obtain rfl : c = d := Option.some.inj hd
        exact hc hpd
      simp only [List.length_append, List.length_singleton] at hrs
      refine ⟨_, h.runsFrom hpre (hrs.skip hskip), ?_⟩
      have hstretch := stretch_append (pre ++ seps) w (c :: rest)
      rw [List.map_cons, hmap, List.cons.injEq]
      refine ⟨?_, rfl⟩
      rw [h.eq]
      simpa only [List.append_assoc, List.length_append] using hstretch

/-- **The words of a list are its maximal runs**, in order. -/
theorem HasWords.exists_runs {ws : List (List α)} (h : HasWords p l ws) :
    ∃ rs, RunsFrom (At p l) 0 rs ∧ rs.map (stretch l) = ws :=
  h.exists_runs_behind [] fun _ hc => by cases hc

end words

end Comp3301.Lib
