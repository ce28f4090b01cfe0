import Mathlib.Tactic

/-!
# Loops

`while` and `for` loops whose body may leave the loop, and may run into an error.

* `loopFor n body s` runs at most `n` rounds from `s`. A round either goes on with a new state or
  leaves the loop with a result; it is `none` after an error, and so is the loop when the rounds do
  not suffice.
* `loopFor_total` is the rule of total correctness: an invariant, and a measure that gets smaller in
  every round that goes on.
* `runOver body as s` runs a body over the elements of a list. `runOver_search` is the rule for a
  body that looks for something.
* `cycleRound N start body` is a round of a loop over the indices below `N` that begins at `start`
  and goes around (`cycleLoop_eq`).
-/

namespace Comp3301.Lib

variable {σ ρ α : Type}

/-- At most the given number of rounds. -/
def loopFor (body : σ → Option (σ ⊕ ρ)) : ℕ → σ → Option ρ
  | 0, _ => none
  | n + 1, s =>
      match body s with
      | none => none
      | some (.inl s') => loopFor body n s'
      | some (.inr r) => some r

lemma loopFor_next {body : σ → Option (σ ⊕ ρ)} {s s' : σ} (h : body s = some (.inl s')) (n : ℕ) :
    loopFor body (n + 1) s = loopFor body n s' := by
  rw [loopFor, h]

lemma loopFor_stop {body : σ → Option (σ ⊕ ρ)} {s : σ} {r : ρ} (h : body s = some (.inr r))
    (n : ℕ) : loopFor body (n + 1) s = some r := by
  rw [loopFor, h]

/-- What a round does under the invariant `I`: it goes on with a smaller measure, or it leaves the
loop with a result that satisfies `Q`. -/
def Advances (body : σ → Option (σ ⊕ ρ)) (I : σ → Prop) (measure : σ → ℕ) (Q : ρ → Prop)
    (s : σ) : Prop :=
  (∃ s', body s = some (.inl s') ∧ I s' ∧ measure s' < measure s) ∨
    ∃ r, body s = some (.inr r) ∧ Q r

/-- **Total correctness of loops.** -/
lemma loopFor_total {body : σ → Option (σ ⊕ ρ)} {I : σ → Prop} {m : σ → ℕ} {Q : ρ → Prop}
    (hbody : ∀ s, I s → Advances body I m Q s) {s : σ} (hs : I s) {n : ℕ}
    (hn : m s < n) : ∃ r, loopFor body n s = some r ∧ Q r := by
  induction n generalizing s with
  | zero => exact absurd hn (Nat.not_lt_zero _)
  | succ n ih =>
      rcases hbody s hs with ⟨s', hnext, hs', hlt⟩ | ⟨r, hstop, hr⟩
      · rw [loopFor_next hnext]
        exact ih hs' (hlt.trans_le (Nat.le_of_lt_succ hn))
      · exact ⟨r, loopFor_stop hstop n, hr⟩

/-! ## Running over a list -/

/-- A body that is run for the elements of a list in turn, until it leaves the loop. -/
def runOver (body : α → σ → Option (σ ⊕ ρ)) : List α → σ → Option (σ ⊕ ρ)
  | [], s => some (.inl s)
  | a :: as, s =>
      match body a s with
      | none => none
      | some (.inl s') => runOver body as s'
      | some (.inr r) => some (.inr r)

lemma runOver_append (body : α → σ → Option (σ ⊕ ρ)) (as bs : List α) (s : σ) :
    runOver body (as ++ bs) s =
      match runOver body as s with
      | none => none
      | some (.inl s') => runOver body bs s'
      | some (.inr r) => some (.inr r) := by
  induction as generalizing s with
  | nil => rfl
  | cons a as ih =>
      rw [List.cons_append, runOver, runOver]
      rcases body a s with _ | s' | r
      · rfl
      · exact ih s'
      · rfl

/-- A body that never leaves the loop, as long as `I` holds of the state and of the elements that
are left. -/
lemma runOver_invariant {body : α → σ → Option (σ ⊕ ρ)} {f : σ → α → σ} {I : σ → List α → Prop}
    (hbody : ∀ s a as, I s (a :: as) → body a s = some (.inl (f s a)) ∧ I (f s a) as)
    {s : σ} {as : List α} (hs : I s as) :
    runOver body as s = some (.inl (as.foldl f s)) := by
  induction as generalizing s with
  | nil => rfl
  | cons a as ih =>
      obtain ⟨hnext, hs'⟩ := hbody s a as hs
      rw [runOver, hnext]
      exact ih hs'

/-- A body that appends something for each element. -/
lemma runOver_eq_flatMap {β : Type} {body : α → List β → Option (List β ⊕ ρ)} {f : α → List β}
    {as : List α} (h : ∀ a ∈ as, ∀ out, body a out = some (.inl (out ++ f a))) (out : List β) :
    runOver body as out = some (.inl (out ++ as.flatMap f)) := by
  induction as generalizing out with
  | nil => simp [runOver]
  | cons a as ih =>
      rw [runOver, h a List.mem_cons_self]
      simp only
      rw [ih (fun b hb => h b (List.mem_cons_of_mem a hb)), List.flatMap_cons, List.append_assoc]

/-- A body that looks for an element. -/
lemma runOver_eq_find {body : α → σ → Option (σ ⊕ ρ)} {P : α → Bool} {r : α → ρ} {s : σ}
    {as : List α}
    (h : ∀ a ∈ as, body a s = if P a then some (.inr (r a)) else some (.inl s)) :
    runOver body as s = some ((as.find? P).elim (.inl s) fun a => .inr (r a)) := by
  induction as with
  | nil => rfl
  | cons a as ih =>
      rw [runOver, h a List.mem_cons_self]
      by_cases hP : P a
      · rw [if_pos hP, List.find?_cons_of_pos hP, Option.elim_some]
      · rw [if_neg hP, List.find?_cons_of_neg hP]
        exact ih fun b hb => h b (List.mem_cons_of_mem a hb)

/-- **The search rule**: an invariant, and what it says of an element that the body passes it by or
that the body leaves the loop there. -/
lemma runOver_search {body : α → σ → Option (σ ⊕ ρ)} {I : σ → Prop} {Passed : α → Prop}
    {Q : α → ρ → Prop} {as : List α}
    (hbody : ∀ a ∈ as, ∀ s, I s → (∃ s', body a s = some (.inl s') ∧ I s' ∧ Passed a) ∨
      ∃ r, body a s = some (.inr r) ∧ Q a r) {s : σ} (hs : I s) :
    (∃ s', runOver body as s = some (.inl s') ∧ I s' ∧ ∀ a ∈ as, Passed a) ∨
      ∃ a ∈ as, ∃ r, runOver body as s = some (.inr r) ∧ Q a r := by
  induction as generalizing s with
  | nil => exact Or.inl ⟨s, rfl, hs, by simp⟩
  | cons a as ih =>
      rcases hbody a List.mem_cons_self s hs with ⟨s', hnext, hs', ha⟩ | ⟨r, hstop, hr⟩
      · rw [runOver, hnext]
        rcases ih (fun b hb => hbody b (List.mem_cons_of_mem a hb)) hs' with
          ⟨s'', hrun, hs'', has⟩ | ⟨b, hb, r, hrun, hr⟩
        · exact Or.inl ⟨s'', hrun, hs'', List.forall_mem_cons.mpr ⟨ha, has⟩⟩
        · exact Or.inr ⟨b, List.mem_cons_of_mem a hb, r, hrun, hr⟩
      · rw [runOver, hstop]
        exact Or.inr ⟨a, List.mem_cons_self, r, rfl, hr⟩

/-- A loop over the numbers below `N`, cut around one of them. -/
lemma range_around {n N : ℕ} (hn : n < N) :
    ∃ k, N = n + k + 1 ∧
      List.range N = List.range n ++ ([n] ++ List.range' (n + 1) k) := by
  obtain ⟨k, rfl⟩ := Nat.exists_eq_add_of_lt hn
  have hsplit : List.range' 0 n ++ List.range' (0 + n) (k + 1) = List.range' 0 (n + (k + 1)) :=
    List.range'_append_1
  rw [Nat.zero_add] at hsplit
  refine ⟨k, rfl, ?_⟩
  rw [List.range_eq_range', List.range_eq_range', List.singleton_append, ← List.range'_succ]
  exact hsplit.symm

/-! ## Going around -/

/-- A round of a loop over the indices below `N` that begins at `start`. -/
def cycleRound (N start : ℕ) (body : ℕ → σ → Option (σ ⊕ ρ)) (ns : ℕ × σ) :
    Option ((ℕ × σ) ⊕ (σ ⊕ ρ)) :=
  match body ns.1 ns.2 with
  | none => none
  | some (.inr r) => some (.inr (.inr r))
  | some (.inl s) =>
      let n := if N ≤ ns.1 + 1 then 0 else ns.1 + 1
      if n = start then some (.inr (.inl s)) else some (.inl (n, s))

section cycle

variable {N start n k : ℕ} {body : ℕ → σ → Option (σ ⊕ ρ)}

/-- One round of it, seen from the rounds that are left. -/
lemma cycleLoop_succ (s : σ) :
    loopFor (cycleRound N start body) (k + 1) (n, s) =
      match body n s with
      | none => none
      | some (.inr r) => some (.inr r)
      | some (.inl s') =>
          if (if N ≤ n + 1 then 0 else n + 1) = start then some (.inl s')
          else loopFor (cycleRound N start body) k (if N ≤ n + 1 then 0 else n + 1, s') := by
  rw [loopFor, cycleRound]
  rcases body n s with _ | s' | r
  · rfl
  · simp only
    split_ifs <;> rfl
  · rfl

/-- The part before `start`. -/
lemma cycleLoop_before (hstart : start < N) (hn : n < start) (hk : start - n ≤ k) (s : σ) :
    loopFor (cycleRound N start body) k (n, s) =
      runOver body (List.range' n (start - n)) s := by
  induction k generalizing n s with
  | zero => omega
  | succ k ih =>
      obtain ⟨m, hm⟩ := Nat.exists_eq_succ_of_ne_zero (show start - n ≠ 0 by omega)
      rw [cycleLoop_succ, hm, List.range'_succ, runOver, if_neg (by omega)]
      rcases body n s with _ | s' | r
      · rfl
      · simp only
        by_cases hend : n + 1 = start
        · obtain rfl : m = 0 := by omega
          rw [if_pos hend]
          rfl
        · rw [if_neg hend, ih (by omega) (by omega), show m = start - (n + 1) by omega]
      · rfl

/-- The part from `n` on and around. -/
lemma cycleLoop_from (hn : n < N) (hle : start ≤ n) (hk : N - n + start ≤ k) (s : σ) :
    loopFor (cycleRound N start body) k (n, s) =
      runOver body (List.range' n (N - n) ++ List.range start) s := by
  induction k generalizing n s with
  | zero => omega
  | succ k ih =>
      obtain ⟨m, hm⟩ := Nat.exists_eq_succ_of_ne_zero (show N - n ≠ 0 by omega)
      rw [cycleLoop_succ, hm, List.range'_succ, List.cons_append, runOver]
      rcases body n s with _ | s' | r
      · rfl
      · simp only
        by_cases hend : N ≤ n + 1
        · obtain rfl : m = 0 := by omega
          rw [if_pos hend, List.range'_zero, List.nil_append]
          rcases Nat.eq_zero_or_pos start with rfl | hpos
          · rw [if_pos rfl]
            rfl
          · rw [if_neg (by omega), cycleLoop_before (by omega) hpos (by omega),
              List.range_eq_range', Nat.sub_zero]
        · rw [if_neg hend, if_neg (by omega), ih (by omega) (by omega) (by omega),
            show m = N - (n + 1) by omega]
      · rfl

/-- **The loop meets every index once.** -/
lemma cycleLoop_eq (hstart : start < N) (s : σ) :
    loopFor (cycleRound N start body) N (start, s) =
      runOver body (List.range' start (N - start) ++ List.range start) s :=
  cycleLoop_from hstart (le_refl _) (by omega) s

lemma mem_cycle (hstart : start < N) {i : ℕ} :
    i ∈ List.range' start (N - start) ++ List.range start ↔ i < N := by
  rw [List.mem_append, List.mem_range'_1, List.mem_range]
  omega

end cycle

end Comp3301.Lib
