import Mathlib.Data.Fintype.Card
import Mathlib.Tactic

/-!
# Guarded transition systems, and counting over a table

* `Reach init next guard` is the set of states that runs from `init` reach when every step meets
  `guard`, a condition on the state before the step and on its label. A property of every such run
  is proved with `Reach.invariant`; a system with a stronger guard reaches fewer states
  (`Reach.mono`).
* `tally p` counts the entries of a finite table with the property `p`. Changing one entry changes
  a tally by at most one (`tally_succ`, `tally_congr`).
-/

namespace Comp3301.Lib

/-! ## Guarded reachability -/

section reach

variable {σ κ : Type}

/-- The states reached from `init` by steps that all meet `guard`. -/
inductive Reach (init : σ) (next : σ → κ → σ → Prop) (guard : σ → κ → Prop) : σ → Prop
  | init : Reach init next guard init
  | step {s s' : σ} {k : κ} :
      Reach init next guard s → guard s k → next s k s' → Reach init next guard s'

variable {init : σ} {next : σ → κ → σ → Prop} {guard guard' : σ → κ → Prop}

namespace Reach

/-- **The invariant rule**: what holds at the start and is kept by every step that meets the guard
holds in every state reached. The step may use that its first state is reached. -/
theorem invariant {P : σ → Prop} (hinit : P init)
    (hstep : ∀ s k s', Reach init next guard s → P s → guard s k → next s k s' → P s')
    {s : σ} (hs : Reach init next guard s) : P s := by
  induction hs with
  | init => exact hinit
  | step hs hg hn ih => exact hstep _ _ _ hs ih hg hn

/-- A stronger guard reaches fewer states. -/
theorem mono (h : ∀ s k, guard s k → guard' s k) {s : σ} (hs : Reach init next guard s) :
    Reach init next guard' s := by
  induction hs with
  | init => exact Reach.init
  | step _ hg hn ih => exact ih.step (h _ _ hg) hn

end Reach

end reach

/-! ## Counting -/

section tally

variable {ι : Type} [Fintype ι]

/-- The number of indices with the property `p`. -/
def tally (p : ι → Prop) [DecidablePred p] : ℕ := (Finset.univ.filter p).card

variable {p q : ι → Prop} [DecidablePred p] [DecidablePred q]

lemma tally_congr (h : ∀ i, p i ↔ q i) : tally p = tally q := by
  unfold tally
  congr 1
  ext i
  simp [h i]

/-- One more index has the property. -/
lemma tally_succ [DecidableEq ι] {i : ι} (h : ∀ j, j ≠ i → (p j ↔ q j)) (hp : ¬ p i) (hq : q i) :
    tally q = tally p + 1 := by
  have hins : Finset.univ.filter q = insert i (Finset.univ.filter p) := by
    ext j
    by_cases hj : j = i
    · subst hj
      simp [hq]
    · simp [hj, h j hj]
  unfold tally
  rw [hins, Finset.card_insert_of_notMem (by simpa using hp)]

lemma tally_eq_zero : tally p = 0 ↔ ∀ i, ¬ p i := by
  simp [tally, Finset.filter_eq_empty_iff]

lemma tally_pos : 0 < tally p ↔ ∃ i, p i := by
  simp [tally, Finset.card_pos, Finset.filter_nonempty_iff]

/-- At most one index has the property. -/
lemma tally_le_one_iff : tally p ≤ 1 ↔ ∀ i j, p i → p j → i = j := by
  simp only [tally, Finset.card_le_one, Finset.mem_filter, Finset.mem_univ, true_and]
  exact ⟨fun h i j hi hj => h i hi j hj, fun h i hi j hj => h i j hi hj⟩

lemma tally_le_card : tally p ≤ Fintype.card ι := Finset.card_le_univ _

end tally

end Comp3301.Lib
