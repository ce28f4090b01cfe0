import Mathlib.Tactic

/-!
# Runs that refine runs of a specification

A program whose steps may fail and give results, and a specification of it whose steps do not fail.

* `stepAll step ks s` takes the steps `ks` in turn and collects the results; `specAll` does so with
  the specification.
* `Promised ok spec ks a` says that every step meets its condition `ok` when it is taken.
* `stepAll_total`: if every step that meets `ok` succeeds and keeps an invariant, so does every run.
* `Simulates.run`: if every step that is promised succeeds, gives the result of the specification
  and keeps the relation, so does every run.
-/

namespace Comp3301.Lib

variable {κ σ α ρ : Type}

/-- A run, with the results; it fails if a step does. -/
def stepAll (step : κ → σ → Option (ρ × σ)) : List κ → σ → Option (List ρ × σ)
  | [], s => some ([], s)
  | k :: ks, s =>
      match step k s with
      | none => none
      | some (r, s') => (stepAll step ks s').map fun t => (r :: t.1, t.2)

/-- A run of a specification. -/
def specAll (spec : κ → α → ρ × α) : List κ → α → List ρ × α
  | [], a => ([], a)
  | k :: ks, a =>
      let t := specAll spec ks (spec k a).2
      ((spec k a).1 :: t.1, t.2)

/-- Every step of the run meets its condition. -/
def Promised (ok : κ → α → Prop) (spec : κ → α → ρ × α) : List κ → α → Prop
  | [], _ => True
  | k :: ks, a => ok k a ∧ Promised ok spec ks (spec k a).2

/-- Steps that are promised succeed with the result of the specification, and keep `R`. -/
def Simulates (step : κ → σ → Option (ρ × σ)) (spec : κ → α → ρ × α) (ok : κ → α → Prop)
    (R : σ → α → Prop) : Prop :=
  ∀ k s a, R s a → ok k a → ∃ s', step k s = some ((spec k a).1, s') ∧ R s' (spec k a).2

/-- **Runs succeed and keep the invariant.** -/
theorem stepAll_total {step : κ → σ → Option (ρ × σ)} {ok : κ → Prop} {I : σ → Prop}
    (h : ∀ k s, ok k → I s → ∃ r s', step k s = some (r, s') ∧ I s') {ks : List κ} {s : σ}
    (hks : ∀ k ∈ ks, ok k) (hs : I s) : ∃ rs s', stepAll step ks s = some (rs, s') ∧ I s' := by
  induction ks generalizing s with
  | nil => exact ⟨[], s, rfl, hs⟩
  | cons k ks ih =>
      obtain ⟨r, s', hstep, hs'⟩ := h k s (hks k List.mem_cons_self) hs
      obtain ⟨rs, s'', hrun, hs''⟩ := ih (fun k' hk' => hks k' (List.mem_cons_of_mem k hk')) hs'
      refine ⟨r :: rs, s'', ?_, hs''⟩
      rw [stepAll, hstep]
      simp only
      rw [hrun]
      rfl

/-- **Runs simulate.** -/
theorem Simulates.run {step : κ → σ → Option (ρ × σ)} {spec : κ → α → ρ × α}
    {ok : κ → α → Prop} {R : σ → α → Prop} (h : Simulates step spec ok R) {ks : List κ} {s : σ}
    {a : α} (hR : R s a) (hks : Promised ok spec ks a) :
    ∃ s', stepAll step ks s = some ((specAll spec ks a).1, s') ∧ R s' (specAll spec ks a).2 := by
  induction ks generalizing s a with
  | nil => exact ⟨s, rfl, hR⟩
  | cons k ks ih =>
      obtain ⟨s', hstep, hR'⟩ := h k s a hR hks.1
      obtain ⟨s'', hrun, hR''⟩ := ih hR' hks.2
      refine ⟨s'', ?_, hR''⟩
      rw [stepAll, hstep]
      simp only
      rw [hrun]
      rfl

end Comp3301.Lib
