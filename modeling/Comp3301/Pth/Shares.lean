import Comp3301.Pth.Places

/-!
# Pth: targets as shares of the CPU

`pth_pqueue_calc_target` weighs a thread with `prio + 1`, where priorities go from `PTH_PRIO_MIN`,
which is negative, to `PTH_PRIO_MAX`, and adds the weights up in an `unsigned long`.

* `FairShares` is what the targets should be.
* `fairShares_iff`: they are, exactly if no weight is negative, some weight is positive and the sum
  is below `2 ^ 64`.
-/

set_option linter.unusedSectionVars false

namespace Comp3301.Pth

open Comp3301.Lib

variable {Tid : Type} [DecidableEq Tid]

/-- The targets are fair shares: they can be computed, none is negative, a higher priority does not
give less, and together they are the whole CPU. -/
structure FairShares (h : Heap Tid) (q : Pqueue Tid) (l : List Tid) : Prop where
  divisor : q.totalPrio ≠ 0
  nonneg : ∀ c ∈ l, 0 ≤ (h c).target
  mono : ∀ c ∈ l, ∀ d ∈ l, (h d).prio ≤ (h c).prio → (h d).target ≤ (h c).target
  sum : (l.map fun c => (h c).target).sum = 100

section shares

variable {h : Heap Tid} {q : Pqueue Tid} {l : List Tid} {rounds : ℕ}

lemma withTargets_target {c : Tid} (hc : c ∈ l) :
    (withTargets h q l c).target = 100 * share q.totalPrio (h c).prio := by
  unfold withTargets
  rw [if_pos hc]
  exact targetOf_eq q.totalPrio (h c).prio

lemma withTargets_prio (c : Tid) : (withTargets h q l c).prio = (h c).prio := by
  unfold withTargets
  split_ifs <;> rfl

/-- What the targets add up to. -/
lemma sum_targets : (l.map fun c => (withTargets h q l c).target).sum =
    100 * (prioSum h l / (q.totalPrio : ℚ)) := by
  have htargets : (l.map fun c => (withTargets h q l c).target) =
      l.map fun c => 100 * share q.totalPrio (h c).prio :=
    List.map_congr_left fun c hc => withTargets_target hc
  rw [htargets, List.sum_map_mul_left, sum_share_eq]
  rfl

/-- The targets add up to 100 exactly if the total priority is the sum of the weights. -/
lemma sum_targets_iff (hdivisor : q.totalPrio ≠ 0) :
    (l.map fun c => (withTargets h q l c).target).sum = 100 ↔ prioSum h l = q.totalPrio := by
  have htotal : (q.totalPrio : ℚ) ≠ 0 := Nat.cast_ne_zero.mpr hdivisor
  rw [sum_targets, mul_eq_left₀ (by norm_num), div_eq_one_iff_eq htotal]
  exact_mod_cast Iff.rfl

/-- A target is not negative exactly if the weight is not. -/
lemma target_nonneg_iff (hdivisor : q.totalPrio ≠ 0) {c : Tid} (hc : c ∈ l) :
    0 ≤ (withTargets h q l c).target ↔ -1 ≤ (h c).prio := by
  have htotal : (0 : ℚ) < q.totalPrio := Nat.cast_pos.mpr (Nat.pos_of_ne_zero hdivisor)
  rw [withTargets_target hc, mul_nonneg_iff_of_pos_left (by norm_num), share,
    le_div_iff₀ htotal, zero_mul]
  constructor
  · intro hweight
    have : (0 : ℤ) ≤ (h c).prio + 1 := by exact_mod_cast hweight
    omega
  · intro hweight
    have : (0 : ℤ) ≤ (h c).prio + 1 := by omega
    exact_mod_cast this

/-- A higher priority does not give less. -/
lemma target_mono {c d : Tid} (hc : c ∈ l) (hd : d ∈ l) (hle : (h d).prio ≤ (h c).prio) :
    (withTargets h q l d).target ≤ (withTargets h q l c).target := by
  have hcast : ((h d).prio : ℚ) ≤ (h c).prio := by exact_mod_cast hle
  rw [withTargets_target hc, withTargets_target hd, share, share]
  gcongr

/-- The weights add up to something exactly if one of them is positive, when none is negative. -/
lemma prioSum_pos_iff (hnonneg : ∀ c ∈ l, -1 ≤ (h c).prio) :
    0 < prioSum h l ↔ ∃ c ∈ l, 0 ≤ (h c).prio := by
  constructor
  · intro hpos
    have hlt : (l.map fun _ => (0 : ℤ)).sum < prioSum h l := by
      rw [List.map_const', List.sum_replicate, smul_zero]
      exact hpos
    obtain ⟨c, hc, hweight⟩ := List.exists_lt_of_sum_lt _ _ hlt
    exact ⟨c, hc, by omega⟩
  · rintro ⟨c, hc, hprio⟩
    have hle : (h c).prio + 1 ≤ prioSum h l := by
      refine List.single_le_sum ?_ _ (List.mem_map.mpr ⟨c, hc, rfl⟩)
      intro x hx
      obtain ⟨d, hd, rfl⟩ := List.mem_map.mp hx
      have := hnonneg d hd
      omega
    omega

/-- **Targets as fair shares.** For every ready queue whose total priority is the sum of `prio + 1`
over its threads in an `unsigned long`, whatever the priorities: the targets that
`pth_pqueue_calc_target` gives are fair shares exactly if no priority is below -1, some priority is
above -1 and the sum does not overflow. -/
theorem fairShares_iff (hq : Queue h q l) (htotal : q.totalPrio = unsigned 64 (prioSum h l))
    (hrounds : l.length ≤ rounds) :
    ∃ h', pqueueCalcTarget rounds h q = some h' ∧
      (FairShares h' q l ↔ (∀ c ∈ l, -1 ≤ (h c).prio) ∧ (∃ c ∈ l, 0 ≤ (h c).prio) ∧
        prioSum h l < 2 ^ 64) := by
  refine ⟨withTargets h q l, forThreads_eq hq hrounds fun _ => rfl, ?_⟩
  constructor
  · rintro ⟨hdivisor, hnonneg, -, hsum⟩
    have hweights : ∀ c ∈ l, -1 ≤ (h c).prio :=
      fun c hc => (target_nonneg_iff hdivisor hc).mp (hnonneg c hc)
    have heq := (sum_targets_iff hdivisor).mp hsum
    refine ⟨hweights, (prioSum_pos_iff hweights).mp (by omega), ?_⟩
    rw [heq, htotal, natCast_unsigned]
    exact Int.emod_lt_of_pos _ (by norm_num)
  · rintro ⟨hweights, hsome, hfits⟩
    have hpos := (prioSum_pos_iff hweights).mpr hsome
    have heq : prioSum h l = q.totalPrio := by
      rw [htotal, natCast_unsigned, Int.emod_eq_of_lt hpos.le hfits]
    have hdivisor : q.totalPrio ≠ 0 := by omega
    refine ⟨hdivisor, fun c hc => (target_nonneg_iff hdivisor hc).mpr (hweights c hc), ?_,
      (sum_targets_iff hdivisor).mpr heq⟩
    intro c hc d hd hle
    rw [withTargets_prio, withTargets_prio] at hle
    exact target_mono hc hd hle

end shares

/-! ### One thread -/

/-- A thread of the given priority. -/
def weighted (prio : ℤ) : Heap Unit := fun c => { lone 0 c with prio := prio }

/-- Its queue. -/
def weightedQueue (prio : ℤ) : Pqueue Unit := ⟨some (), 1, unsigned 64 (prio + 1), 0⟩

lemma queue_weighted (prio : ℤ) : Queue (weighted prio) (weightedQueue prio) [()] where
  head := rfl
  ring := ⟨List.nodup_singleton (), (Cycle.chain_singleton _ ()).mpr ⟨rfl, rfl⟩⟩

lemma total_weighted (prio : ℤ) :
    (weightedQueue prio).totalPrio = unsigned 64 (prioSum (weighted prio) [()]) := by
  simp [weightedQueue, weighted, prioSum]

/-- A thread of the standard priority has the whole CPU. -/
theorem fairShares_weighted :
    ∃ h', pqueueCalcTarget 1 (weighted prioStd) (weightedQueue prioStd) = some h' ∧
      FairShares h' (weightedQueue prioStd) [()] := by
  obtain ⟨h', hrun, hiff⟩ := fairShares_iff (queue_weighted prioStd) (total_weighted prioStd)
    (show [()].length ≤ 1 from le_rfl)
  exact ⟨h', hrun, hiff.mpr (by simp [weighted, prioStd, prioSum])⟩

/-- With a thread of priority -1 the division is by zero. -/
theorem unfair_weighted :
    Queue (weighted (-1)) (weightedQueue (-1)) [()] ∧
    (∀ c ∈ [()], prioMin ≤ (weighted (-1) c).prio ∧ (weighted (-1) c).prio ≤ prioMax) ∧
    (weightedQueue (-1)).totalPrio = unsigned 64 (prioSum (weighted (-1)) [()]) ∧
    (weightedQueue (-1)).totalPrio = 0 ∧
    ∃ h', pqueueCalcTarget 1 (weighted (-1)) (weightedQueue (-1)) = some h' ∧
      ¬ FairShares h' (weightedQueue (-1)) [()] := by
  have hrange : ∀ c ∈ [()], prioMin ≤ (weighted (-1) c).prio ∧ (weighted (-1) c).prio ≤ prioMax :=
    fun _ _ => by simp [weighted, prioMin, prioMax]
  have hzero : (weightedQueue (-1)).totalPrio = 0 := rfl
  refine ⟨queue_weighted (-1), hrange, total_weighted (-1), hzero, _,
    forThreads_eq (queue_weighted (-1)) le_rfl fun _ => rfl, ?_⟩
  intro hfair
  exact hfair.divisor hzero

end Comp3301.Pth
