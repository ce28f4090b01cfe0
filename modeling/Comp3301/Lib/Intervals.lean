import Comp3301.Lib.SearchTree

/-!
# Lists of disjoint intervals

Every index `i` names the interval from `lo i` to `hi i`, both ends included, in a linear order.

* `Apart lo hi xs`: the intervals of the list are not empty, and each ends before the next one
  begins. No index then comes twice, and any two intervals are disjoint (`Apart.disjoint`).
* `Apart.insert`, `Apart.sublist` and `Apart.congr` keep it.
* `locate lo hi x` compares a point with an interval. It directs a search through such a list
  (`Apart.directs`), so the search trees of `SearchTree` apply.
-/

namespace Comp3301.Lib

variable {ι α : Type} [LinearOrder α] {lo hi lo' hi' : ι → α} {xs ys pre post : List ι} {i j : ι}
  {x : α}

/-- The intervals are not empty, and follow one another. -/
structure Apart (lo hi : ι → α) (xs : List ι) : Prop where
  sorted : xs.Pairwise fun i j => hi i < lo j
  le : ∀ i ∈ xs, lo i ≤ hi i

/-- Where a point lies, seen from an interval. -/
def locate (lo hi : ι → α) (x : α) (i : ι) : Ordering :=
  if x < lo i then .lt else if hi i < x then .gt else .eq

lemma locate_eq_lt : locate lo hi x i = .lt ↔ x < lo i := by
  rw [locate]
  split_ifs with h h'
  · exact iff_of_true rfl h
  · exact iff_of_false (by decide) h
  · exact iff_of_false (by decide) h

lemma locate_eq_gt (hle : lo i ≤ hi i) : locate lo hi x i = .gt ↔ hi i < x := by
  rw [locate]
  split_ifs with h h'
  · exact iff_of_false (by decide) (not_lt.mpr (h.le.trans hle))
  · exact iff_of_true rfl h'
  · exact iff_of_false (by decide) h'

namespace Apart

lemma nil : Apart lo hi ([] : List ι) := ⟨List.Pairwise.nil, by simp⟩

lemma sublist (h : Apart lo hi xs) (hsub : ys.Sublist xs) : Apart lo hi ys :=
  ⟨h.sorted.sublist hsub, fun i hi => h.le i (hsub.subset hi)⟩

/-- No index comes twice. -/
lemma nodup (h : Apart lo hi xs) : xs.Nodup := by
  rw [List.Nodup]
  refine h.sorted.imp_of_mem ?_
  rintro i j hmem - hlt rfl
  exact absurd (hlt.trans_le (h.le i hmem)) (lt_irrefl _)

/-- Two of the intervals are disjoint. -/
lemma disjoint (h : Apart lo hi xs) (hmem : i ∈ xs) (hmem' : j ∈ xs) (hne : i ≠ j) :
    hi i < lo j ∨ hi j < lo i := by
  obtain ⟨pre, post, rfl⟩ := List.append_of_mem hmem
  have hparts := List.pairwise_append.mp h.sorted
  rcases List.mem_append.mp hmem' with hj | hj
  · exact Or.inr (hparts.2.2 j hj i List.mem_cons_self)
  · rcases List.mem_cons.mp hj with rfl | hj
    · exact absurd rfl hne
    · exact Or.inl (List.rel_of_pairwise_cons hparts.2.1 hj)

lemma lt_of_mem_pre (h : Apart lo hi (pre ++ i :: post)) (hj : j ∈ pre) : hi j < lo i :=
  (List.pairwise_append.mp h.sorted).2.2 j hj i List.mem_cons_self

lemma lt_of_mem_post (h : Apart lo hi (pre ++ i :: post)) (hj : j ∈ post) : hi i < lo j :=
  List.rel_of_pairwise_cons (List.pairwise_append.mp h.sorted).2.1 hj

/-- The intervals may be changed outside the list. -/
lemma congr (h : Apart lo hi xs) (heq : ∀ i ∈ xs, lo' i = lo i ∧ hi' i = hi i) :
    Apart lo' hi' xs := by
  refine ⟨?_, fun i hi => ?_⟩
  · refine h.sorted.imp_of_mem ?_
    intro i j hmem hmem' hlt
    rw [(heq i hmem).2, (heq j hmem').1]
    exact hlt
  · rw [(heq i hi).1, (heq i hi).2]
    exact h.le i hi

/-- **A new interval fits between two that follow one another.** -/
lemma insert (h : Apart lo hi (pre ++ post)) (hle : lo i ≤ hi i) (hpre : ∀ j ∈ pre, hi j < lo i)
    (hpost : ∀ j ∈ post, hi i < lo j) : Apart lo hi (pre ++ i :: post) := by
  obtain ⟨hbefore, hafter, hacross⟩ := List.pairwise_append.mp h.sorted
  refine ⟨List.pairwise_append.mpr ⟨hbefore, List.pairwise_cons.mpr ⟨hpost, hafter⟩, ?_⟩, ?_⟩
  · intro a ha b hb
    rcases List.mem_cons.mp hb with rfl | hb
    · exact hpre a ha
    · exact hacross a ha b hb
  · intro a ha
    rcases List.mem_append.mp ha with ha | ha
    · exact h.le a (List.mem_append_left _ ha)
    · rcases List.mem_cons.mp ha with rfl | ha
      · exact hle
      · exact h.le a (List.mem_append_right _ ha)

/-- **A point directs a search.** -/
lemma directs (h : Apart lo hi xs) (x : α) : Directs (locate lo hi x) xs := by
  refine h.sorted.imp_of_mem ?_
  intro i j hmem hmem' hlt hne
  rw [Ne, locate_eq_gt (h.le i hmem), not_lt] at hne
  exact locate_eq_lt.mpr (hne.trans_lt hlt)

/-- The two sides of a cut, as inequalities. -/
lemma cut (h : Apart lo hi (pre ++ post)) (hcut : Cut (locate lo hi x) pre post) :
    (∀ j ∈ pre, hi j < x) ∧ ∀ j ∈ post, x < lo j :=
  ⟨fun j hj => (locate_eq_gt (h.le j (List.mem_append_left _ hj))).mp (hcut.1 j hj),
    fun j hj => locate_eq_lt.mp (hcut.2 j hj)⟩

end Apart

end Comp3301.Lib
