import Mathlib.Tactic

/-!
# Reference counts

Holders, of which finitely many are *live*, keep lists of links; a count is kept for every target.

* `links tgt live f k` is the number of links to `k` that the live holders keep.
* `Owes` says that the counts are right but for what is owed: it is what a program with reference
  counts keeps between its steps, and in the end nothing must be owed.
* The rules say what each step adds to the debt: counting up and down (`Owes.inc`, `Owes.dec`),
  making, removing and redirecting a link (`Owes.append`, `Owes.remove`, `Owes.replace`), and
  letting a holder be live or not (`Owes.letIn`, `Owes.dismiss`).
-/

namespace Comp3301.Lib

variable {ι α κ : Type} [DecidableEq κ] {tgt : α → κ} {live : Finset ι}
  {f : ι → List α} {count : κ → ℕ} {debt debt' : κ → ℤ} {i : ι} {k : κ} {a b : α}
  {pre post xs : List α}

/-- The links of a list to `k`. -/
def linksOf (tgt : α → κ) (xs : List α) (k : κ) : ℕ := xs.countP fun a => tgt a = k

/-- The links to `k`. -/
def links (tgt : α → κ) (live : Finset ι) (f : ι → List α) (k : κ) : ℕ :=
  ∑ i ∈ live, linksOf tgt (f i) k

/-- One link. -/
def one (k : κ) : κ → ℤ := Pi.single k 1

lemma one_apply (k k' : κ) : one k k' = if k' = k then 1 else 0 := Pi.single_apply k 1 k'

@[simp] lemma one_self (k : κ) : one k k = 1 := Pi.single_eq_same k 1

lemma one_nonneg (k k' : κ) : 0 ≤ one k k' := by
  rw [one_apply]
  split_ifs <;> decide

/-! ## Links -/

@[simp] lemma linksOf_nil (tgt : α → κ) (k : κ) : linksOf tgt [] k = 0 := rfl

lemma linksOf_cons (tgt : α → κ) (a : α) (xs : List α) (k : κ) :
    linksOf tgt (a :: xs) k = linksOf tgt xs k + if tgt a = k then 1 else 0 := by
  rw [linksOf, List.countP_cons, linksOf]
  simp only [decide_eq_true_eq]

lemma linksOf_append (tgt : α → κ) (xs ys : List α) (k : κ) :
    linksOf tgt (xs ++ ys) k = linksOf tgt xs k + linksOf tgt ys k := List.countP_append

lemma linksOf_eq_zero : linksOf tgt xs k = 0 ↔ ∀ a ∈ xs, tgt a ≠ k := by
  rw [linksOf, List.countP_eq_zero]
  simp only [decide_eq_true_eq, ne_eq]

lemma links_eq_zero : links tgt live f k = 0 ↔ ∀ i ∈ live, ∀ a ∈ f i, tgt a ≠ k := by
  rw [links, Finset.sum_eq_zero_iff]
  exact forall₂_congr fun _ _ => linksOf_eq_zero

lemma links_pos (hi : i ∈ live) (ha : a ∈ f i) : 0 < links tgt live f (tgt a) := by
  rw [Nat.pos_iff_ne_zero, ne_eq, links_eq_zero]
  exact fun h => h i hi a ha rfl

section holders

variable [DecidableEq ι]

/-- A live holder keeps other links. -/
lemma links_update (hi : i ∈ live) (xs : List α) (k : κ) :
    links tgt live (Function.update f i xs) k + linksOf tgt (f i) k =
      links tgt live f k + linksOf tgt xs k := by
  have hsum := Finset.add_sum_erase live (fun j => linksOf tgt (f j) k) hi
  have hsum' :=
    Finset.add_sum_erase live (fun j => linksOf tgt (Function.update f i xs j) k) hi
  have hrest : ∑ j ∈ live.erase i, linksOf tgt (Function.update f i xs j) k =
      ∑ j ∈ live.erase i, linksOf tgt (f j) k := by
    refine Finset.sum_congr rfl fun j hj => ?_
    rw [Function.update_of_ne (Finset.ne_of_mem_erase hj)]
  simp only [Function.update_self] at hsum'
  rw [links, links, ← hsum, ← hsum', hrest]
  omega

lemma links_update_of_notMem (hi : i ∉ live) (xs : List α) (k : κ) :
    links tgt live (Function.update f i xs) k = links tgt live f k := by
  refine Finset.sum_congr rfl fun j hj => ?_
  rw [Function.update_of_ne]
  rintro rfl
  exact hi hj

lemma links_insert (hi : i ∉ live) (k : κ) :
    links tgt (insert i live) f k = linksOf tgt (f i) k + links tgt live f k :=
  Finset.sum_insert hi

lemma links_erase (hi : i ∈ live) (k : κ) :
    linksOf tgt (f i) k + links tgt (live.erase i) f k = links tgt live f k :=
  Finset.add_sum_erase live (fun j => linksOf tgt (f j) k) hi

end holders

/-! ## Debts -/

/-- The counts are right, but for `debt`. -/
def Owes (count : κ → ℕ) (tgt : α → κ) (live : Finset ι) (f : ι → List α) (debt : κ → ℤ) : Prop :=
  ∀ k, (count k : ℤ) = links tgt live f k + debt k

namespace Owes

lemma congr (h : Owes count tgt live f debt) (heq : ∀ k, debt k = debt' k) :
    Owes count tgt live f debt' := by
  intro k
  rw [← heq k]
  exact h k

lemma inc (h : Owes count tgt live f debt) (k : κ) :
    Owes (Function.update count k (count k + 1)) tgt live f (debt + one k) := by
  intro k'
  have hk := h k'
  rw [Pi.add_apply, one_apply, Function.update_apply]
  split_ifs with heq
  · subst heq
    push_cast
    omega
  · omega

/-- What is owed may be counted down. -/
lemma dec (h : Owes count tgt live f debt) (hpos : 0 < debt k) :
    Owes (Function.update count k (count k - 1)) tgt live f (debt - one k) := by
  have hpos' := h k
  intro k'
  have hk := h k'
  rw [Pi.sub_apply, one_apply, Function.update_apply]
  split_ifs with heq
  · subst heq
    omega
  · omega

/-- A count that is set. -/
lemma set (h : Owes count tgt live f debt) (k : κ) (n : ℕ) :
    Owes (Function.update count k n) tgt live f
      (debt + Pi.single k ((n : ℤ) - count k)) := by
  intro k'
  have hk := h k'
  rw [Pi.add_apply, Pi.single_apply, Function.update_apply]
  split_ifs with heq
  · subst heq
    omega
  · omega

/-- Where nothing is owed, a target that is linked to counts. -/
lemma count_pos (h : Owes count tgt live f 0) (hi : i ∈ live) (ha : a ∈ f i) :
    0 < count (tgt a) := by
  have hk := h (tgt a)
  have hpos : 0 < links tgt live f (tgt a) := links_pos hi ha
  rw [Pi.zero_apply] at hk
  omega

variable [DecidableEq ι]

lemma update (h : Owes count tgt live f debt) (hi : i ∈ live) (xs : List α) :
    Owes count tgt live (Function.update f i xs)
      (debt + fun k => (linksOf tgt (f i) k : ℤ) - linksOf tgt xs k) := by
  intro k
  have hk := h k
  have hlinks : links tgt live (Function.update f i xs) k + linksOf tgt (f i) k =
      links tgt live f k + linksOf tgt xs k := links_update hi xs k
  rw [Pi.add_apply]
  omega

lemma append (h : Owes count tgt live f debt) (hi : i ∈ live) (a : α) :
    Owes count tgt live (Function.update f i (f i ++ [a])) (debt - one (tgt a)) := by
  refine (h.update hi _).congr fun k => ?_
  rw [Pi.add_apply, Pi.sub_apply, one_apply, linksOf_append, linksOf_cons, linksOf_nil]
  simp only [eq_comm (a := k)]
  split_ifs <;> push_cast <;> ring

lemma remove (h : Owes count tgt live f debt) (hi : i ∈ live) (hf : f i = pre ++ a :: post) :
    Owes count tgt live (Function.update f i (pre ++ post)) (debt + one (tgt a)) := by
  refine (h.update hi _).congr fun k => ?_
  rw [hf, Pi.add_apply, Pi.add_apply, one_apply, linksOf_append, linksOf_append, linksOf_cons]
  simp only [eq_comm (a := k)]
  split_ifs <;> push_cast <;> ring

lemma replace (h : Owes count tgt live f debt) (hi : i ∈ live) (hf : f i = pre ++ a :: post)
    (b : α) : Owes count tgt live (Function.update f i (pre ++ b :: post))
      (debt + one (tgt a) - one (tgt b)) := by
  refine (h.update hi _).congr fun k => ?_
  rw [hf, Pi.add_apply, Pi.sub_apply, Pi.add_apply, one_apply, one_apply, linksOf_append,
    linksOf_append, linksOf_cons, linksOf_cons]
  simp only [eq_comm (a := k)]
  split_ifs <;> push_cast <;> ring

/-- A holder that is not live may keep any links. -/
lemma outside (h : Owes count tgt live f debt) (hi : i ∉ live) (xs : List α) :
    Owes count tgt live (Function.update f i xs) debt := by
  intro k
  rw [links_update_of_notMem hi]
  exact h k

lemma letIn (h : Owes count tgt live f debt) (hi : i ∉ live) :
    Owes count tgt (insert i live) f (debt - fun k => (linksOf tgt (f i) k : ℤ)) := by
  intro k
  have hk := h k
  rw [Pi.sub_apply, links_insert hi]
  push_cast
  omega

lemma dismiss (h : Owes count tgt live f debt) (hi : i ∈ live) :
    Owes count tgt (live.erase i) f (debt + fun k => (linksOf tgt (f i) k : ℤ)) := by
  intro k
  have hk := h k
  have herase : linksOf tgt (f i) k + links tgt (live.erase i) f k = links tgt live f k :=
    links_erase hi k
  rw [Pi.add_apply]
  omega

end Owes

end Comp3301.Lib
