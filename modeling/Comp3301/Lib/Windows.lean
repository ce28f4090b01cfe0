import Mathlib.Data.List.Basic
import Mathlib.Tactic

/-!
# Windows of sorted lists

`window key lo hi xs` is what of a list has a key from `lo` on and below `hi`. In a list that is
sorted by strictly growing keys, the windows of neighbouring intervals come one behind the other
(`window_split`).
-/

namespace Comp3301.Lib

variable {α : Type} {key : α → ℕ} {lo mid hi : ℕ} {xs : List α}

/-- The elements with a key between `lo` and `hi`. -/
def window (key : α → ℕ) (lo hi : ℕ) (xs : List α) : List α :=
  xs.filter fun x => lo ≤ key x ∧ key x < hi

lemma mem_window {x : α} : x ∈ window key lo hi xs ↔ x ∈ xs ∧ lo ≤ key x ∧ key x < hi := by
  simp [window]

lemma window_append (key : α → ℕ) (lo hi : ℕ) (xs ys : List α) :
    window key lo hi (xs ++ ys) = window key lo hi xs ++ window key lo hi ys :=
  List.filter_append _ _

lemma window_eq_self (h : ∀ x ∈ xs, lo ≤ key x ∧ key x < hi) : window key lo hi xs = xs := by
  apply List.filter_eq_self.mpr
  intro x hx
  exact decide_eq_true (h x hx)

lemma window_eq_nil (h : ∀ x ∈ xs, key x < lo ∨ hi ≤ key x) : window key lo hi xs = [] := by
  apply List.filter_eq_nil_iff.mpr
  intro x hx hkey
  have hout := h x hx
  have hin := of_decide_eq_true hkey
  omega

lemma window_self (key : α → ℕ) (lo : ℕ) (xs : List α) : window key lo lo xs = [] :=
  window_eq_nil fun x _ => by omega

/-- **Neighbouring windows.** -/
lemma window_split (hsorted : xs.Pairwise fun x y => key x < key y) (h : lo ≤ mid) (h' : mid ≤ hi) :
    window key lo hi xs = window key lo mid xs ++ window key mid hi xs := by
  induction xs with
  | nil => rfl
  | cons x xs ih =>
      obtain ⟨hx, hxs⟩ := List.pairwise_cons.mp hsorted
      rcases Nat.lt_or_ge (key x) mid with hlt | hge
      · have hright : window key mid hi (x :: xs) = window key mid hi xs := by
          rw [window, List.filter_cons_of_neg (by simp; omega), window]
        rw [hright]
        by_cases hlo : lo ≤ key x
        · rw [window, window, List.filter_cons_of_pos (by simp; omega),
            List.filter_cons_of_pos (by simp; omega), List.cons_append]
          exact congrArg _ (ih hxs)
        · rw [window, window, List.filter_cons_of_neg (by simp; omega),
            List.filter_cons_of_neg (by simp; omega)]
          exact ih hxs
      · -- all keys are in the right part
        have hall : ∀ y ∈ x :: xs, mid ≤ key y := by
          intro y hy
          rcases List.mem_cons.mp hy with rfl | hy
          · exact hge
          · exact hge.trans (hx y hy).le
        have hleft : window key lo mid (x :: xs) = [] :=
          window_eq_nil fun y hy => Or.inr (hall y hy)
        rw [hleft, List.nil_append]
        apply List.filter_congr
        intro y hy
        have := hall y hy
        exact decide_eq_decide.mpr (by omega)

/-- A window of a sorted list is sorted. -/
lemma window_pairwise (hsorted : xs.Pairwise fun x y => key x < key y) (lo hi : ℕ) :
    (window key lo hi xs).Pairwise fun x y => key x < key y := hsorted.filter _

end Comp3301.Lib
