import Mathlib.Tactic

/-!
# Growable arrays

A file as the list of its elements, with reads and writes at a position.

* `get f p n` are the at most `n` elements from position `p` on.
* `put z f p xs` replaces the elements from `p` on by `xs`. Where the file was shorter than `p`, the
  gap is filled with `z`; writing nothing changes nothing.
* A relation between the elements of two files is kept by the same writes to both
  (`forall₂_put`).
-/

namespace Comp3301.Lib.ByteFile

variable {α : Type}

/-! ## Reading -/

/-- The at most `n` elements from position `p` on. -/
def get (f : List α) (p n : ℕ) : List α := (f.drop p).take n

@[simp] lemma length_get (f : List α) (p n : ℕ) : (get f p n).length = min n (f.length - p) := by
  simp [get]

lemma get_of_length_le {f : List α} {p n : ℕ} (h : f.length ≤ p) : get f p n = [] := by
  rw [get, List.drop_eq_nil_of_le h, List.take_nil]

/-- Reading on where a read has stopped. -/
lemma get_append (f : List α) (p m n : ℕ) :
    get f p m ++ get f (p + (get f p m).length) n = get f p (m + n) := by
  have hfull : get f p (m + n) = get f p m ++ get f (p + m) n := by
    rw [get, get, get, List.take_add, List.drop_drop]
  rw [hfull, length_get]
  congr 1
  rcases le_or_gt m (f.length - p) with h | h
  · rw [min_eq_left h]
  · rw [min_eq_right h.le, get_of_length_le (by omega), get_of_length_le (by omega)]

lemma get_one {f : List α} {p : ℕ} (h : p < f.length) : get f p 1 = [f[p]] := by
  rw [get, List.drop_eq_getElem_cons h, List.take_succ_cons, List.take_zero]

lemma get_zero_of_length_le {f : List α} {n : ℕ} (h : f.length ≤ n) : get f 0 n = f := by
  rw [get, List.drop_zero, List.take_of_length_le h]

/-! ## Writing -/

/-- Replace the elements from position `p` on by `xs`, with `z` in the gap, if there is one. -/
def put (z : α) (f : List α) (p : ℕ) (xs : List α) : List α :=
  if xs = [] then f
  else f.take p ++ List.replicate (p - f.length) z ++ xs ++ f.drop (p + xs.length)

@[simp] lemma put_nil (z : α) (f : List α) (p : ℕ) : put z f p [] = f := if_pos rfl

lemma put_of_ne_nil (z : α) (f : List α) (p : ℕ) {xs : List α} (h : xs ≠ []) :
    put z f p xs = f.take p ++ List.replicate (p - f.length) z ++ xs ++ f.drop (p + xs.length) :=
  if_neg h

/-! ## Related files -/

section related

variable {β : Type} {R : α → β → Prop}

lemma forall₂_get {f : List α} {g : List β} (h : List.Forall₂ R f g) (p n : ℕ) :
    List.Forall₂ R (get f p n) (get g p n) := List.forall₂_take n (List.forall₂_drop p h)

lemma forall₂_replicate {z : α} {z' : β} (h : R z z') (n : ℕ) :
    List.Forall₂ R (List.replicate n z) (List.replicate n z') := by
  induction n with
  | zero => exact List.Forall₂.nil
  | succ n ih => exact List.Forall₂.cons h ih

/-- The same write to two related files. -/
lemma forall₂_put {z : α} {z' : β} (hz : R z z') {f : List α} {g : List β}
    (h : List.Forall₂ R f g) (p : ℕ) {xs : List α} {ys : List β} (hxs : List.Forall₂ R xs ys) :
    List.Forall₂ R (put z f p xs) (put z' g p ys) := by
  by_cases hnil : xs = []
  · subst hnil
    rw [List.forall₂_nil_left_iff.mp hxs, put_nil, put_nil]
    exact h
  · have hnil' : ys ≠ [] := by
      rintro rfl
      exact hnil (List.forall₂_nil_right_iff.mp hxs)
    rw [put_of_ne_nil z f p hnil, put_of_ne_nil z' g p hnil', hxs.length_eq, h.length_eq]
    apply List.rel_append (List.rel_append (List.rel_append _ _) hxs)
    · exact List.forall₂_drop _ h
    · exact List.forall₂_take p h
    · exact forall₂_replicate hz _

end related

end Comp3301.Lib.ByteFile
