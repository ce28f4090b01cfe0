import Mathlib.Data.List.Nodup
import Mathlib.Tactic

/-!
# Splicing lists

`Splice old new xs ys` says that `ys` is `xs` with the stretch `old` of it replaced by `new`; the
rest keeps its order. Inserting is `Splice [] [x]`, removing is `Splice [x] []`.

* `Splice.map` and `Splice.within`: in what the list is made into.
* `Splice.exists_perm`: up to order, the two lists have a common rest.
-/

namespace Comp3301.Lib

variable {α β : Type} {old new xs ys : List α}

/-- The stretch `old` of `xs` is replaced by `new`. -/
def Splice (old new xs ys : List α) : Prop :=
  ∃ pre post, xs = pre ++ (old ++ post) ∧ ys = pre ++ (new ++ post)

namespace Splice

lemma map (h : Splice old new xs ys) (f : α → β) :
    Splice (old.map f) (new.map f) (xs.map f) (ys.map f) := by
  obtain ⟨pre, post, rfl, rfl⟩ := h
  exact ⟨pre.map f, post.map f, by simp, by simp⟩

/-- Inside of a longer list. -/
lemma within (h : Splice old new xs ys) (pre post : List α) :
    Splice old new (pre ++ (xs ++ post)) (pre ++ (ys ++ post)) := by
  obtain ⟨pre', post', rfl, rfl⟩ := h
  exact ⟨pre ++ pre', post' ++ post, by simp, by simp⟩

/-- What has come from where. -/
lemma mem_or_mem (h : Splice old new xs ys) {x : α} (hx : x ∈ ys) : x ∈ xs ∨ x ∈ new := by
  obtain ⟨pre, post, rfl, rfl⟩ := h
  simp only [List.mem_append] at hx ⊢
  tauto

lemma exists_perm (h : Splice old new xs ys) :
    ∃ rest, xs.Perm (old ++ rest) ∧ ys.Perm (new ++ rest) := by
  obtain ⟨pre, post, rfl, rfl⟩ := h
  exact ⟨pre ++ post, List.perm_append_comm_assoc _ _ _, List.perm_append_comm_assoc _ _ _⟩

end Splice

/-! ## One element -/

/-- The element behind `pre` is modified. -/
lemma modify_middle (f : α → α) (x : α) (pre post : List α) :
    (pre ++ x :: post).modify pre.length f = pre ++ f x :: post := by
  induction pre with
  | nil => rfl
  | cons y pre ih =>
      rw [List.cons_append, List.length_cons, List.modify_succ_cons, ih]
      rfl

/-- It is removed. -/
lemma eraseIdx_between (x : α) (pre post : List α) :
    (pre ++ x :: post).eraseIdx pre.length = pre ++ post := by
  rw [List.eraseIdx_append_of_length_le (le_refl _), Nat.sub_self, List.eraseIdx_cons_zero]

/-- What of an element does not change with `g` does not change in a list. -/
lemma map_modify_of_comp {f : α → β} {g : α → α} (h : ∀ x, f (g x) = f x) (xs : List α) (i : ℕ) :
    (xs.modify i g).map f = xs.map f := by
  apply List.ext_getElem?
  intro k
  rw [List.getElem?_map, List.getElem?_map, List.getElem?_modify]
  rcases xs[k]? with _ | x
  · rfl
  · rw [Option.map_eq_map, Option.map_some, Option.map_some, Option.map_some]
    split_ifs
    · rw [h]
    · rfl

end Comp3301.Lib
