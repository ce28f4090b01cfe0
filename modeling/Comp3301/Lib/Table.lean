import Mathlib.Data.List.Nodup
import Mathlib.Tactic

/-!
# Lists that represent maps

`Tabulates key val xs m` says that the list `xs`, in whatever order, holds the map `m`: no two
elements have the same key, and the value of a key in `m` is that of the element with the key.
-/

namespace Comp3301.Lib

variable {α κ β : Type} {key : α → κ} {val : α → β} {xs ys : List α} {m : κ → Option β} {x : α}

/-- The list holds the map. -/
structure Tabulates (key : α → κ) (val : α → β) (xs : List α) (m : κ → Option β) : Prop where
  nodup : (xs.map key).Nodup
  get_iff : ∀ k v, m k = some v ↔ ∃ x ∈ xs, key x = k ∧ val x = v

namespace Tabulates

lemma nil (key : α → κ) (val : α → β) : Tabulates key val [] fun _ => none :=
  ⟨List.nodup_nil, by simp⟩

lemma perm (h : Tabulates key val xs m) (hperm : ys.Perm xs) : Tabulates key val ys m := by
  refine ⟨(hperm.map key).nodup_iff.mpr h.nodup, fun k v => ?_⟩
  rw [h.get_iff]
  exact exists_congr fun x => and_congr_left fun _ => hperm.mem_iff.symm

lemma get (h : Tabulates key val xs m) (hx : x ∈ xs) : m (key x) = some (val x) :=
  (h.get_iff _ _).mpr ⟨x, hx, rfl, rfl⟩

lemma get_eq_none_iff (h : Tabulates key val xs m) {k : κ} :
    m k = none ↔ ∀ x ∈ xs, key x ≠ k := by
  constructor
  · rintro hnone x hx rfl
    rw [h.get hx] at hnone
    exact Option.some_ne_none _ hnone
  · intro hall
    rw [Option.eq_none_iff_forall_ne_some]
    intro v hv
    obtain ⟨x, hx, hkey, -⟩ := (h.get_iff k v).mp hv
    exact hall x hx hkey

variable [DecidableEq κ]

/-- **An element with a new key.** -/
lemma insert (h : Tabulates key val xs m) (hx : m (key x) = none) :
    Tabulates key val (x :: xs) (Function.update m (key x) (some (val x))) := by
  have hfresh := h.get_eq_none_iff.mp hx
  refine ⟨?_, fun k v => ?_⟩
  · rw [List.map_cons, List.nodup_cons]
    refine ⟨fun hmem => ?_, h.nodup⟩
    obtain ⟨y, hy, hkey⟩ := List.mem_map.mp hmem
    exact hfresh y hy hkey
  · rw [List.exists_mem_cons_iff]
    rcases eq_or_ne k (key x) with rfl | hne
    · rw [Function.update_self, Option.some_inj]
      constructor
      · intro hv
        exact Or.inl ⟨rfl, hv⟩
      · rintro (⟨-, hv⟩ | ⟨y, hy, hkey, -⟩)
        · exact hv
        · exact absurd hkey (hfresh y hy)
    · rw [Function.update_of_ne hne, h.get_iff]
      constructor
      · exact Or.inr
      · rintro (⟨hkey, -⟩ | hy)
        · exact absurd hkey.symm hne
        · exact hy

/-- **An element is removed.** -/
lemma erase (h : Tabulates key val (x :: xs) m) :
    Tabulates key val xs (Function.update m (key x) none) := by
  have hnodup := h.nodup
  rw [List.map_cons, List.nodup_cons] at hnodup
  refine ⟨hnodup.2, fun k v => ?_⟩
  rcases eq_or_ne k (key x) with rfl | hne
  · rw [Function.update_self]
    refine iff_of_false (Option.some_ne_none v).symm ?_
    rintro ⟨y, hy, hkey, -⟩
    exact hnodup.1 (List.mem_map.mpr ⟨y, hy, hkey⟩)
  · rw [Function.update_of_ne hne, h.get_iff, List.exists_mem_cons_iff, or_iff_right]
    rintro ⟨hkey, -⟩
    exact hne hkey.symm

/-- An element gets another value. -/
lemma replace {y : α} (h : Tabulates key val (x :: xs) m) (hkey : key y = key x) :
    Tabulates key val (y :: xs) (Function.update m (key x) (some (val y))) := by
  have hins := h.erase.insert (x := y) (by rw [hkey, Function.update_self])
  rwa [hkey, Function.update_idem] at hins

end Tabulates

end Comp3301.Lib
