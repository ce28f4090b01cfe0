import Mathlib.Algebra.BigOperators.Group.List.Basic
import Mathlib.Order.Interval.Finset.Nat
import Mathlib.Tactic

/-!
# Tilings of an interval

A list of tiles is laid end to end from a point `o` on: `Tiles off wid l o` says that every tile
starts where the one before it ends. A tile of width zero may also sit at `0`; it covers nothing.
Every point of the interval is then covered by exactly one tile (`Tiles.existsUnique`), and a tile
covers as many points as it is wide (`Tiles.card_covered`).
-/

namespace Comp3301.Lib

variable {α : Type}

/-- The tiles of `l`, with the starts `off` and the widths `wid`, lie end to end from `o` on. -/
def Tiles (off : α → ℤ) (wid : α → ℕ) : List α → ℤ → Prop
  | [], _ => True
  | c :: l, o => (off c = o ∨ off c = 0 ∧ wid c = 0) ∧ Tiles off wid l (o + wid c)

/-- The tile covers the point. -/
def Covers (off : α → ℤ) (wid : α → ℕ) (c : α) (r : ℤ) : Prop := off c ≤ r ∧ r < off c + wid c

instance (off : α → ℤ) (wid : α → ℕ) (c : α) (r : ℤ) : Decidable (Covers off wid c r) :=
  inferInstanceAs (Decidable (_ ∧ _))

namespace Tiles

variable {off : α → ℤ} {wid : α → ℕ} {l : List α} {o r : ℤ} {c : α}

/-- Every tile lies between `0` and the end. -/
lemma bounds (h : Tiles off wid l o) (ho : 0 ≤ o) (hc : c ∈ l) :
    0 ≤ off c ∧ off c + wid c ≤ o + ((l.map wid).sum : ℕ) := by
  induction l generalizing o with
  | nil => cases hc
  | cons b l ih =>
      obtain ⟨hb, hl⟩ := h
      rw [List.map_cons, List.sum_cons, Nat.cast_add]
      rcases List.mem_cons.mp hc with rfl | hc
      · rcases hb with hb | ⟨hb, hw⟩
        · constructor <;> omega
        · constructor <;> omega
      · have := ih hl (by omega) hc
        constructor <;> omega

/-- A tile covers no point before the first one starts. -/
lemma le_of_covers (h : Tiles off wid l o) (hc : c ∈ l) (hr : Covers off wid c r) : o ≤ r := by
  induction l generalizing o with
  | nil => cases hc
  | cons b l ih =>
      obtain ⟨hb, hl⟩ := h
      obtain ⟨hlow, hhigh⟩ := hr
      rcases List.mem_cons.mp hc with rfl | hc
      · rcases hb with hb | ⟨hb, hw⟩
        · exact hb ▸ hlow
        · omega
      · have := ih hl hc
        omega

/-- **Every point of the interval is covered by exactly one tile.** -/
theorem existsUnique (h : Tiles off wid l o) (hnodup : l.Nodup) (hlow : o ≤ r)
    (hhigh : r < o + ((l.map wid).sum : ℕ)) : ∃! c, c ∈ l ∧ Covers off wid c r := by
  induction l generalizing o with
  | nil =>
      simp only [List.map_nil, List.sum_nil, Nat.cast_zero, add_zero] at hhigh
      exact absurd hlow (not_le.mpr hhigh)
  | cons b l ih =>
      obtain ⟨hb, hl⟩ := h
      have hbl : b ∉ l := (List.nodup_cons.mp hnodup).1
      rw [List.map_cons, List.sum_cons, Nat.cast_add] at hhigh
      by_cases hr : r < o + wid b
      · -- the point is on the first tile, and all others start behind it
        have hoff : off b = o := by
          rcases hb with hb | ⟨-, hw⟩
          · exact hb
          · omega
        refine ⟨b, ⟨List.mem_cons_self, ?_⟩, ?_⟩
        · constructor <;> omega
        · rintro c ⟨hc, hcov⟩
          rcases List.mem_cons.mp hc with rfl | hc
          · rfl
          · exact absurd (hl.le_of_covers hc hcov) (not_le.mpr hr)
      · obtain ⟨c, ⟨hc, hcov⟩, huniq⟩ := ih hl (List.nodup_cons.mp hnodup).2 (not_lt.mp hr)
          (by omega)
        refine ⟨c, ⟨List.mem_cons_of_mem b hc, hcov⟩, ?_⟩
        rintro d ⟨hd, hdcov⟩
        rcases List.mem_cons.mp hd with rfl | hd
        · obtain ⟨hdlow, hdhigh⟩ := hdcov
          rcases hb with hb | ⟨hb, hw⟩ <;> omega
        · exact huniq d ⟨hd, hdcov⟩

/-- A tile covers as many points of the interval as it is wide. -/
theorem card_covered (h : Tiles off wid l 0) (hc : c ∈ l) :
    ((Finset.range (l.map wid).sum).filter fun r : ℕ => Covers off wid c r).card = wid c := by
  obtain ⟨hlow, hhigh⟩ := h.bounds le_rfl hc
  obtain ⟨a, ha⟩ := Int.eq_ofNat_of_zero_le hlow
  have hset : ((Finset.range (l.map wid).sum).filter fun r : ℕ => Covers off wid c r) =
      Finset.Ico a (a + wid c) := by
    ext r
    rw [Finset.mem_filter, Finset.mem_range, Finset.mem_Ico]
    constructor
    · rintro ⟨-, hr, hr'⟩
      constructor <;> omega
    · rintro ⟨hr, hr'⟩
      refine ⟨?_, ?_, ?_⟩ <;> omega
  rw [hset, Nat.card_Ico, Nat.add_sub_cancel_left]

end Tiles

end Comp3301.Lib
