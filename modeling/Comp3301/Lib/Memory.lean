import Mathlib.Tactic

/-!
# C integers and bounds-checked arrays

The vocabulary in which C code over fixed-width integers and arrays is read.

* `unsigned w x` and `signed w x` are the conversions of an exact integer to the `w`-bit unsigned
  and two's-complement types; code is modelled by computing over `Int` and converting at each
  point where C stores or converts.
* `Block α` is an allocated array: a size and its cells. `load` and `store` are partial: `none`
  says that the index lies outside the array, after which C promises nothing. A modelled function
  that returns `some` has therefore kept every index inside its array.
* `slice f i n` is the list of the `n` cells from `i` on, in the form (`List.range'`) in which
  loops consume it.
-/

namespace Comp3301.Lib

/-! ## Fixed-width integers -/

/-- Conversion to the `w`-bit unsigned type. -/
def unsigned (w : ℕ) (x : ℤ) : ℕ := (x % 2 ^ w).toNat

/-- Conversion to the `w`-bit two's-complement type. -/
def signed (w : ℕ) (x : ℤ) : ℤ :=
  if x % 2 ^ w < 2 ^ (w - 1) then x % 2 ^ w else x % 2 ^ w - 2 ^ w

/-- A value in range is not changed by the unsigned conversion. -/
lemma unsigned_natCast {w n : ℕ} (h : n < 2 ^ w) : unsigned w n = n := by
  unfold unsigned
  rw [Int.emod_eq_of_lt (by positivity) (by exact_mod_cast h)]
  exact Int.toNat_natCast n

lemma natCast_unsigned (w : ℕ) (x : ℤ) : (unsigned w x : ℤ) = x % 2 ^ w :=
  Int.toNat_of_nonneg (Int.emod_nonneg x (by positivity))

/-- The signed conversion does not change the value modulo `2 ^ w`. -/
lemma signed_emod (w : ℕ) (x : ℤ) : signed w x % 2 ^ w = x % 2 ^ w := by
  unfold signed
  split_ifs
  · exact Int.emod_emod_of_dvd x (dvd_refl _)
  · rw [Int.sub_emod_right, Int.emod_emod_of_dvd x (dvd_refl _)]

/-- The signed conversion depends on the value modulo `2 ^ w` only. -/
lemma signed_congr {w : ℕ} {x y : ℤ} (h : x % 2 ^ w = y % 2 ^ w) : signed w x = signed w y := by
  unfold signed
  rw [h]

/-- The unsigned conversion depends on the value modulo `2 ^ w` only. -/
lemma unsigned_congr {w : ℕ} {x y : ℤ} (h : x % 2 ^ w = y % 2 ^ w) :
    unsigned w x = unsigned w y := by
  unfold unsigned
  rw [h]

/-- A non-negative value in range is not changed by the signed conversion. -/
lemma signed_natCast {w n : ℕ} (h : n < 2 ^ (w - 1)) : signed w n = n := by
  have hle : (2 : ℤ) ^ (w - 1) ≤ 2 ^ w := pow_le_pow_right₀ (by norm_num) (Nat.sub_le w 1)
  have hn : (n : ℤ) < 2 ^ (w - 1) := by exact_mod_cast h
  unfold signed
  rw [Int.emod_eq_of_lt (by positivity) (by omega), if_pos hn]

/-! ## Arrays -/

/-- An allocated array of `size` cells; the cells past `size` are not accessible. -/
structure Block (α : Type) where
  /-- The number of cells. -/
  size : ℕ
  /-- The contents of the cells. -/
  cell : ℕ → α

namespace Block

variable {α : Type}

/-- Read cell `i`; `none` when `i` is outside the array. -/
def load (m : Block α) (i : ℤ) : Option α :=
  if 0 ≤ i ∧ i < m.size then some (m.cell i.toNat) else none

/-- Write cell `i`; `none` when `i` is outside the array. -/
def store (m : Block α) (i : ℤ) (v : α) : Option (Block α) :=
  if 0 ≤ i ∧ i < m.size then some { m with cell := Function.update m.cell i.toNat v } else none

lemma load_natCast {m : Block α} {i : ℕ} (h : i < m.size) : m.load i = some (m.cell i) := by
  unfold load
  rw [if_pos ⟨by positivity, by exact_mod_cast h⟩, Int.toNat_natCast]

lemma store_natCast {m : Block α} {i : ℕ} (h : i < m.size) (v : α) :
    m.store i v = some { m with cell := Function.update m.cell i v } := by
  unfold store
  rw [if_pos ⟨by positivity, by exact_mod_cast h⟩, Int.toNat_natCast]

end Block

/-! ## Slices -/

section slice

variable {α : Type}

/-- The cells `i, …, i + n - 1`. -/
def slice (f : ℕ → α) (i n : ℕ) : List α := (List.range' i n).map f

lemma slice_succ (f : ℕ → α) (i n : ℕ) : slice f i (n + 1) = f i :: slice f (i + 1) n := by
  simp [slice, List.range'_succ]

/-- One part behind the other. -/
lemma slice_add (f : ℕ → α) (i m n : ℕ) : slice f i (m + n) = slice f i m ++ slice f (i + m) n := by
  simp [slice, ← List.range'_append_1]

@[simp] lemma length_slice (f : ℕ → α) (i n : ℕ) : (slice f i n).length = n := by
  simp [slice]

@[simp] lemma getElem_slice (f : ℕ → α) {i n k : ℕ} (h : k < (slice f i n).length) :
    (slice f i n)[k] = f (i + k) := by
  simp [slice]

lemma getElem?_slice (f : ℕ → α) (i n k : ℕ) :
    (slice f i n)[k]? = if k < n then some (f (i + k)) else none := by
  by_cases h : k < n
  · rw [if_pos h, List.getElem?_eq_getElem (by simpa using h), getElem_slice]
  · rw [if_neg h, List.getElem?_eq_none (by simpa using Nat.not_lt.mp h)]

/-- Two slices agree when the cells they show agree. -/
lemma slice_congr {f g : ℕ → α} {i j n : ℕ} (h : ∀ k < n, f (i + k) = g (j + k)) :
    slice f i n = slice g j n := by
  apply List.ext_getElem
  · simp
  · intro k hk₁ hk₂
    simpa using h k (by simpa using hk₁)

/-- A list is the slice of any function that lists its elements. -/
lemma slice_eq_of_getElem {f : ℕ → α} {i : ℕ} {l : List α}
    (h : ∀ k (hk : k < l.length), f (i + k) = l[k]) : slice f i l.length = l := by
  apply List.ext_getElem
  · simp
  · intro k hk₁ hk₂
    rw [getElem_slice]
    exact h k hk₂

/-- `f` with the `n` cells from `s` on replaced by `g 0, g 1, …`. -/
def blit (f : ℕ → α) (s n : ℕ) (g : ℕ → α) (k : ℕ) : α :=
  if s ≤ k ∧ k < s + n then g (k - s) else f k

@[simp] lemma blit_zero (f : ℕ → α) (s : ℕ) (g : ℕ → α) : blit f s 0 g = f := by
  funext k
  exact if_neg (by omega)

/-- One cell at a time. -/
lemma blit_succ (f : ℕ → α) (s n : ℕ) (g : ℕ → α) :
    blit (Function.update f s (g 0)) (s + 1) n (fun k => g (k + 1)) = blit f s (n + 1) g := by
  funext k
  unfold blit
  rcases lt_trichotomy k s with h | h | h
  · rw [if_neg (by omega), if_neg (by omega), Function.update_of_ne (by omega)]
  · subst h
    rw [if_neg (by omega), if_pos (by omega), Function.update_self, Nat.sub_self]
  · by_cases hn : k < s + 1 + n
    · rw [if_pos ⟨by omega, hn⟩, if_pos ⟨by omega, by omega⟩]
      exact congrArg g (by omega)
    · rw [if_neg (by omega), if_neg (by omega), Function.update_of_ne (by omega)]

end slice

end Comp3301.Lib
