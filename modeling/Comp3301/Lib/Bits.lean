import Mathlib.Tactic

/-!
# Bitmaps

A bitmap is a function from bit numbers to Booleans, and a set bit is in use.

* `nextZero b size off` is the first clear bit from `off` on and below `size`, or `size`;
  `memscan b k n` is the first byte without a set bit among the `n` bytes from `k` on.
* `fill b off n` sets the `n` bits from `off` on, and `wipe b off n` clears them.
* `zeros b n` is the number of clear bits below `n`. Setting a clear bit takes one away
  (`zeros_fill`), and clearing a range adds as many as were set (`zeros_wipe`).
-/

namespace Comp3301.Lib

/-- A bitmap. -/
abbrev Bits := ℕ → Bool

/-- The first number with `p` from `off` on and below `size`. -/
def firstFrom (p : ℕ → Bool) (size off : ℕ) : Option ℕ :=
  (List.range' off (size - off)).find? p

/-- `find_next_zero_bit`. -/
def nextZero (b : Bits) (size off : ℕ) : ℕ := (firstFrom (fun i => !b i) size off).getD size

/-- The eight bits of a byte are clear. -/
def zeroByte (b : Bits) (k : ℕ) : Bool := (List.range 8).all fun j => !b (8 * k + j)

/-- `memscan` for a zero byte among the `n` bytes from `k` on; the end of them if there is none. -/
def memscan (b : Bits) (k n : ℕ) : ℕ := (firstFrom (zeroByte b) (k + n) k).getD (k + n)

/-- One bit is set. -/
def setBit (b : Bits) (i : ℕ) : Bits := Function.update b i true

/-- One bit is cleared. -/
def clearBit (b : Bits) (i : ℕ) : Bits := Function.update b i false

/-- The `n` bits from `off` on are set. -/
def fill (b : Bits) (off n : ℕ) : Bits := fun i => b i || (decide (off ≤ i) && decide (i < off + n))

/-- The `n` bits from `off` on are cleared. -/
def wipe (b : Bits) (off n : ℕ) : Bits :=
  fun i => b i && !(decide (off ≤ i) && decide (i < off + n))

/-- The clear bits below `n`. -/
def zeros (b : Bits) (n : ℕ) : ℕ := ((Finset.range n).filter fun i => b i = false).card

/-- The set bits among the `n` from `off` on. -/
def ones (b : Bits) (off n : ℕ) : ℕ := ((Finset.Ico off (off + n)).filter fun i => b i = true).card

variable {b : Bits} {p : ℕ → Bool} {size off n i : ℕ}

/-! ## Searches -/

lemma firstFrom_eq_some :
    firstFrom p size off = some i ↔
      p i = true ∧ (off ≤ i ∧ i < size) ∧ ∀ j, off ≤ j → j < i → p j = false := by
  rw [firstFrom, List.find?_range'_eq_some, List.mem_range'_1]
  simp only [Bool.not_eq_true']
  constructor
  · rintro ⟨hp, hi, hbefore⟩
    exact ⟨hp, ⟨hi.1, by omega⟩, hbefore⟩
  · rintro ⟨hp, hi, hbefore⟩
    exact ⟨hp, ⟨hi.1, by omega⟩, hbefore⟩

lemma firstFrom_eq_none :
    firstFrom p size off = none ↔ ∀ j, off ≤ j → j < size → p j = false := by
  rw [firstFrom, List.find?_eq_none]
  simp only [List.mem_range'_1, Bool.not_eq_true]
  constructor
  · intro h j hoff hsize
    exact h j ⟨hoff, by omega⟩
  · rintro h j ⟨hoff, hsize⟩
    exact h j hoff (by omega)

/-- **What `find_next_zero_bit` finds.** -/
lemma nextZero_cases (b : Bits) (size off : ℕ) :
    (off ≤ nextZero b size off ∧ nextZero b size off < size ∧ b (nextZero b size off) = false ∧
        ∀ j, off ≤ j → j < nextZero b size off → b j = true) ∨
      (nextZero b size off = size ∧ ∀ j, off ≤ j → j < size → b j = true) := by
  rw [nextZero]
  rcases hfirst : firstFrom (fun i => !b i) size off with _ | i
  · refine Or.inr ⟨rfl, fun j hoff hsize => ?_⟩
    simpa using firstFrom_eq_none.mp hfirst j hoff hsize
  · obtain ⟨hi, ⟨hoff, hsize⟩, hbefore⟩ := firstFrom_eq_some.mp hfirst
    refine Or.inl ⟨hoff, hsize, by simpa using hi, fun j hj hji => ?_⟩
    simpa using hbefore j hj hji

lemma zeroByte_iff {k : ℕ} : zeroByte b k = true ↔ ∀ j < 8, b (8 * k + j) = false := by
  rw [zeroByte, List.all_eq_true]
  simp only [List.mem_range, Bool.not_eq_true']

/-- A byte that `memscan` stops at before the end has no bit set. -/
lemma memscan_clear {k : ℕ} (h : memscan b k n < k + n) :
    ∀ j < 8, b (8 * memscan b k n + j) = false := by
  rw [memscan] at h ⊢
  rcases hfirst : firstFrom (zeroByte b) (k + n) k with _ | r
  · rw [hfirst] at h
    exact absurd h (lt_irrefl _)
  · exact zeroByte_iff.mp (firstFrom_eq_some.mp hfirst).1

/-! ## Setting and clearing -/

lemma setBit_apply (b : Bits) (i j : ℕ) : setBit b i j = (b j || decide (j = i)) := by
  rw [setBit, Function.update_apply]
  by_cases h : j = i
  · rw [if_pos h, decide_eq_true h, Bool.or_true]
  · rw [if_neg h, decide_eq_false h, Bool.or_false]

lemma clearBit_apply (b : Bits) (i j : ℕ) : clearBit b i j = (b j && !decide (j = i)) := by
  rw [clearBit, Function.update_apply]
  by_cases h : j = i
  · rw [if_pos h, decide_eq_true h, Bool.not_true, Bool.and_false]
  · rw [if_neg h, decide_eq_false h, Bool.not_false, Bool.and_true]

lemma fill_apply_iff (b : Bits) (off n i : ℕ) :
    fill b off n i = true ↔ b i = true ∨ (off ≤ i ∧ i < off + n) := by
  rw [fill, Bool.or_eq_true, Bool.and_eq_true, decide_eq_true_iff, decide_eq_true_iff]

lemma fill_eq_false_iff :
    fill b off n i = false ↔ b i = false ∧ ¬ (off ≤ i ∧ i < off + n) := by
  rw [← Bool.not_eq_true, fill_apply_iff, not_or, Bool.not_eq_true]

lemma wipe_eq_false_iff :
    wipe b off n i = false ↔ b i = false ∨ (off ≤ i ∧ i < off + n) := by
  rw [wipe, Bool.and_eq_false_iff, Bool.not_eq_false', Bool.and_eq_true, decide_eq_true_iff,
    decide_eq_true_iff]

lemma wipe_apply_iff (b : Bits) (off n i : ℕ) :
    wipe b off n i = true ↔ b i = true ∧ ¬ (off ≤ i ∧ i < off + n) := by
  rw [← Bool.not_eq_false, wipe_eq_false_iff, not_or, Bool.not_eq_false]

@[simp] lemma fill_zero (b : Bits) (off : ℕ) : fill b off 0 = b := by
  funext i
  rw [Bool.eq_iff_iff, fill_apply_iff]
  constructor
  · rintro (h | h)
    · exact h
    · omega
  · exact Or.inl

@[simp] lemma wipe_zero (b : Bits) (off : ℕ) : wipe b off 0 = b := by
  funext i
  rw [Bool.eq_iff_iff, wipe_apply_iff]
  exact ⟨fun h => h.1, fun h => ⟨h, by omega⟩⟩

/-- Filling goes bit by bit. -/
lemma setBit_fill (b : Bits) (off n : ℕ) :
    setBit (fill b off n) (off + n) = fill b off (n + 1) := by
  funext i
  rw [Bool.eq_iff_iff, setBit_apply, Bool.or_eq_true, fill_apply_iff, fill_apply_iff,
    decide_eq_true_iff]
  constructor
  · rintro ((h | h) | h)
    · exact Or.inl h
    · exact Or.inr ⟨h.1, by omega⟩
    · exact Or.inr ⟨by omega, by omega⟩
  · rintro (h | h)
    · exact Or.inl (Or.inl h)
    · by_cases hi : i = off + n
      · exact Or.inr hi
      · exact Or.inl (Or.inr ⟨h.1, by omega⟩)

/-- So does clearing. -/
lemma clearBit_wipe (b : Bits) (off n : ℕ) :
    clearBit (wipe b off n) (off + n) = wipe b off (n + 1) := by
  funext i
  rw [Bool.eq_iff_iff, clearBit_apply, Bool.and_eq_true, wipe_apply_iff, wipe_apply_iff,
    Bool.not_eq_true', decide_eq_false_iff_not]
  constructor
  · rintro ⟨⟨h, hout⟩, hne⟩
    exact ⟨h, by omega⟩
  · rintro ⟨h, hout⟩
    exact ⟨⟨h, by omega⟩, by omega⟩

/-! ## Counting -/

lemma zeros_pos_iff : 0 < zeros b n ↔ ∃ i < n, b i = false := by
  rw [zeros, Finset.card_pos]
  constructor
  · rintro ⟨i, hi⟩
    obtain ⟨hin, hclear⟩ := Finset.mem_filter.mp hi
    exact ⟨i, Finset.mem_range.mp hin, hclear⟩
  · rintro ⟨i, hin, hclear⟩
    exact ⟨i, Finset.mem_filter.mpr ⟨Finset.mem_range.mpr hin, hclear⟩⟩

lemma zeros_le (b : Bits) (n : ℕ) : zeros b n ≤ n := by
  rw [zeros]
  exact (Finset.card_filter_le _ _).trans_eq (Finset.card_range n)

/-- **Setting clear bits.** -/
lemma zeros_fill {k : ℕ} (hin : off + k ≤ n) (hclear : ∀ i, off ≤ i → i < off + k → b i = false) :
    zeros (fill b off k) n + k = zeros b n := by
  have hsplit : ((Finset.range n).filter fun i => b i = false) =
      ((Finset.range n).filter fun i => fill b off k i = false) ∪ Finset.Ico off (off + k) := by
    ext i
    rw [Finset.mem_union, Finset.mem_filter, Finset.mem_filter, Finset.mem_Ico, Finset.mem_range,
      fill_eq_false_iff]
    constructor
    · rintro ⟨hi, hb⟩
      by_cases hr : off ≤ i ∧ i < off + k
      · exact Or.inr hr
      · exact Or.inl ⟨hi, hb, hr⟩
    · rintro (⟨hi, hb, -⟩ | hr)
      · exact ⟨hi, hb⟩
      · exact ⟨by omega, hclear i hr.1 hr.2⟩
  rw [zeros, zeros, hsplit, Finset.card_union_of_disjoint, Nat.card_Ico, Nat.add_sub_cancel_left]
  rw [Finset.disjoint_left]
  intro i hi hr
  exact (fill_eq_false_iff.mp (Finset.mem_filter.mp hi).2).2 (Finset.mem_Ico.mp hr)

/-- **Clearing bits.** -/
lemma zeros_wipe {k : ℕ} (hin : off + k ≤ n) :
    zeros (wipe b off k) n = zeros b n + ones b off k := by
  have hsplit : ((Finset.range n).filter fun i => wipe b off k i = false) =
      ((Finset.range n).filter fun i => b i = false) ∪
        (Finset.Ico off (off + k)).filter fun i => b i = true := by
    ext i
    rw [Finset.mem_union, Finset.mem_filter, Finset.mem_filter, Finset.mem_filter, Finset.mem_Ico,
      Finset.mem_range, wipe_eq_false_iff]
    constructor
    · rintro ⟨hi, hb | hr⟩
      · exact Or.inl ⟨hi, hb⟩
      · rcases Bool.eq_false_or_eq_true (b i) with hb | hb
        · exact Or.inr ⟨hr, hb⟩
        · exact Or.inl ⟨hi, hb⟩
    · rintro (⟨hi, hb⟩ | ⟨hr, -⟩)
      · exact ⟨hi, Or.inl hb⟩
      · exact ⟨by omega, Or.inr hr⟩
  rw [zeros, zeros, ones, hsplit, Finset.card_union_of_disjoint]
  rw [Finset.disjoint_left]
  intro i hi hr
  have hfalse := (Finset.mem_filter.mp hi).2
  rw [(Finset.mem_filter.mp hr).2] at hfalse
  cases hfalse

/-- Where every bit of the range is set, all of them count. -/
lemma ones_eq (h : ∀ i, off ≤ i → i < off + n → b i = true) : ones b off n = n := by
  rw [ones, Finset.filter_true_of_mem, Nat.card_Ico, Nat.add_sub_cancel_left]
  intro i hi
  obtain ⟨hoff, hend⟩ := Finset.mem_Ico.mp hi
  exact h i hoff hend

@[simp] lemma ones_zero (b : Bits) (off : ℕ) : ones b off 0 = 0 := by
  rw [ones, Nat.add_zero, Finset.Ico_self]
  rfl

lemma ones_succ (b : Bits) (off n : ℕ) :
    ones b off (n + 1) = ones b off n + if b (off + n) = true then 1 else 0 := by
  rw [ones, ones, ← Nat.add_assoc,
    ← Finset.insert_Ico_right_eq_Ico_add_one (Nat.le_add_right off n),
    Finset.filter_insert]
  split_ifs with h
  · rw [Finset.card_insert_of_notMem]
    intro hmem
    exact absurd (Finset.mem_Ico.mp (Finset.mem_filter.mp hmem).1).2 (lt_irrefl _)
  · rfl

end Comp3301.Lib
