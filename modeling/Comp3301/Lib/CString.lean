import Mathlib.Data.List.TakeWhile
import Comp3301.Lib.Memory

/-!
# C strings

Strings that end with a zero character, in an array (`Block`).

* `strlen` is `none` when the array holds no zero: the loop of the library function then leaves the
  array.
* `Block.write xs` puts the characters `xs` at the front of an array and leaves the rest alone.
* `HoldsString m xs` says that the array holds the string `xs`.
-/

namespace Comp3301.Lib

/-! ## Writing the front of an array -/

namespace Block

variable {α : Type}

/-- The cells after `xs` has been written to the front. -/
def written (m : Block α) (xs : List α) : Block α :=
  { m with cell := fun k => (xs[k]?).getD (m.cell k) }

/-- Write `xs` to the front of the array. -/
def write (m : Block α) (xs : List α) : Option (Block α) :=
  if xs.length ≤ m.size then some (m.written xs) else none

lemma write_eq {m : Block α} {xs : List α} (h : xs.length ≤ m.size) :
    m.write xs = some (m.written xs) := if_pos h

lemma written_cell_of_lt {m : Block α} {xs : List α} {k : ℕ} (h : k < xs.length) :
    (m.written xs).cell k = xs[k] := by
  simp [written, List.getElem?_eq_getElem h]

@[ext] lemma ext {m₁ m₂ : Block α} (hsize : m₁.size = m₂.size) (hcell : m₁.cell = m₂.cell) :
    m₁ = m₂ := by
  cases m₁
  cases m₂
  obtain rfl : _ = _ := hsize
  obtain rfl : _ = _ := hcell
  rfl

/-- The array from cell `i` on: what a pointer to that cell points to. -/
def drop (m : Block α) (i : ℕ) : Block α := ⟨m.size - i, fun k => m.cell (i + k)⟩

/-- Behind the characters that have been written stand those that have been written next. -/
lemma written_append_drop (m : Block α) (xs ys : List α) :
    (m.written (xs ++ ys)).drop xs.length = (m.drop xs.length).written ys := by
  apply Block.ext
  · rfl
  · funext k
    simp [drop, written, List.getElem?_append_right]

lemma drop_zero (m : Block α) : m.drop 0 = m := by
  apply Block.ext
  · rfl
  · funext k
    simp [drop]

lemma drop_drop (m : Block α) (i j : ℕ) : (m.drop i).drop j = m.drop (i + j) := by
  apply Block.ext
  · exact Nat.sub_sub _ _ _
  · funext k
    simp [drop, Nat.add_assoc]

end Block

/-! ## Strings -/

/-- `strlen`. -/
def strlen (m : Block UInt8) : Option ℕ := (List.range m.size).find? fun i => m.cell i = 0

/-- The string in the array. -/
def cstring (m : Block UInt8) : Option (List UInt8) := (strlen m).map (slice m.cell 0)

/-- `strcpy`, from a string that is given by its characters. -/
def strcpy (m : Block UInt8) (xs : List UInt8) : Option (Block UInt8) := m.write (xs ++ [0])

/-- `strcat`, of a string that is given by its characters: what is in the array stays in front. -/
def strcat (m : Block UInt8) (xs : List UInt8) : Option (Block UInt8) := do
  let front ← cstring m
  m.write (front ++ xs ++ [0])

/-- The array holds the string `xs`. -/
structure HoldsString (m : Block UInt8) (xs : List UInt8) : Prop where
  lt_size : xs.length < m.size
  cells : slice m.cell 0 xs.length = xs
  terminated : m.cell xs.length = 0
  nonzero : 0 ∉ xs

lemma strlen_eq_some_iff {m : Block UInt8} {n : ℕ} :
    strlen m = some n ↔ n < m.size ∧ m.cell n = 0 ∧ ∀ i < n, m.cell i ≠ 0 := by
  unfold strlen
  rw [List.find?_range_eq_some]
  simp only [decide_eq_true_eq, List.mem_range, Bool.not_eq_true', decide_eq_false_iff_not]
  tauto

namespace HoldsString

variable {m : Block UInt8} {xs : List UInt8}

lemma cell_eq (h : HoldsString m xs) {k : ℕ} (hk : k < xs.length) : m.cell k = xs[k] := by
  have hcell := getElem_slice m.cell (i := 0) (n := xs.length) (k := k) (by simpa using hk)
  simp only [h.cells, Nat.zero_add] at hcell
  exact hcell.symm

lemma cell_ne_zero (h : HoldsString m xs) {k : ℕ} (hk : k < xs.length) : m.cell k ≠ 0 := by
  rw [h.cell_eq hk]
  intro hzero
  exact h.nonzero (hzero ▸ List.getElem_mem hk)

lemma strlen_eq (h : HoldsString m xs) : strlen m = some xs.length :=
  strlen_eq_some_iff.mpr ⟨h.lt_size, h.terminated, fun _ hk => h.cell_ne_zero hk⟩

lemma cstring_eq (h : HoldsString m xs) : cstring m = some xs := by
  rw [cstring, h.strlen_eq, Option.map_some, h.cells]

end HoldsString

/-- Writing a string with its end to the front of an array, whatever is written behind it. -/
lemma holdsString_written_append {m : Block UInt8} {xs : List UInt8} (rest : List UInt8)
    (hsize : xs.length < m.size) (hxs : 0 ∉ xs) :
    HoldsString (m.written (xs ++ 0 :: rest)) xs where
  lt_size := hsize
  cells := by
    apply slice_eq_of_getElem
    intro k hk
    have hk' : k < (xs ++ 0 :: rest).length := by
      rw [List.length_append]
      exact hk.trans_le (Nat.le_add_right _ _)
    rw [Nat.zero_add, Block.written_cell_of_lt hk', List.getElem_append_left hk]
  terminated := by
    rw [Block.written_cell_of_lt (by simp)]
    simp
  nonzero := hxs

/-- Writing a string with its end to the front of an array. -/
lemma holdsString_written {m : Block UInt8} {xs : List UInt8} (hsize : xs.length < m.size)
    (hxs : 0 ∉ xs) : HoldsString (m.written (xs ++ [0])) xs :=
  holdsString_written_append [] hsize hxs

/-- A string that fits the array is copied. -/
lemma strcpy_spec {m : Block UInt8} {xs : List UInt8} (hsize : xs.length < m.size)
    (hxs : 0 ∉ xs) : ∃ m', strcpy m xs = some m' ∧ HoldsString m' xs ∧ m'.size = m.size := by
  refine ⟨m.written (xs ++ [0]), Block.write_eq ?_, holdsString_written hsize hxs, rfl⟩
  rw [List.length_append]
  exact hsize

/-- A string that fits the array is appended. -/
lemma strcat_spec {m : Block UInt8} {xs ys : List UInt8} (hm : HoldsString m xs)
    (hsize : (xs ++ ys).length < m.size) (hys : 0 ∉ ys) :
    ∃ m', strcat m ys = some m' ∧ HoldsString m' (xs ++ ys) ∧ m'.size = m.size := by
  have hxys : 0 ∉ xs ++ ys := by
    rw [List.mem_append, not_or]
    exact ⟨hm.nonzero, hys⟩
  obtain ⟨m', hcopy, hholds, hsize'⟩ := strcpy_spec hsize hxys
  refine ⟨m', ?_, hholds, hsize'⟩
  rw [strcat, hm.cstring_eq]
  exact hcopy

/-- Characters with an end behind them are a string up to the first zero. -/
lemma exists_takeWhile_append (xs : List UInt8) :
    ∃ rest, xs ++ [0] = xs.takeWhile (· ≠ 0) ++ 0 :: rest := by
  induction xs with
  | nil => exact ⟨[], rfl⟩
  | cons c xs ih =>
      by_cases hc : c = 0
      · subst hc
        exact ⟨xs ++ [0], rfl⟩
      · obtain ⟨rest, hrest⟩ := ih
        refine ⟨rest, ?_⟩
        rw [List.takeWhile_cons_of_pos (by simpa using hc), List.cons_append, List.cons_append,
          hrest]

/-- Without a zero, that is all of them. -/
lemma takeWhile_eq_self {xs : List UInt8} (h : 0 ∉ xs) : xs.takeWhile (· ≠ 0) = xs := by
  rw [List.takeWhile_eq_self_iff]
  intro c hc
  simpa using ne_of_mem_of_not_mem hc h

/-- An array that characters have been written to holds them up to the first zero. -/
lemma holdsString_takeWhile {m : Block UInt8} {xs : List UInt8} (h : xs.length < m.size) :
    HoldsString (m.written (xs ++ [0])) (xs.takeWhile (· ≠ 0)) := by
  obtain ⟨rest, hrest⟩ := exists_takeWhile_append xs
  rw [hrest]
  apply holdsString_written_append
  · exact ((List.takeWhile_sublist _).length_le).trans_lt h
  · intro hzero
    have hne := List.all_eq_true.mp List.all_takeWhile 0 hzero
    simp at hne

/-- A copied string is held by the array. -/
lemma holdsString_of_strcpy {m m' : Block UInt8} {xs : List UInt8} (h : strcpy m xs = some m')
    (hxs : 0 ∉ xs) : HoldsString m' xs := by
  unfold strcpy Block.write at h
  split_ifs at h with hsize
  cases h
  apply holdsString_written _ hxs
  rw [List.length_append] at hsize
  exact hsize

/-- The empty string is a zero in the first cell. -/
lemma holdsString_nil_iff {m : Block UInt8} : HoldsString m [] ↔ 0 < m.size ∧ m.cell 0 = 0 :=
  ⟨fun h => ⟨h.lt_size, h.terminated⟩, fun h => ⟨h.1, rfl, h.2, List.not_mem_nil⟩⟩

/-- What `cstring` finds is held by the array. -/
lemma holdsString_of_cstring {m : Block UInt8} {xs : List UInt8} (h : cstring m = some xs) :
    HoldsString m xs := by
  rw [cstring, Option.map_eq_some_iff] at h
  obtain ⟨n, hn, rfl⟩ := h
  obtain ⟨hsize, hzero, hne⟩ := strlen_eq_some_iff.mp hn
  refine ⟨by rwa [length_slice], by rw [length_slice], by rwa [length_slice], ?_⟩
  intro hmem
  obtain ⟨k, hk, hcell⟩ := List.getElem_of_mem hmem
  rw [getElem_slice, Nat.zero_add] at hcell
  exact hne k (by simpa using hk) hcell

end Comp3301.Lib
