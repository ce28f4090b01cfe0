import Comp3301.Lib.CString
import Comp3301.Lib.Runs

/-!
# Strings behind pointers, and `strtok`

* `Arrays ρ` are the contents of arrays named by `ρ`, and a `Pointer` points to a cell of one of
  them. What it points to is again an array, the rest of that one (`deref`).
* `strtok` follows the C standard: from its argument, or without one from the pointer that it has
  saved, it passes over separators, ends the word behind them with a zero, and saves a pointer to
  what is behind that.
* `Unsearched mem a saved xs` says that the string `xs`, in the array `a`, is still to be searched.
  A call finds its first word and leaves what is behind it (`strtok_word`), or finds that there is
  none (`strtok_none`); only the array `a` is written.
-/

namespace Comp3301.Lib

/-! ## Parts of strings -/

/-- The place of the first character that does not meet `p`. -/
def scan (m : Block UInt8) (p : UInt8 → Prop) [DecidablePred p] : Option ℕ :=
  (List.range m.size).find? fun i => ¬ p (m.cell i)

section strings

variable {m : Block UInt8} {xs ys : List UInt8}

lemma holdsString_of_cells (hsize : xs.length < m.size)
    (hcell : ∀ k (hk : k < xs.length), m.cell k = xs[k]) (hend : m.cell xs.length = 0)
    (hxs : 0 ∉ xs) : HoldsString m xs where
  lt_size := hsize
  cells := slice_eq_of_getElem fun k hk => by rw [Nat.zero_add, hcell k hk]
  terminated := hend
  nonzero := hxs

namespace HoldsString

lemma head?_eq (h : HoldsString m (xs ++ ys)) {c : UInt8} (hc : c ∈ ys.head?) :
    m.cell xs.length = c := by
  obtain ⟨rest, rfl⟩ := List.head?_eq_some_iff.mp hc
  have hlt : xs.length < (xs ++ c :: rest).length := by simp
  rw [h.cell_eq hlt, List.getElem_append_right le_rfl]
  simp

/-- What is behind the first characters of a string. -/
lemma drop (h : HoldsString m (xs ++ ys)) : HoldsString (m.drop xs.length) ys := by
  have hsize := h.lt_size
  have hend := h.terminated
  rw [List.length_append] at hsize hend
  refine holdsString_of_cells ?_ ?_ hend fun hzero => h.nonzero (List.mem_append_right _ hzero)
  · exact Nat.lt_sub_of_add_lt (by rwa [Nat.add_comm])
  · intro k hk
    have hlt : xs.length + k < (xs ++ ys).length := by
      rw [List.length_append]
      exact Nat.add_lt_add_left hk _
    change m.cell (xs.length + k) = ys[k]
    rw [h.cell_eq hlt, List.getElem_append_right (Nat.le_add_right _ _)]
    simp

/-- A zero that is stored in a string ends it there. -/
lemma cut {c : UInt8} (h : HoldsString m (xs ++ c :: ys)) :
    HoldsString { m with cell := Function.update m.cell xs.length 0 } xs ∧
      HoldsString (Block.drop { m with cell := Function.update m.cell xs.length 0 }
        (xs.length + 1)) ys := by
  have hsize := h.lt_size
  rw [List.length_append, List.length_cons] at hsize
  constructor
  · refine holdsString_of_cells (by simp only; omega) ?_ (Function.update_self _ _ _)
      fun hzero => h.nonzero (List.mem_append_left _ hzero)
    intro k hk
    have hlt : k < (xs ++ c :: ys).length := by
      rw [List.length_append]
      exact hk.trans_le (Nat.le_add_right _ _)
    change Function.update m.cell xs.length 0 k = xs[k]
    rw [Function.update_of_ne hk.ne, h.cell_eq hlt, List.getElem_append_left hk]
  · -- the cells behind the zero are as before
    have hbehind : Block.drop { m with cell := Function.update m.cell xs.length 0 }
        (xs.length + 1) = m.drop (xs.length + 1) := by
      apply Block.ext
      · rfl
      · funext k
        exact Function.update_of_ne (by omega) _ _
    have hrest : HoldsString m ((xs ++ [c]) ++ ys) := by
      rw [List.append_assoc]
      exact h
    rw [hbehind, ← List.length_singleton (a := c), ← List.length_append]
    exact hrest.drop

/-- `scan` passes over the characters that meet `p`. -/
lemma scan_eq (h : HoldsString m (xs ++ ys)) {p : UInt8 → Prop} [DecidablePred p]
    (hxs : ∀ c ∈ xs, p c) (hys : ∀ c ∈ ys.head?, ¬ p c) (hzero : ¬ p 0) :
    scan m p = some xs.length := by
  have hsize := h.lt_size
  rw [List.length_append] at hsize
  unfold scan
  rw [List.find?_range_eq_some]
  refine ⟨decide_eq_true ?_, List.mem_range.mpr (by omega), ?_⟩
  · rcases hhead : ys.head? with _ | c
    · have hend := h.terminated
      rw [List.head?_eq_none_iff.mp hhead, List.append_nil] at hend
      rwa [hend]
    · rw [h.head?_eq hhead]
      exact hys c hhead
  · intro k hk
    have hlt : k < (xs ++ ys).length := by
      rw [List.length_append]
      exact hk.trans_le (Nat.le_add_right _ _)
    rw [h.cell_eq hlt, List.getElem_append_left hk]
    simpa using hxs _ (List.getElem_mem hk)

end HoldsString

end strings

/-! ## Pointers -/

/-- A pointer to a cell of an array. -/
structure Pointer (ρ : Type) where
  array : ρ
  offset : ℕ
  deriving DecidableEq

/-- The contents of the arrays. -/
abbrev Arrays (ρ : Type) := ρ → Block UInt8

section pointers

variable {ρ : Type}

/-- What a pointer points to. -/
def deref (mem : Arrays ρ) (p : Pointer ρ) : Block UInt8 := (mem p.array).drop p.offset

lemma deref_zero (mem : Arrays ρ) (a : ρ) : deref mem ⟨a, 0⟩ = mem a := Block.drop_zero _

lemma deref_add (mem : Arrays ρ) (a : ρ) (i j : ℕ) :
    deref mem ⟨a, i + j⟩ = (deref mem ⟨a, i⟩).drop j := (Block.drop_drop _ i j).symm

variable [DecidableEq ρ]

/-- `strcpy`, from a pointer to the start of the array `dst`. -/
def strcpyFrom (mem : Arrays ρ) (dst : ρ) (src : Pointer ρ) : Option (Arrays ρ) := do
  let xs ← cstring (deref mem src)
  let m ← strcpy (mem dst) xs
  some (Function.update mem dst m)

/-- `strtok`, with the separators `sep` and the pointer that it has saved. The result is the memory,
the pointer that it saves and the one that it returns. -/
def strtok (sep : List UInt8) (mem : Arrays ρ) (saved arg : Option (Pointer ρ)) :
    Option (Arrays ρ × Option (Pointer ρ) × Option (Pointer ρ)) :=
  match arg <|> saved with
  | none => some (mem, none, none)
  | some p => do
      let start ← scan (deref mem p) (· ∈ sep)
      let token : Pointer ρ := ⟨p.array, p.offset + start⟩
      if (deref mem token).cell 0 = 0 then some (mem, none, none)
      else do
        let len ← scan (deref mem token) fun c => c ≠ 0 ∧ c ∉ sep
        if (deref mem token).cell len = 0 then some (mem, none, some token)
        else do
          let m ← (mem p.array).store ((token.offset + len : ℕ) : ℤ) 0
          some (Function.update mem p.array m, some ⟨p.array, token.offset + len + 1⟩, some token)

/-- The string that is still to be searched. -/
def Unsearched (mem : Arrays ρ) (a : ρ) (saved : Option (Pointer ρ)) (xs : List UInt8) : Prop :=
  match saved with
  | none => xs = []
  | some p => p.array = a ∧ HoldsString (deref mem p) xs

variable {mem : Arrays ρ} {a : ρ} {saved arg : Option (Pointer ρ)} {sep xs : List UInt8}

/-- Other arrays do not matter. -/
lemma deref_update_of_ne {p : Pointer ρ} (h : p.array ≠ a) (m : Block UInt8) :
    deref (Function.update mem a m) p = deref mem p := by
  unfold deref
  rw [Function.update_of_ne h]

/-- A cell behind the pointer is written. -/
lemma deref_update_store (mem : Arrays ρ) (a : ρ) (i j k : ℕ) (v : UInt8) :
    deref (Function.update mem a ⟨(mem a).size, Function.update (mem a).cell (i + j) v⟩)
        ⟨a, i + k⟩ =
      Block.drop ⟨(deref mem ⟨a, i⟩).size, Function.update (deref mem ⟨a, i⟩).cell j v⟩ k := by
  unfold deref
  rw [Function.update_self, ← Block.drop_drop]
  apply Block.ext
  · rfl
  · funext n
    simp only [Block.drop, Function.update_apply, Nat.add_left_cancel_iff]

/-- The copy of a string, when the array has room for it. -/
lemma strcpyFrom_eq {src : Pointer ρ} {dst : ρ} (h : HoldsString (deref mem src) xs) :
    strcpyFrom mem dst src = (strcpy (mem dst) xs).map (Function.update mem dst) := by
  rw [strcpyFrom, h.cstring_eq, Option.bind_eq_bind, Option.bind_some]
  cases strcpy (mem dst) xs <;> rfl

/-- There is no word left. -/
lemma strtok_none (h : Unsearched mem a (arg <|> saved) xs) (hsep : 0 ∉ sep)
    (hxs : ∀ c ∈ xs, c ∈ sep) : strtok sep mem saved arg = some (mem, none, none) := by
  unfold strtok
  rcases hptr : (arg <|> saved) with _ | ⟨b, off⟩
  · rfl
  · rw [hptr] at h
    obtain ⟨-, hholds⟩ := h
    have hall : HoldsString (deref mem ⟨b, off⟩) (xs ++ []) := by rwa [List.append_nil]
    have hend : (deref mem ⟨b, off + xs.length⟩).cell 0 = 0 := by
      rw [deref_add]
      exact hall.drop.terminated
    simp only
    rw [hall.scan_eq hxs (fun _ hc => by cases hc) hsep, Option.bind_eq_bind, Option.bind_some,
      if_pos hend]

/-- **The first word of what is left is found**, and what is behind it and its separator is left. -/
theorem strtok_word {seps w post : List UInt8} (h : Unsearched mem a (arg <|> saved) xs)
    (hsep : 0 ∉ sep) (hword : FirstWord (· ∉ sep) xs seps w post) :
    ∃ mem' saved' token, strtok sep mem saved arg = some (mem', saved', some token) ∧
      token.array = a ∧ HoldsString (deref mem' token) w ∧ Unsearched mem' a saved' post.tail ∧
      ∀ b, b ≠ a → mem' b = mem b := by
  unfold strtok
  rcases hptr : (arg <|> saved) with _ | ⟨b, off⟩
  · -- with nothing to search there is no word
    rw [hptr] at h
    have hnil : seps ++ w ++ post = [] := hword.eq.symm.trans h
    simp only [List.append_eq_nil_iff] at hnil
    exact absurd hnil.1.2 hword.ne_nil
  · rw [hptr] at h
    obtain ⟨rfl, hholds⟩ := h
    rw [hword.eq, List.append_assoc] at hholds
    have hfirst : ∀ c ∈ (w ++ post).head?, c ∉ sep := by
      intro c hc
      rw [List.head?_append_of_ne_nil _ hword.ne_nil] at hc
      exact hword.word c (List.mem_of_head? hc)
    have htoken : HoldsString (deref mem ⟨b, off + seps.length⟩) (w ++ post) := by
      rw [deref_add]
      exact hholds.drop
    have hstart : (deref mem ⟨b, off + seps.length⟩).cell 0 ≠ 0 := by
      apply htoken.cell_ne_zero
      rw [List.length_append]
      exact Nat.add_pos_left (List.length_pos_of_ne_nil hword.ne_nil) _
    have hlen : scan (deref mem ⟨b, off + seps.length⟩) (fun c => c ≠ 0 ∧ c ∉ sep) =
        some w.length := by
      apply htoken.scan_eq
      · exact fun c hc => ⟨fun hzero =>
          htoken.nonzero (List.mem_append_left _ (hzero ▸ hc)), hword.word c hc⟩
      · exact fun c hc hnot => hword.head c hc hnot.2
      · exact fun hnot => hnot.1 rfl
    simp only
    rw [hholds.scan_eq (fun c hc => not_not.mp (hword.separators c hc)) hfirst hsep,
      Option.bind_eq_bind, Option.bind_some, if_neg hstart, hlen, Option.bind_some]
    rcases post with _ | ⟨c, rest⟩
    · -- the word extends to the end of the string
      rw [List.append_nil] at htoken
      rw [if_pos htoken.terminated]
      exact ⟨mem, none, _, rfl, rfl, htoken, rfl, fun _ _ => rfl⟩
    · have hbehind : (deref mem ⟨b, off + seps.length⟩).cell w.length ≠ 0 := by
        apply htoken.cell_ne_zero
        simp
      have hroom : off + seps.length + w.length < (mem b).size := by
        have hsize := htoken.lt_size
        simp only [deref, Block.drop, List.length_append, List.length_cons] at hsize
        omega
      rw [if_neg hbehind, Block.store_natCast hroom, Option.bind_eq_bind, Option.bind_some]
      refine ⟨_, _, _, rfl, rfl, ?_, ⟨rfl, ?_⟩, fun d hd => Function.update_of_ne hd _ _⟩
      · have hderef := deref_update_store mem b (off + seps.length) w.length 0 0
        rw [Nat.add_zero, Block.drop_zero] at hderef
        rw [hderef]
        exact htoken.cut.1
      · rw [Nat.add_assoc _ w.length 1, deref_update_store]
        exact htoken.cut.2

end pointers

end Comp3301.Lib
