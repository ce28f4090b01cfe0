import Comp3301.Lib.CString
import Comp3301.Lib.Loops

/-!
# Records of different lengths

Records that lie in memory one behind the other, each with its length in it, and the loop that steps
from one to the next by that length.

* `decode p` reads the record at `p`: what it says, and its length.
* `Packed decode p as q` says that the records between `p` and `q` are `as`. There is one such list
  (`Packed.unique`), and `records` computes it (`Packed.records_eq`). Memory in which every record
  reads the same holds the same records (`Packed.imp`).
* So the loop runs its body over `as` (`recordLoop_eq`), and a loop that stops at an earlier `limit`
  over the records that begin before it (`recordLoop_cut`).
-/

namespace Comp3301.Lib

variable {σ ρ α : Type}

/-- The records from `p` to `q` are `as`, none of them of length zero. -/
inductive Packed (decode : ℕ → Option (α × ℕ)) : ℕ → List α → ℕ → Prop
  | nil (p : ℕ) : Packed decode p [] p
  | cons {p len q : ℕ} {a : α} {as : List α} (head : decode p = some (a, len)) (pos : 0 < len)
      (tail : Packed decode (p + len) as q) : Packed decode p (a :: as) q

lemma Packed.le {decode : ℕ → Option (α × ℕ)} {p q : ℕ} {as : List α}
    (h : Packed decode p as q) : p ≤ q := by
  induction h with
  | nil => exact le_refl _
  | cons _ _ _ ih => exact (Nat.le_add_right _ _).trans ih

/-! ## Lists of records -/

namespace Packed

variable {decode decode' : ℕ → Option (α × ℕ)} {p m q : ℕ} {as bs : List α}

lemma append (h : Packed decode p as m) (h' : Packed decode m bs q) :
    Packed decode p (as ++ bs) q := by
  induction h with
  | nil => exact h'
  | cons head pos _ ih => exact Packed.cons head pos (ih h')

lemma singleton {len : ℕ} {a : α} (head : decode p = some (a, len)) (pos : 0 < len) :
    Packed decode p [a] (p + len) := Packed.cons head pos (Packed.nil _)

/-- The first record. -/
lemma cons_inv {a : α} (h : Packed decode p (a :: as) q) :
    ∃ len, decode p = some (a, len) ∧ 0 < len ∧ Packed decode (p + len) as q := by
  cases h with
  | cons head pos tail => exact ⟨_, head, pos, tail⟩

/-- Cutting between two records. -/
lemma split (h : Packed decode p (as ++ bs) q) :
    ∃ m, Packed decode p as m ∧ Packed decode m bs q := by
  induction as generalizing p with
  | nil => exact ⟨p, Packed.nil p, h⟩
  | cons a as ih =>
      obtain ⟨len, head, pos, tail⟩ := cons_inv h
      obtain ⟨m, hleft, hright⟩ := ih tail
      exact ⟨m, Packed.cons head pos hleft, hright⟩

lemma length_le (h : Packed decode p as q) : p + as.length ≤ q := by
  induction h with
  | nil => exact le_refl _
  | cons _ _ _ ih =>
      rw [List.length_cons]
      omega

lemma nil_inv (h : Packed decode p [] q) : p = q := by
  cases h
  rfl

lemma eq_nil (h : Packed decode p as p) : as = [] :=
  List.length_eq_zero_iff.mp (by have := h.length_le; omega)

/-- There is one list of records. -/
theorem unique (h : Packed decode p as q) (h' : Packed decode p bs q) : as = bs := by
  induction h generalizing bs with
  | nil => exact h'.eq_nil.symm
  | cons head pos tail ih =>
      cases h' with
      | nil => exact absurd tail.le (by omega)
      | cons head' pos' tail' =>
          obtain ⟨rfl, rfl⟩ : _ = _ ∧ _ = _ := by simpa using head.symm.trans head'
          rw [ih tail']

/-- The records that read the same, between the same places. -/
theorem imp (h : Packed decode p as q)
    (hdecode : ∀ x a len, p ≤ x → x + len ≤ q → a ∈ as → decode x = some (a, len) →
      decode' x = some (a, len)) : Packed decode' p as q := by
  induction h with
  | nil => exact Packed.nil _
  | @cons p len q a as head pos tail ih =>
      refine Packed.cons (hdecode p a len (le_refl _) tail.le List.mem_cons_self head) pos ?_
      apply ih
      intro x b len' hx hq hb
      exact hdecode x b len' (by omega) hq (List.mem_cons_of_mem a hb)

/-- The place of a record. -/
lemma exists_place {a : α} (h : Packed decode p as q) (ha : a ∈ as) :
    ∃ x len, p ≤ x ∧ x + len ≤ q ∧ 0 < len ∧ decode x = some (a, len) := by
  obtain ⟨pre, post, rfl⟩ := List.append_of_mem ha
  obtain ⟨m, hpre, hrest⟩ := h.split
  obtain ⟨len, head, pos, tail⟩ := cons_inv hrest
  exact ⟨m, len, hpre.le, tail.le, pos, head⟩

end Packed

/-- The records between `p` and `limit`, at most `n` of them. -/
def records (decode : ℕ → Option (α × ℕ)) (limit : ℕ) : ℕ → ℕ → List α
  | 0, _ => []
  | n + 1, p =>
      if p < limit then
        match decode p with
        | none => []
        | some (a, len) => a :: records decode limit n (p + len)
      else []

lemma Packed.records_eq {decode : ℕ → Option (α × ℕ)} {p q n : ℕ} {as : List α}
    (h : Packed decode p as q) (hn : as.length ≤ n) : records decode q n p = as := by
  induction h generalizing n with
  | nil p =>
      rcases n with _ | n
      · rfl
      · rw [records, if_neg (lt_irrefl p)]
  | @cons p len q a as head pos tail ih =>
      obtain ⟨n, rfl⟩ := Nat.exists_eq_succ_of_ne_zero (Nat.ne_zero_of_lt hn)
      have hlt : p < q := (Nat.lt_add_of_pos_right pos).trans_le tail.le
      rw [records, if_pos hlt, head]
      simp only
      rw [ih (Nat.le_of_succ_le_succ hn)]

/-! ## The loop -/

/-- A round of the loop over the records before `limit`. The body leaves the loop with `.inr`. -/
def recordRound (decode : ℕ → Option (α × ℕ)) (limit : ℕ) (body : α → σ → Option (σ ⊕ ρ))
    (ps : ℕ × σ) : Option ((ℕ × σ) ⊕ (σ ⊕ ρ)) :=
  if ps.1 < limit then
    match decode ps.1 with
    | none => none
    | some (a, len) =>
        match body a ps.2 with
        | none => none
        | some (.inl s) => some (.inl (ps.1 + len, s))
        | some (.inr r) => some (.inr (.inr r))
  else some (.inr (.inl ps.2))

/-- The records from `p` on that begin before `limit` are `as`, and they end at `q`. -/
inductive Passes (decode : ℕ → Option (α × ℕ)) (limit : ℕ) : ℕ → List α → ℕ → Prop
  | stop {p : ℕ} (h : limit ≤ p) : Passes decode limit p [] p
  | next {p len q : ℕ} {a : α} {as : List α} (h : p < limit) (head : decode p = some (a, len))
      (pos : 0 < len) (tail : Passes decode limit (p + len) as q) :
      Passes decode limit p (a :: as) q

/-- The records up to an earlier limit, and the others. -/
lemma Packed.exists_passes {decode : ℕ → Option (α × ℕ)} {p limit q : ℕ} {as : List α}
    (h : Packed decode p as q) (hlimit : limit ≤ q) :
    ∃ as₁ as₂ m, as = as₁ ++ as₂ ∧ Passes decode limit p as₁ m ∧ limit ≤ m ∧
      Packed decode p as₁ m ∧ Packed decode m as₂ q := by
  induction h with
  | nil p => exact ⟨[], [], p, rfl, Passes.stop hlimit, hlimit, Packed.nil p, Packed.nil p⟩
  | @cons p len q a as head pos tail ih =>
      rcases Nat.lt_or_ge p limit with hp | hp
      · obtain ⟨as₁, as₂, m, rfl, hpass, hm, hleft, hright⟩ := ih hlimit
        exact ⟨a :: as₁, as₂, m, rfl, Passes.next hp head pos hpass, hm,
          Packed.cons head pos hleft, hright⟩
      · exact ⟨[], a :: as, p, rfl, Passes.stop hp, hp, Packed.nil p, Packed.cons head pos tail⟩

/-- **A loop up to an earlier limit runs its body over the records that begin before it.** -/
lemma recordLoop_cut {decode : ℕ → Option (α × ℕ)} {p limit q : ℕ} {as : List α}
    (h : Passes decode limit p as q) (body : α → σ → Option (σ ⊕ ρ)) (s : σ) {n : ℕ}
    (hn : as.length < n) :
    loopFor (recordRound decode limit body) n (p, s) = runOver body as s := by
  induction h generalizing s n with
  | stop hp =>
      obtain ⟨n, rfl⟩ := Nat.exists_eq_succ_of_ne_zero (Nat.ne_zero_of_lt hn)
      have hround : recordRound decode limit body (_, s) = some (.inr (.inl s)) :=
        if_neg (Nat.not_lt.mpr hp)
      rw [loopFor_stop hround, runOver]
  | @next p len q a as hp head pos tail ih =>
      obtain ⟨n, rfl⟩ := Nat.exists_eq_succ_of_ne_zero (Nat.ne_zero_of_lt hn)
      rcases hbody : body a s with _ | s' | r
      · have hround : recordRound decode limit body (p, s) = none := by
          simp [recordRound, hp, head, hbody]
        rw [loopFor, hround, runOver, hbody]
      · have hround : recordRound decode limit body (p, s) = some (.inl (p + len, s')) := by
          simp [recordRound, hp, head, hbody]
        rw [loopFor_next hround, ih s' (Nat.lt_of_succ_lt_succ hn), runOver, hbody]
      · have hround : recordRound decode limit body (p, s) = some (.inr (.inr r)) := by
          simp [recordRound, hp, head, hbody]
        rw [loopFor_stop hround, runOver, hbody]

/-- All records begin before the end of the last one. -/
lemma Packed.passes {decode : ℕ → Option (α × ℕ)} {p q : ℕ} {as : List α}
    (h : Packed decode p as q) : Passes decode q p as q := by
  induction h with
  | nil p => exact Passes.stop (le_refl p)
  | cons head pos tail ih => exact Passes.next (by have := tail.le; omega) head pos ih

/-- **The loop over packed records runs its body over them**, each once and in their order. -/
lemma recordLoop_eq {decode : ℕ → Option (α × ℕ)} {p limit : ℕ} {as : List α}
    (h : Packed decode p as limit) (body : α → σ → Option (σ ⊕ ρ)) (s : σ) {n : ℕ}
    (hn : as.length < n) :
    loopFor (recordRound decode limit body) n (p, s) = runOver body as s :=
  recordLoop_cut h.passes body s hn

end Comp3301.Lib
