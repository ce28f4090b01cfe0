import Comp3301.Lib.Memory

/-!
# Numbers in byte memory

Memory as a function from addresses to bytes, and the numbers that are stored in it, the lowest byte
first.

* `leNat f p n` is the number in the `n` bytes from `p` on. It depends on these bytes only
  (`leNat_congr`).
* `setLeNat f p n v` stores a number there. What was stored is read back (`leNat_setLeNat`), and a
  number elsewhere is left alone (`leNat_setLeNat_of_disjoint`).
* `putBytes f p xs` stores a list of bytes.
* `SameOn f g p q` says that the bytes from `p` to `q` are the same.
-/

namespace Comp3301.Lib

/-- The number in the `n` bytes from `p` on. -/
def leNat (f : ℕ → UInt8) : ℕ → ℕ → ℕ
  | _, 0 => 0
  | p, n + 1 => (f p).toNat + 256 * leNat f (p + 1) n

/-- Store a number in the `n` bytes from `p` on. -/
def setLeNat (f : ℕ → UInt8) (p n v : ℕ) : ℕ → UInt8 :=
  blit f p n fun k => UInt8.ofNat (v / 256 ^ k)

/-- Store bytes from `p` on. -/
def putBytes (f : ℕ → UInt8) (p : ℕ) (xs : List UInt8) : ℕ → UInt8 :=
  blit f p xs.length fun k => xs.getD k 0

/-- The bytes from `p` to `q` are the same. -/
def SameOn (f g : ℕ → UInt8) (p q : ℕ) : Prop := ∀ k, p ≤ k → k < q → f k = g k

namespace SameOn

variable {f g h : ℕ → UInt8} {p q p' q' : ℕ}

lemma refl (f : ℕ → UInt8) (p q : ℕ) : SameOn f f p q := fun _ _ _ => rfl

lemma symm (hfg : SameOn f g p q) : SameOn g f p q := fun k hp hq => (hfg k hp hq).symm

lemma trans (hfg : SameOn f g p q) (hgh : SameOn g h p q) : SameOn f h p q :=
  fun k hp hq => (hfg k hp hq).trans (hgh k hp hq)

lemma mono (hfg : SameOn f g p q) (hp : p ≤ p') (hq : q' ≤ q) : SameOn f g p' q' :=
  fun k hk hk' => hfg k (hp.trans hk) (hk'.trans_le hq)

end SameOn

section blit

variable {f : ℕ → UInt8} {g : ℕ → UInt8} {s n p q : ℕ}

/-- A stretch of memory that has been written somewhere else. -/
lemma sameOn_blit (f g : ℕ → UInt8) (h : q ≤ s ∨ s + n ≤ p) : SameOn (blit f s n g) f p q := by
  intro k hp hq
  exact if_neg (by omega)

lemma sameOn_setLeNat (f : ℕ → UInt8) (v : ℕ) (h : q ≤ s ∨ s + n ≤ p) :
    SameOn (setLeNat f s n v) f p q := sameOn_blit f _ h

lemma sameOn_putBytes (f : ℕ → UInt8) {xs : List UInt8} (h : q ≤ s ∨ s + xs.length ≤ p) :
    SameOn (putBytes f s xs) f p q := sameOn_blit f _ h

lemma sameOn_update (f : ℕ → UInt8) (b : UInt8) (h : q ≤ s ∨ s + 1 ≤ p) :
    SameOn (Function.update f s b) f p q := by
  intro k hp hq
  exact Function.update_of_ne (by omega) _ _

end blit

/-! ## Reading what is there -/

lemma leNat_congr {f g : ℕ → UInt8} {p n : ℕ} (h : SameOn f g p (p + n)) :
    leNat f p n = leNat g p n := by
  induction n generalizing p with
  | zero => rfl
  | succ n ih =>
      rw [leNat, leNat, h p (le_refl _) (by omega), ih (h.mono (by omega) (by omega))]

lemma slice_sameOn {f g : ℕ → UInt8} {p n : ℕ} (h : SameOn f g p (p + n)) :
    slice f p n = slice g p n := slice_congr fun k hk => h (p + k) (by omega) (by omega)

/-- A number by its digits. -/
lemma leNat_of_digits {f : ℕ → UInt8} {p n v : ℕ}
    (h : ∀ k < n, f (p + k) = UInt8.ofNat (v / 256 ^ k)) : leNat f p n = v % 256 ^ n := by
  induction n generalizing p v with
  | zero => rw [leNat, pow_zero, Nat.mod_one]
  | succ n ih =>
      have hfirst : (f p).toNat = v % 256 := by
        have hdigit := h 0 (Nat.succ_pos n)
        rw [Nat.add_zero, pow_zero, Nat.div_one] at hdigit
        rw [hdigit, UInt8.toNat_ofNat']
      have hrest : leNat f (p + 1) n = v / 256 % 256 ^ n := by
        apply ih
        intro k hk
        have hdigit := h (k + 1) (Nat.succ_lt_succ hk)
        rw [show p + 1 + k = p + (k + 1) by omega, hdigit, pow_succ', Nat.div_div_eq_div_mul]
      rw [leNat, hfirst, hrest, pow_succ', Nat.mod_mul]

/-- What has been stored is read back. -/
lemma leNat_setLeNat (f : ℕ → UInt8) (p : ℕ) {n v : ℕ} (hv : v < 256 ^ n) :
    leNat (setLeNat f p n v) p n = v := by
  rw [leNat_of_digits (v := v), Nat.mod_eq_of_lt hv]
  intro k hk
  have hin : p ≤ p + k ∧ p + k < p + n := by omega
  rw [setLeNat, blit, if_pos hin, Nat.add_sub_cancel_left]

/-- A number that lies elsewhere. -/
lemma leNat_setLeNat_of_disjoint (f : ℕ → UInt8) {p q m n : ℕ} (v : ℕ)
    (h : q + m ≤ p ∨ p + n ≤ q) : leNat (setLeNat f p n v) q m = leNat f q m :=
  leNat_congr (sameOn_setLeNat f v h)

lemma leNat_putBytes_of_disjoint (f : ℕ → UInt8) {p q m : ℕ} {xs : List UInt8}
    (h : q + m ≤ p ∨ p + xs.length ≤ q) : leNat (putBytes f p xs) q m = leNat f q m :=
  leNat_congr (sameOn_putBytes f h)

lemma leNat_update_of_disjoint (f : ℕ → UInt8) {p q m : ℕ} (b : UInt8)
    (h : q + m ≤ p ∨ p + 1 ≤ q) : leNat (Function.update f p b) q m = leNat f q m :=
  leNat_congr (sameOn_update f b h)

lemma setLeNat_of_disjoint (f : ℕ → UInt8) {p n k : ℕ} (v : ℕ) (h : k < p ∨ p + n ≤ k) :
    setLeNat f p n v k = f k := if_neg (by omega)

lemma putBytes_of_disjoint (f : ℕ → UInt8) {p k : ℕ} {xs : List UInt8}
    (h : k < p ∨ p + xs.length ≤ k) : putBytes f p xs k = f k := if_neg (by omega)

/-- The first of the bytes that have been stored. -/
lemma slice_putBytes_take (f : ℕ → UInt8) (p : ℕ) {xs : List UInt8} {n : ℕ} (hn : n ≤ xs.length) :
    slice (putBytes f p xs) p n = xs.take n := by
  have hlen : (xs.take n).length = n := List.length_take_of_le hn
  have hslice : slice (putBytes f p xs) p (xs.take n).length = xs.take n := by
    apply slice_eq_of_getElem
    intro k hk
    have hin : p ≤ p + k ∧ p + k < p + xs.length := by omega
    rw [putBytes, blit, if_pos hin, Nat.add_sub_cancel_left, List.getElem_take, List.getD,
      List.getElem?_eq_getElem (by omega), Option.getD_some]
  rwa [hlen] at hslice

/-- The bytes that have been stored. -/
lemma slice_putBytes (f : ℕ → UInt8) (p : ℕ) (xs : List UInt8) :
    slice (putBytes f p xs) p xs.length = xs := by
  rw [slice_putBytes_take f p (le_refl _), List.take_length]

end Comp3301.Lib
