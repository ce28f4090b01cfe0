import Comp3301.Lib.Memory

/-!
# The crypto device: data and lookup

The types of `a2/ioctl.h` and the structures of `a2/fops.c`, for the LP64 data model (`int` and
`unsigned int` of 32 bits, `size_t`, `ssize_t` and `unsigned long` of 64).

* `unsigned int` fields are naturals below `2 ^ 32`, `int` fields are integers; conversions are
  written where the source has them (`Lib.Memory`).
* Buffer ids are read as unbounded integers everywhere: the counter `new_id`, the `unsigned int`
  in which a freed id is parked and the `(int) arg` of an ioctl.
* `char` is `UInt8`: the driver only copies characters and combines them by exclusive or.
* The user may put any value in an enumeration of `struct crypto_smode`; `other` stands for the
  values that are none of the named ones.
-/

namespace Comp3301.Crypto

open Comp3301.Lib

/-! ## `ioctl.h` -/

/-- `enum crypto_direction`. -/
inductive CryptoDirection where
  | read
  | write
  | other
  deriving DecidableEq, Repr

/-- `enum crypto_encmode`. -/
inductive CryptoEncmode where
  | enc
  | dec
  | passthrough
  | other
  deriving DecidableEq, Repr

/-- `struct crypto_smode`. -/
structure CryptoSmode where
  dir : CryptoDirection
  mode : CryptoEncmode
  key : UInt8
  deriving DecidableEq, Repr

/-! ## `fops.c` -/

/-- `BUF_SIZE`. -/
def bufSize : ℕ := 8192

/-- `ENOMEM`. -/
def enomem : ℤ := 12

/-- `EFAULT`. -/
def efault : ℤ := 14

/-- `EINVAL`. -/
def einval : ℤ := 22

/-- `ENOTSUP`, which `ioctl.h` defines as `EOPNOTSUPP`. -/
def enotsup : ℤ := 95

/-- `ENOBUFS`. -/
def enobufs : ℤ := 105

/-- `struct dev_buf`. The flags `read_ref` and `write_ref` only ever hold `0` and `1`. -/
structure DevBuf where
  id : ℤ
  refcount : ℕ
  readoff : ℕ
  writeoff : ℕ
  count : ℕ
  /-- The ring, `vmalloc`ed with `BUF_SIZE` characters. -/
  buf : Block UInt8
  readRef : Bool
  writeRef : Bool
  /-- Ring index of the last character encrypted, `-1` before the first. -/
  encLast : ℤ
  /-- Ring index of the last character decrypted, `-1` before the first. -/
  decLast : ℤ

/-- `struct priv_data`: the driver's data in a file descriptor. -/
structure PrivData where
  /-- The attached buffer, `0` when there is none. -/
  bufId : ℤ
  readsmode : CryptoSmode
  writesmode : CryptoSmode
  deriving DecidableEq, Repr

/-- What `CRYPTO_IOCCREATE` leaves in a new `dev_buf`: id, reference count and flags as given, an
empty ring whose memory holds whatever `vmalloc` returned. -/
def freshBuf (id : ℤ) (readRef writeRef : Bool) (mem : ℕ → UInt8) : DevBuf where
  id := id
  refcount := 1
  readoff := 0
  writeoff := 0
  count := 0
  buf := ⟨bufSize, mem⟩
  readRef := readRef
  writeRef := writeRef
  encLast := -1
  decLast := -1

/-! ## Looking up a buffer -/

/-- A node of `dev_buf_head`, as `search_entry` hands it out: its position on the list and the
buffer it carries. -/
abbrev Entry := ℕ × DevBuf

/-- The loop of `search_entry` over the list nodes, with `i` the position of the first node of the
rest and `entry` the value of `*entry`. Leaving the loop at its end, the source assigns `NULL` to
its own parameter and not to `*entry`, which keeps pointing at the last node. -/
def searchEntryFrom (id : ℤ) : ℕ → Option Entry → List DevBuf → Option Entry
  | _, entry, [] => entry
  | i, _, b :: l => if b.id = id then some (i, b) else searchEntryFrom id (i + 1) (some (i, b)) l

/-- `search_entry`, called with `*entry == NULL`. -/
def searchEntry (id : ℤ) (l : List DevBuf) : Option Entry := searchEntryFrom id 0 none l

/-- The loop stops at the first node with the id. -/
lemma searchEntryFrom_append {id : ℤ} {pre : List DevBuf} (h : ∀ b ∈ pre, b.id ≠ id)
    {b : DevBuf} (hb : b.id = id) (post : List DevBuf) (i : ℕ) (entry : Option Entry) :
    searchEntryFrom id i entry (pre ++ b :: post) = some (i + pre.length, b) := by
  induction pre generalizing i entry with
  | nil => simp [searchEntryFrom, hb]
  | cons a pre ih =>
      have ha : a.id ≠ id := h a List.mem_cons_self
      rw [List.cons_append, searchEntryFrom, if_neg ha,
        ih (fun c hc => h c (List.mem_cons_of_mem a hc)), List.length_cons,
        show i + 1 + pre.length = i + (pre.length + 1) by omega]

/-- Without a match the loop ends at the last node. -/
lemma searchEntryFrom_concat {id : ℤ} {pre : List DevBuf} {b : DevBuf}
    (h : ∀ c ∈ pre ++ [b], c.id ≠ id) (i : ℕ) (entry : Option Entry) :
    searchEntryFrom id i entry (pre ++ [b]) = some (i + pre.length, b) := by
  induction pre generalizing i entry with
  | nil => simp [searchEntryFrom, h b (by simp)]
  | cons a pre ih =>
      rw [List.cons_append, searchEntryFrom, if_neg (h a (by simp)),
        ih (fun c hc => h c (List.mem_cons_of_mem a hc)), List.length_cons,
        show i + 1 + pre.length = i + (pre.length + 1) by omega]

/-- `search_entry` finds the first buffer with the id. -/
lemma searchEntry_append {id : ℤ} {pre : List DevBuf} (h : ∀ b ∈ pre, b.id ≠ id)
    {b : DevBuf} (hb : b.id = id) (post : List DevBuf) :
    searchEntry id (pre ++ b :: post) = some (pre.length, b) := by
  rw [searchEntry, searchEntryFrom_append h hb, Nat.zero_add]

lemma searchEntry_cons_self {id : ℤ} {b : DevBuf} (hb : b.id = id) (rest : List DevBuf) :
    searchEntry id (b :: rest) = some (0, b) := if_pos hb

/-- What `search_entry` can return: on an empty list nothing; otherwise a node, which is the first
one with the id or, when no buffer has the id, the last one. -/
lemma searchEntry_cases (id : ℤ) (l : List DevBuf) :
    (l = [] ∧ searchEntry id l = none) ∨
      ∃ pre b post, l = pre ++ b :: post ∧ searchEntry id l = some (pre.length, b) ∧
        (b.id = id ∧ (∀ c ∈ pre, c.id ≠ id) ∨ post = [] ∧ ∀ c ∈ l, c.id ≠ id) := by
  by_cases h : ∃ b ∈ l, b.id = id
  · obtain ⟨c, hc, hcid⟩ := h
    obtain ⟨b, pre, post, hpre, hb, rfl, -⟩ := List.exists_of_eraseP
      (p := fun b : DevBuf => decide (b.id = id)) hc (by simpa using hcid)
    simp only [decide_eq_true_eq] at hpre hb
    exact Or.inr ⟨pre, b, post, rfl, searchEntry_append hpre hb post, Or.inl ⟨hb, hpre⟩⟩
  · have hne : ∀ b ∈ l, b.id ≠ id := fun b hb hid => h ⟨b, hb, hid⟩
    rcases List.eq_nil_or_concat l with rfl | ⟨pre, b, rfl⟩
    · exact Or.inl ⟨rfl, rfl⟩
    · refine Or.inr ⟨pre, b, [], by simp, ?_, Or.inr ⟨rfl, hne⟩⟩
      rw [List.concat_eq_append] at hne ⊢
      rw [searchEntry, searchEntryFrom_concat hne, Nat.zero_add]

end Comp3301.Crypto
