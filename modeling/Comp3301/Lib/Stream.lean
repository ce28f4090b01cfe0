import Comp3301.Lib.Memory

/-!
# Streams: chained mixing, chunks, and rings as windows on a stream

General facts about byte streams that are handled in chunks.

* **Chaining.** `chainEnc mix prev` mixes every symbol with the previous *output*, `chainDec mix
  prev` with the previous *input*; both start from `prev`. They are inverse to each other when
  `mix` cancels (`chainDec_chainEnc`), and a chunk can be processed on its own once it is started
  from the last symbol of what came before (`chainEnc_append`, `chainDec_append`): the result does
  not depend on where a stream is cut.
* **Chunks.** `inChunks f carry` processes chunks one by one, each started from a symbol that
  `carry` finds in what has gone in and come out so far. It gives what the whole stream gives
  exactly if, at every cut, the symbol found is the right one (`inChunks_eq_iff_cuts`).
  `chainEnc_inChunks_iff` and `chainDec_inChunks_iff` say when chaining survives the wrong choice.
* **Rings.** `ringPut B f w xs` is the array `f` after `xs` has been stored from index `w` on,
  going round at `B`. `Holds B f log lo` says that the array shows the stream `log` from position
  `lo` to its end, position `k` in cell `k % B`. Storing a chunk extends the stream
  (`Holds.append`) as long as the window `lo … end` is no longer than the array.
-/

namespace Comp3301.Lib

variable {α : Type}

/-! ## Chaining -/

section chain

variable (mix : α → α → α)

/-- Mix each symbol with the previous result. -/
def chainEnc : α → List α → List α
  | _, [] => []
  | prev, x :: xs => mix x prev :: chainEnc (mix x prev) xs

/-- Mix each symbol with the previous symbol. -/
def chainDec : α → List α → List α
  | _, [] => []
  | prev, x :: xs => mix x prev :: chainDec x xs

@[simp] lemma length_chainEnc (prev : α) (xs : List α) :
    (chainEnc mix prev xs).length = xs.length := by
  induction xs generalizing prev with
  | nil => rfl
  | cons x xs ih => simp [chainEnc, ih]

@[simp] lemma length_chainDec (prev : α) (xs : List α) :
    (chainDec mix prev xs).length = xs.length := by
  induction xs generalizing prev with
  | nil => rfl
  | cons x xs ih => simp [chainDec, ih]

/-- Decoding undoes encoding. -/
theorem chainDec_chainEnc (hmix : ∀ a b, mix (mix a b) b = a) (prev : α) (xs : List α) :
    chainDec mix prev (chainEnc mix prev xs) = xs := by
  induction xs generalizing prev with
  | nil => rfl
  | cons x xs ih => rw [chainEnc, chainDec, hmix, ih]

/-- Encoding chunk by chunk: the second chunk starts from the last result of the first. -/
theorem chainEnc_append (prev : α) (xs ys : List α) :
    chainEnc mix prev (xs ++ ys) =
      chainEnc mix prev xs ++ chainEnc mix ((chainEnc mix prev xs).getLastD prev) ys := by
  induction xs generalizing prev with
  | nil => rfl
  | cons x xs ih =>
      rw [List.cons_append, chainEnc, ih, chainEnc, List.getLastD_cons, List.cons_append]

/-- Decoding chunk by chunk: the second chunk starts from the last symbol of the first. -/
theorem chainDec_append (prev : α) (xs ys : List α) :
    chainDec mix prev (xs ++ ys) =
      chainDec mix prev xs ++ chainDec mix (xs.getLastD prev) ys := by
  induction xs generalizing prev with
  | nil => rfl
  | cons x xs ih =>
      rw [List.cons_append, chainDec, ih, chainDec, List.getLastD_cons, List.cons_append]

/-- Decoding an initial segment gives an initial segment. -/
theorem chainDec_take (prev : α) (xs : List α) (n : ℕ) :
    chainDec mix prev (xs.take n) = (chainDec mix prev xs).take n := by
  induction xs generalizing prev n with
  | nil => simp [chainDec]
  | cons x xs ih =>
      cases n with
      | zero => rfl
      | succ n => rw [List.take_succ_cons, chainDec, chainDec, List.take_succ_cons, ih]

/-- The last symbol that encoding gives is all symbols mixed into the start. -/
lemma getLastD_chainEnc (prev : α) (xs : List α) :
    (chainEnc mix prev xs).getLastD prev = xs.foldl (fun acc x => mix x acc) prev := by
  induction xs generalizing prev with
  | nil => rfl
  | cons x xs ih => rw [chainEnc, List.getLastD_cons, ih, List.foldl_cons]

end chain

/-! ## Chunks -/

section chunks

variable (f : α → List α → List α) (carry : List α → List α → α)

/-- What has come out after the chunks, where `inp` has gone in and `out` has come out before. Each
chunk is started from a symbol that `carry` finds in what has gone in and come out so far. -/
def inChunks : List α → List α → List (List α) → List α
  | _, out, [] => out
  | inp, out, c :: cs => inChunks (inp ++ c) (out ++ f (carry inp out) c) cs

/-- `front` is what has gone in at a place where the chunks cut the stream in two. -/
def IsCut (cs : List (List α)) (front : List α) : Prop :=
  ∃ pre post, cs = pre ++ post ∧ front = pre.flatten ∧ front ≠ [] ∧ post.flatten ≠ []

variable {f carry}

/-- What has come out stays. -/
lemma prefix_inChunks (inp out : List α) (cs : List (List α)) :
    out <+: inChunks f carry inp out cs := by
  induction cs generalizing inp out with
  | nil => exact List.prefix_rfl
  | cons c cs ih => exact (List.prefix_append out _).trans (ih _ _)

/-- The transformation `F` of a stream can be taken up behind `xs`, by starting `f` from
`right xs`. -/
structure TakesUp (F : List α → List α) (f : α → List α → List α) (right : List α → α) :
    Prop where
  length_eq : ∀ p xs, (f p xs).length = xs.length
  start_inj : ∀ {p q x xs}, f p (x :: xs) = f q (x :: xs) → p = q
  append : ∀ xs ys, F (xs ++ ys) = F xs ++ f (right xs) ys

section takesUp

variable {F : List α → List α} {right : List α → α}

/-- A symbol is carried over properly at every place with something behind it. -/
lemma carries_cons_iff {P : List α → Prop} (inp c : List α) (cs : List (List α)) :
    (∀ pre post, c :: cs = pre ++ post → post.flatten ≠ [] → P (inp ++ pre.flatten)) ↔
      ((c :: cs).flatten ≠ [] → P inp) ∧
        ∀ pre post, cs = pre ++ post → post.flatten ≠ [] → P (inp ++ c ++ pre.flatten) := by
  constructor
  · intro h
    refine ⟨fun hne => ?_, fun pre post hcs hpost => ?_⟩
    · have hfirst := h [] (c :: cs) rfl hne
      rwa [List.flatten_nil, List.append_nil] at hfirst
    · have hlater := h (c :: pre) post (by rw [hcs, List.cons_append]) hpost
      rwa [List.flatten_cons, ← List.append_assoc] at hlater
  · rintro ⟨hfirst, hlater⟩ pre post hcs hpost
    cases pre with
    | nil =>
        rw [List.flatten_nil, List.append_nil]
        exact hfirst (by rw [hcs]; exact hpost)
    | cons d pre =>
        rw [List.cons_append] at hcs
        obtain ⟨rfl, rfl⟩ := List.cons.inj hcs
        rw [List.flatten_cons, ← List.append_assoc]
        exact hlater pre post rfl hpost

/-- A chunk that is started from a wrong symbol comes out wrong. -/
lemma TakesUp.start_eq (h : TakesUp F f right) {inp : List α} {p x : α} {xs ys zs : List α}
    (hbegins : F inp ++ f p (x :: xs) <+: zs) (hzs : zs = F (inp ++ (x :: xs) ++ ys)) :
    p = right inp := by
  have hwhole : F inp ++ f (right inp) (x :: xs) <+: zs := by
    rw [hzs, h.append (inp ++ _), ← h.append]
    exact List.prefix_append _ _
  have heq := List.prefix_of_prefix_length_le hbegins hwhole (by simp [h.length_eq])
  have hsame := heq.eq_of_length (by simp [h.length_eq])
  exact h.start_inj (List.append_cancel_left hsame)

/-- The chunks give what the whole stream gives if and only if the right symbol is carried over at
every place with something behind it. -/
theorem inChunks_eq_iff_carry (h : TakesUp F f right) (inp : List α) (cs : List (List α)) :
    inChunks f carry inp (F inp) cs = F (inp ++ cs.flatten) ↔
      ∀ pre post, cs = pre ++ post → post.flatten ≠ [] →
        carry (inp ++ pre.flatten) (F (inp ++ pre.flatten)) = right (inp ++ pre.flatten) := by
  induction cs generalizing inp with
  | nil =>
      refine iff_of_true (by rw [inChunks, List.flatten_nil, List.append_nil]) ?_
      intro pre post hcs hpost
      obtain ⟨rfl, rfl⟩ := List.append_eq_nil_iff.mp hcs.symm
      exact absurd rfl hpost
  | cons c cs ih =>
      rw [carries_cons_iff (P := fun inp => carry inp (F inp) = right inp), inChunks]
      cases c with
      | nil =>
          -- nothing goes in: the place in front of the chunk is the place behind it
          have hnothing : f (carry inp (F inp)) [] = [] := by
            rw [← List.length_eq_zero_iff, h.length_eq]
            rfl
          rw [hnothing, List.append_nil, List.append_nil, List.flatten_cons, List.nil_append, ih]
          refine ⟨fun hall => ⟨fun hne => ?_, hall⟩, fun hall => hall.2⟩
          have hfirst := hall [] cs rfl hne
          rwa [List.flatten_nil, List.append_nil] at hfirst
      | cons x xs =>
          rw [List.flatten_cons, ← List.append_assoc]
          by_cases hcarry : carry inp (F inp) = right inp
          · rw [hcarry, ← h.append, ih]
            exact (and_iff_right fun _ => rfl).symm
          · refine iff_of_false (fun heq => hcarry ?_) (fun hall => hcarry (hall.1 (by simp)))
            exact h.start_eq (prefix_inChunks _ _ cs) heq

/-- The chunks give what the whole stream gives if and only if the right symbol is carried over at
every cut. -/
theorem inChunks_eq_iff_cuts (h : TakesUp F f right) (hF : F [] = [])
    (hstart : carry [] [] = right []) (cs : List (List α)) :
    inChunks f carry [] [] cs = F cs.flatten ↔
      ∀ front, IsCut cs front → carry front (F front) = right front := by
  have hiff : inChunks f carry [] (F []) cs = F ([] ++ cs.flatten) ↔ _ :=
    inChunks_eq_iff_carry h [] cs
  simp only [List.nil_append, hF] at hiff
  rw [hiff]
  constructor
  · rintro hall front ⟨pre, post, hcs, rfl, -, hpost⟩
    exact hall pre post hcs hpost
  · intro hall pre post hcs hpost
    by_cases hpre : pre.flatten = []
    · rw [hpre, hF]
      exact hstart
    · exact hall _ ⟨pre, post, hcs, rfl, hpre, hpost⟩

/-- Two chunks have one cut at most. -/
lemma IsCut.pair {c d front : List α} (h : IsCut [c, d] front) : front = c := by
  obtain ⟨pre, post, hcs, rfl, hne, hpost⟩ := h
  match pre, hcs with
  | [], _ => exact absurd rfl hne
  | [_], hcs =>
      obtain ⟨rfl, -⟩ := List.cons.inj hcs
      rw [List.flatten_cons, List.flatten_nil, List.append_nil]
  | _ :: _ :: pre, hcs =>
      have hnil := (List.cons.inj (List.cons.inj hcs).2).2
      rw [(List.append_eq_nil_iff.mp hnil.symm).2] at hpost
      exact absurd rfl hpost

/-- The cut between two chunks. -/
lemma isCut_pair {c d : List α} (hc : c ≠ []) (hd : d ≠ []) : IsCut [c, d] c :=
  ⟨[c], [d], rfl, by simp, hc, by simpa using hd⟩

end takesUp

section instances

variable (mix : α → α → α) (hinj : ∀ x, Function.Injective (mix x)) (key : α)
include hinj

/-- Encoding is taken up from the last result. -/
lemma takesUp_chainEnc : TakesUp (chainEnc mix key) (chainEnc mix)
    fun xs => (chainEnc mix key xs).getLastD key where
  length_eq := length_chainEnc mix
  start_inj h := hinj _ (List.cons.inj h).1
  append := chainEnc_append mix key

/-- Decoding is taken up from the last symbol. -/
lemma takesUp_chainDec : TakesUp (chainDec mix key) (chainDec mix)
    fun xs => xs.getLastD key where
  length_eq := length_chainDec mix
  start_inj h := hinj _ (List.cons.inj h).1
  append := chainDec_append mix key

/-- Encoding in chunks where the last *symbol* is carried over. -/
theorem chainEnc_inChunks_iff (cs : List (List α)) :
    inChunks (chainEnc mix) (fun inp _ => inp.getLastD key) [] [] cs =
        chainEnc mix key cs.flatten ↔
      ∀ front, IsCut cs front →
        mix (front.getLastD key) (front.dropLast.foldl (fun acc x => mix x acc) key) =
          front.getLastD key := by
  rw [inChunks_eq_iff_cuts (takesUp_chainEnc mix hinj key) rfl rfl]
  refine forall₂_congr fun front hcut => ?_
  obtain ⟨-, -, -, -, hne, -⟩ := hcut
  obtain rfl | ⟨ys, y, rfl⟩ := List.eq_nil_or_concat front
  · exact absurd rfl hne
  · rw [getLastD_chainEnc, List.concat_eq_append, List.dropLast_concat, List.getLastD_concat,
      List.foldl_append, List.foldl_cons, List.foldl_nil, eq_comm]

/-- Decoding in chunks where the last *result* is carried over. -/
theorem chainDec_inChunks_iff (cs : List (List α)) :
    inChunks (chainDec mix) (fun _ out => out.getLastD key) [] [] cs =
        chainDec mix key cs.flatten ↔
      ∀ front, IsCut cs front →
        mix (front.getLastD key) (front.dropLast.getLastD key) = front.getLastD key := by
  rw [inChunks_eq_iff_cuts (takesUp_chainDec mix hinj key) rfl rfl]
  refine forall₂_congr fun front hcut => ?_
  obtain ⟨-, -, -, -, hne, -⟩ := hcut
  obtain rfl | ⟨ys, y, rfl⟩ := List.eq_nil_or_concat front
  · exact absurd rfl hne
  · rw [List.concat_eq_append, chainDec_append, chainDec, chainDec, List.getLastD_concat,
      List.dropLast_concat, List.getLastD_concat]

end instances

end chunks

/-! ## Rings -/

/-- The array `f` after `xs` has been stored from cell `w` on, going round at `B`. -/
def ringPut (B : ℕ) (f : ℕ → α) (w : ℕ) (xs : List α) (k : ℕ) : α :=
  if k < B then (xs[(k + B - w) % B]?).getD (f k) else f k

section ring

variable {B w : ℕ} {f : ℕ → α} {xs : List α}

/-- The distance from `w` to the `i`-th cell behind it, going round, is `i`. -/
lemma ring_distance (hw : w < B) {i : ℕ} (hi : i < B) : ((w + i) % B + B - w) % B = i := by
  rcases Nat.lt_or_ge (w + i) B with h | h
  · rw [Nat.mod_eq_of_lt h, show w + i + B - w = i + B by omega, Nat.add_mod_right,
      Nat.mod_eq_of_lt hi]
  · have hcell : (w + i) % B = w + i - B := by
      rw [Nat.mod_eq_sub_mod h, Nat.mod_eq_of_lt (by omega)]
    rw [hcell, show w + i - B + B - w = i by omega, Nat.mod_eq_of_lt hi]

/-- The `i`-th symbol goes to the `i`-th cell behind `w`. -/
lemma ringPut_of_lt (hw : w < B) (hxs : xs.length ≤ B) {i : ℕ} (hi : i < xs.length) :
    ringPut B f w xs ((w + i) % B) = xs[i] := by
  have hiB : i < B := by omega
  unfold ringPut
  rw [if_pos (Nat.mod_lt _ (by omega)), ring_distance hw hiB, List.getElem?_eq_getElem hi]
  rfl

/-- A cell behind the stored symbols keeps its value. -/
lemma ringPut_of_ge (hw : w < B) {i : ℕ} (hi : xs.length ≤ i) (hiB : i < B) :
    ringPut B f w xs ((w + i) % B) = f ((w + i) % B) := by
  unfold ringPut
  rw [if_pos (Nat.mod_lt _ (by omega)), ring_distance hw hiB, List.getElem?_eq_none hi]
  rfl

/-- Cells outside the ring keep their values. -/
lemma ringPut_of_not_lt {k : ℕ} (hk : ¬ k < B) : ringPut B f w xs k = f k := if_neg hk

/-- What cell `k` of the ring holds after the first `n` cells of `g` have been stored. -/
lemma ringPut_slice {g : ℕ → α} {n k : ℕ} (hw : w < B) (hk : k < B) :
    ringPut B f w (slice g 0 n) k =
      if w ≤ k then if k - w < n then g (k - w) else f k
      else if k + B - w < n then g (k + B - w) else f k := by
  have hdist : (k + B - w) % B = if w ≤ k then k - w else k + B - w := by
    split_ifs with h
    · rw [show k + B - w = k - w + B by omega, Nat.add_mod_right, Nat.mod_eq_of_lt (by omega)]
    · exact Nat.mod_eq_of_lt (by omega)
  unfold ringPut
  rw [if_pos hk, hdist, getElem?_slice, Nat.zero_add]
  split_ifs <;> rfl

/-- Storing up to the end of the ring is one copy. -/
lemma blit_eq_ringPut {g : ℕ → α} {n : ℕ} (hw : w < B) (hfit : w + n ≤ B) :
    blit f w n g = ringPut B f w (slice g 0 n) := by
  funext k
  by_cases hk : k < B
  · rw [ringPut_slice hw hk]
    unfold blit
    split_ifs <;> first | rfl | omega
  · rw [ringPut_of_not_lt hk]
    exact if_neg (by omega)

/-- Storing past the end of the ring is two copies. -/
lemma blit_blit_eq_ringPut {g : ℕ → α} {n : ℕ} (hw : w < B) (hn : n ≤ B) (hwrap : B < w + n) :
    blit (blit f w (B - w) g) 0 (w + n - B) (fun k => g (B - w + k)) =
      ringPut B f w (slice g 0 n) := by
  funext k
  by_cases hk : k < B
  · rw [ringPut_slice hw hk]
    unfold blit
    rcases Nat.lt_or_ge k (w + n - B) with h | h
    · rw [if_pos ⟨Nat.zero_le k, by omega⟩, if_neg (by omega), if_pos (by omega)]
      exact congrArg g (by omega)
    · rw [if_neg (by omega)]
      split_ifs <;> first | rfl | omega
  · rw [ringPut_of_not_lt hk]
    unfold blit
    rw [if_neg (by omega), if_neg (by omega)]

end ring

/-- The ring `f` of size `B` shows the stream `log` from position `lo` on. -/
def Holds (B : ℕ) (f : ℕ → α) (log : List α) (lo : ℕ) : Prop :=
  ∀ k (hk : k < log.length), lo ≤ k → f (k % B) = log[k]

namespace Holds

variable {B lo : ℕ} {f : ℕ → α} {log : List α}

/-- A later start needs less. -/
lemma mono (h : Holds B f log lo) {lo' : ℕ} (hlo : lo ≤ lo') : Holds B f log lo' :=
  fun k hk hle => h k hk (hlo.trans hle)

/-- Storing a chunk behind the end of the stream extends the stream, when the window from `lo` to
the new end fits into the ring. -/
theorem append (h : Holds B f log lo) (hB : 0 < B) (xs : List α)
    (hlo : lo ≤ log.length) (hfit : log.length + xs.length ≤ lo + B) :
    Holds B (ringPut B f (log.length % B) xs) (log ++ xs) lo := by
  intro k hk hle
  have hw : log.length % B < B := Nat.mod_lt _ hB
  rcases Nat.lt_or_ge k log.length with hold | hnew
  · -- an old position: its cell lies `k + B - log.length` behind the end of the stream
    have hcell : k % B = (log.length % B + (k + B - log.length)) % B := by
      rw [Nat.mod_add_mod, show log.length + (k + B - log.length) = k + B by omega,
        Nat.add_mod_right]
    rw [List.getElem_append_left hold, ← h k hold hle, hcell]
    exact ringPut_of_ge hw (by omega) (by omega)
  · have hcell : k % B = (log.length % B + (k - log.length)) % B := by
      rw [Nat.mod_add_mod, show log.length + (k - log.length) = k by omega]
    have hlen : k - log.length < xs.length := by
      rw [List.length_append] at hk
      omega
    rw [List.getElem_append_right hnew, hcell]
    exact ringPut_of_lt hw (by omega) hlen

/-- Reading `n` consecutive cells from position `p` on, without going round, shows the stream. -/
theorem slice_eq (h : Holds B f log lo) {p n : ℕ} (hlo : lo ≤ p) (hend : p + n ≤ log.length)
    (hcross : p % B + n ≤ B) : slice f (p % B) n = (log.drop p).take n := by
  have hlen : n = ((log.drop p).take n).length := by
    rw [List.length_take, List.length_drop]
    omega
  conv_lhs => rw [hlen]
  apply slice_eq_of_getElem
  intro k hk
  have hkn : k < n := by omega
  have hcell : p % B + k = (p + k) % B := by
    rw [← Nat.mod_add_mod, Nat.mod_eq_of_lt (a := p % B + k) (by omega)]
  rw [hcell, h (p + k) (by omega) (by omega), List.getElem_take, List.getElem_drop]

end Holds

end Comp3301.Lib
