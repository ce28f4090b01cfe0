import Mathlib.Data.List.Cycle
import Mathlib.Tactic

/-!
# Circular doubly linked lists, and loops that walk them

* `IsRing next prev l`: the nodes of `l` are distinct, and the links `next` and `prev` lead round
  `l` in order (`Cycle.Chain`). Where the list starts does not matter (`IsRing.rotate`). Taking out
  a node by redirecting the links of its neighbours leaves the ring without it (`IsRing.unlink`);
  a new node is put in behind another one in the same way (`IsRing.link`).
* A walk from a node `head` that stops when it would come back to `head` visits the list once
  (`IsRing.steps`). `forWalk` is a loop over such a walk, `findWalk` one that is left early; both
  are given a number of rounds and are `none` when it does not suffice. Round a ring they are the
  `foldl` and the `find?` of the list (`forWalk_eq_foldl`, `findWalk_eq_find`).
-/

namespace Comp3301.Lib

variable {ι : Type}

/-! ## Rings -/

/-- `b` comes behind `a`. -/
def Linked (next prev : ι → Option ι) (a b : ι) : Prop := next a = some b ∧ prev b = some a

/-- The links lead round the list. -/
structure IsRing (next prev : ι → Option ι) (l : List ι) : Prop where
  nodup : l.Nodup
  chain : Cycle.Chain (Linked next prev) (l : Cycle ι)

/-- The walk visits the list in order and then ends. -/
def Steps (walk : ι → Option ι) : List ι → Prop
  | [] => True
  | c :: l => walk c = l.head? ∧ Steps walk l

/-- The walk that ends before it comes back to `head`. -/
def walkNext [DecidableEq ι] (next : ι → Option ι) (head : Option ι) (c : ι) : Option ι :=
  if next c = head then none else next c

namespace IsRing

variable {next prev : ι → Option ι} {l : List ι}

/-- A ring can be entered anywhere. -/
lemma rotate (h : IsRing next prev l) {l' : List ι} (hl : l ~r l') : IsRing next prev l' where
  nodup := hl.nodup_iff.mp h.nodup
  chain := by
    rw [← Cycle.coe_eq_coe.mpr hl]
    exact h.chain

/-- A walk from the first node visits the ring once. -/
theorem steps [DecidableEq ι] (h : IsRing next prev l) : Steps (walkNext next l.head?) l := by
  rcases l with _ | ⟨a, l⟩
  · trivial
  · have hchain := (Cycle.chain_coe_cons _ a l).mp h.chain
    have hnot : a ∉ l := (List.nodup_cons.mp h.nodup).1
    rw [List.head?_cons]
    -- along the list from any node `c` on, which need not be the first
    suffices hsuf : ∀ (m : List ι) (c : ι), List.IsChain (Linked next prev) (c :: (m ++ [a])) →
        a ∉ m → Steps (walkNext next (some a)) (c :: m) from hsuf l a hchain hnot
    intro m
    induction m with
    | nil =>
        intro c hc _
        have hlink := (List.isChain_cons_cons.mp hc).1
        exact ⟨if_pos hlink.1, trivial⟩
    | cons b m ih =>
        intro c hc hm
        obtain ⟨hlink, hrest⟩ := List.isChain_cons_cons.mp hc
        have hne : b ≠ a := fun hb => hm (by simp [hb])
        refine ⟨?_, ih b hrest fun hmem => hm (List.mem_cons_of_mem b hmem)⟩
        unfold walkNext
        rw [hlink.1, if_neg (by simpa using hne)]
        rfl

/-- Along a list neither the `next` of its last node nor the `prev` of its first is used. -/
lemma isChain_redirect [DecidableEq ι] {n p : ι} {m : List ι} {x y : Option ι}
    (hnodup : (n :: m).Nodup) (hp : (n :: m).getLast? = some p)
    (hchain : List.IsChain (Linked next prev) (n :: m)) :
    List.IsChain (Linked (Function.update next p x) (Function.update prev n y)) (n :: m) := by
  rw [List.isChain_iff_forall_rel_of_append_cons_cons] at hchain ⊢
  intro a b l₁ l₂ hl
  have hap : a ≠ p := by
    rintro rfl
    rw [hl, List.getLast?_append_of_ne_nil _ (List.cons_ne_nil _ _), List.getLast?_cons_cons] at hp
    rw [hl] at hnodup
    have ha := (List.nodup_cons.mp (List.nodup_append.mp hnodup).2.1).1
    exact ha (List.mem_of_getLast? hp)
  have hbn : b ≠ n := by
    rintro rfl
    rcases l₁ with _ | ⟨c, l₁⟩
    · obtain ⟨rfl, rfl⟩ := List.cons.inj hl
      simp at hnodup
    · obtain ⟨rfl, rfl⟩ := List.cons.inj hl
      simp at hnodup
  unfold Linked
  rw [Function.update_of_ne hap, Function.update_of_ne hbn]
  exact hchain hl

/-- The ring entered at one of its nodes. -/
lemma enter {pre post : List ι} {c : ι} (h : IsRing next prev (pre ++ c :: post)) :
    IsRing next prev (c :: (post ++ pre)) := by
  apply h.rotate
  rw [← List.cons_append]
  exact List.isRotated_append

/-- What a node of a ring of at least two is linked to, and the ring without it. -/
theorem unlink [DecidableEq ι] {pre post : List ι} {c : ι}
    (h : IsRing next prev (pre ++ c :: post)) (hne : pre ++ post ≠ []) :
    ∃ p n, prev c = some p ∧ next c = some n ∧ p ≠ c ∧ n ≠ c ∧ (pre = [] → post.head? = some n) ∧
      IsRing (Function.update next p (some n)) (Function.update prev n (some p)) (pre ++ post) := by
  obtain ⟨hnodup, hchain⟩ := h.enter
  have hnot : c ∉ post ++ pre := (List.nodup_cons.mp hnodup).1
  have hback : (post ++ pre) ~r (pre ++ post) := List.isRotated_append
  have hmne : post ++ pre ≠ [] := by
    intro hnil
    simp only [List.append_eq_nil_iff] at hnil
    exact hne (by simp [hnil])
  obtain ⟨n, m, hm⟩ := List.exists_cons_of_ne_nil hmne
  obtain ⟨p, hp⟩ : ∃ p, (post ++ pre).getLast? = some p :=
    ⟨_, List.getLast?_eq_some_getLast hmne⟩
  have hpmem : p ∈ post ++ pre := List.mem_of_getLast? hp
  rw [Cycle.chain_coe_cons, List.isChain_cons, List.isChain_append] at hchain
  obtain ⟨hfirst, hmid, -, hlast⟩ := hchain
  have hcn : Linked next prev c n := hfirst n (by simp [hm])
  have hpc : Linked next prev p c := hlast p hp c rfl
  refine ⟨p, n, hpc.2, hcn.1, fun hpc' => hnot (hpc' ▸ hpmem),
    fun hnc => hnot (hnc ▸ by simp [hm]), ?_, ?_⟩
  · intro hpre
    rw [hpre, List.append_nil] at hm
    rw [hm]
    rfl
  refine IsRing.rotate ⟨(List.nodup_cons.mp hnodup).2, ?_⟩ hback
  have hmnodup : (n :: m).Nodup := by
    rw [← hm]
    exact (List.nodup_cons.mp hnodup).2
  rw [hm] at hmid hp ⊢
  rw [Cycle.chain_coe_cons, ← List.cons_append, List.isChain_append]
  refine ⟨?_, List.isChain_singleton n, ?_⟩
  · exact isChain_redirect hmnodup hp hmid
  · rintro x hx y hy
    rw [hp] at hx
    cases hx
    cases hy
    exact ⟨Function.update_self _ _ _, Function.update_self _ _ _⟩

/-- Only the links of the nodes of the ring matter. -/
lemma congr {next' prev' : ι → Option ι} (h : IsRing next prev l)
    (hnext : ∀ c ∈ l, next' c = next c) (hprev : ∀ c ∈ l, prev' c = prev c) :
    IsRing next' prev' l where
  nodup := h.nodup
  chain := by
    rcases l with _ | ⟨a, l⟩
    · trivial
    · have hmem : ∀ c ∈ a :: (l ++ [a]), c ∈ a :: l := by
        intro c hc
        simpa [or_comm] using hc
      rw [Cycle.chain_coe_cons]
      apply ((Cycle.chain_coe_cons _ a l).mp h.chain).imp_of_mem_imp
      intro x y hx hy hxy
      exact ⟨(hnext x (hmem x hx)).trans hxy.1, (hprev y (hmem y hy)).trans hxy.2⟩

/-- A ring of one node. -/
lemma singleton {t : ι} (hnext : next t = some t) (hprev : prev t = some t) :
    IsRing next prev [t] where
  nodup := List.nodup_singleton t
  chain := (Cycle.chain_singleton _ t).mpr ⟨hnext, hprev⟩

/-- The node behind a node, and the one before it. -/
lemma exists_linked {c : ι} (h : IsRing next prev l) (hc : c ∈ l) :
    (∃ n ∈ l, Linked next prev c n) ∧ ∃ p ∈ l, Linked next prev p c := by
  obtain ⟨pre, post, rfl⟩ := List.append_of_mem hc
  have hmem : ∀ x ∈ c :: (post ++ pre), x ∈ pre ++ c :: post := by
    intro x hx
    simp only [List.mem_cons, List.mem_append] at hx ⊢
    tauto
  have hchain := h.enter.chain
  rw [Cycle.chain_coe_cons] at hchain
  constructor
  · rcases hm : post ++ pre with _ | ⟨n, m⟩
    · rw [hm] at hchain
      exact ⟨c, hc, (List.isChain_cons_cons.mp hchain).1⟩
    · rw [hm] at hchain hmem
      exact ⟨n, hmem n (by simp), (List.isChain_cons_cons.mp hchain).1⟩
  · rw [← List.cons_append, List.isChain_append] at hchain
    obtain ⟨p, hp⟩ : ∃ p, (c :: (post ++ pre)).getLast? = some p :=
      ⟨_, List.getLast?_eq_some_getLast (List.cons_ne_nil _ _)⟩
    exact ⟨p, hmem p (List.mem_of_getLast? hp), hchain.2.2 p hp c rfl⟩

lemma next_mem {c n : ι} (h : IsRing next prev l) (hc : c ∈ l) (hn : next c = some n) : n ∈ l := by
  obtain ⟨⟨n', hmem, hlink⟩, -⟩ := h.exists_linked hc
  exact Option.some.inj (hlink.1.symm.trans hn) ▸ hmem

lemma prev_mem {c p : ι} (h : IsRing next prev l) (hc : c ∈ l) (hp : prev c = some p) : p ∈ l := by
  obtain ⟨-, p', hmem, hlink⟩ := h.exists_linked hc
  exact Option.some.inj (hlink.2.symm.trans hp) ▸ hmem

/-- A new node behind a node of the ring. -/
theorem link [DecidableEq ι] {pre post : List ι} {c n t : ι}
    (h : IsRing next prev (pre ++ c :: post)) (ht : t ∉ pre ++ c :: post) (hn : next c = some n) :
    IsRing (Function.update (Function.update next t (some n)) c (some t))
      (Function.update (Function.update prev t (some c)) n (some t)) (pre ++ c :: t :: post) := by
  obtain ⟨hnodup, hchain⟩ := h.enter
  have ht' : t ∉ c :: (post ++ pre) := by
    intro hmem
    simp only [List.mem_cons, List.mem_append] at hmem ht
    tauto
  rw [Cycle.chain_coe_cons] at hchain
  -- the rest of the ring, from the node behind `c` round to `c`
  obtain ⟨n', m, hm⟩ := List.exists_cons_of_ne_nil (List.append_ne_nil_of_right_ne_nil
    (post ++ pre) (List.cons_ne_nil c []))
  rw [hm] at hchain
  obtain ⟨hfirst, hrest⟩ := List.isChain_cons_cons.mp hchain
  obtain rfl : n' = n := Option.some.inj (hfirst.1.symm.trans hn)
  have hmnodup : (n' :: m).Nodup := by
    rw [← hm]
    exact (List.perm_append_singleton c (post ++ pre)).nodup_iff.mpr hnodup
  have hlast : (n' :: m).getLast? = some c := by
    rw [← hm]
    exact List.getLast?_concat
  have hmem : ∀ x ∈ n' :: m, x ≠ t := by
    rintro x hx rfl
    rw [← hm] at hx
    exact ht' ((List.perm_append_singleton c (post ++ pre)).mem_iff.mp hx)
  have hct : c ≠ t := hmem c (List.mem_of_getLast? hlast)
  have hback : (c :: t :: (post ++ pre)) ~r (pre ++ c :: t :: post) := by
    rw [← List.cons_append, ← List.cons_append]
    exact List.isRotated_append
  refine IsRing.rotate ⟨?_, ?_⟩ hback
  · rw [List.nodup_cons] at hnodup ⊢
    simp only [List.mem_cons, not_or] at ht' ⊢
    exact ⟨⟨hct, hnodup.1⟩, List.nodup_cons.mpr ⟨ht'.2, hnodup.2⟩⟩
  · rw [Cycle.chain_coe_cons, List.cons_append, hm, List.isChain_cons_cons,
      List.isChain_cons_cons]
    refine ⟨⟨Function.update_self _ _ _, ?_⟩, ⟨?_, Function.update_self _ _ _⟩, ?_⟩
    · rw [Function.update_of_ne (hmem n' (List.mem_cons_self)).symm, Function.update_self]
    · rw [Function.update_of_ne hct.symm, Function.update_self]
    · apply isChain_redirect hmnodup hlast
      apply hrest.imp_of_mem_imp
      intro x y hx hy hxy
      unfold Linked
      rw [Function.update_of_ne (hmem x hx), Function.update_of_ne (hmem y hy)]
      exact hxy

end IsRing

/-! ## Loops -/

section loops

variable {σ : Type} {walk : ι → Option ι}

/-- `for (c = head; c != NULL; c = next (c)) body (c)`, for at most the given number of rounds. -/
def forWalk (next : σ → ι → Option ι) (body : σ → ι → σ) : ℕ → σ → Option ι → Option σ
  | _, s, none => some s
  | 0, _, some _ => none
  | n + 1, s, some c => forWalk next body n (body s c) (next (body s c) c)

/-- `for (c = head; c != NULL; c = next (c)) if (p (c)) break;`, for at most the given number of
rounds; the result is the node at which the loop is left early. -/
def findWalk (next : ι → Option ι) (p : ι → Prop) [DecidablePred p] :
    ℕ → Option ι → Option (Option ι)
  | _, none => some none
  | 0, some _ => none
  | n + 1, some c => if p c then some (some c) else findWalk next p n (next c)

/-- A loop whose body leaves the links alone is a `foldl`. -/
theorem forWalk_eq_foldl {next : σ → ι → Option ι} {body : σ → ι → σ}
    (hbody : ∀ s c, next (body s c) = next s) {l : List ι} {n : ℕ} (hn : l.length ≤ n) {s : σ}
    (hsteps : Steps (next s) l) : forWalk next body n s l.head? = some (l.foldl body s) := by
  induction l generalizing n s with
  | nil => cases n <;> rfl
  | cons c l ih =>
      obtain ⟨n, rfl⟩ := Nat.exists_eq_succ_of_ne_zero
        (Nat.one_le_iff_ne_zero.mp ((Nat.le_add_left 1 _).trans hn))
      obtain ⟨hc, hl⟩ := hsteps
      rw [List.head?_cons, forWalk, List.foldl_cons]
      rw [← hbody s c] at hc hl
      rw [hc]
      exact ih (Nat.le_of_succ_le_succ hn) hl

/-- A loop that looks for a node is a `find?`. -/
theorem findWalk_eq_find {p : ι → Prop} [DecidablePred p] {l : List ι} {n : ℕ} (hn : l.length ≤ n)
    (hsteps : Steps walk l) : findWalk walk p n l.head? = some (l.find? p) := by
  induction l generalizing n with
  | nil => cases n <;> rfl
  | cons c l ih =>
      obtain ⟨n, rfl⟩ := Nat.exists_eq_succ_of_ne_zero
        (Nat.one_le_iff_ne_zero.mp ((Nat.le_add_left 1 _).trans hn))
      obtain ⟨hc, hl⟩ := hsteps
      rw [List.head?_cons, findWalk]
      by_cases hp : p c
      · rw [if_pos hp, List.find?_cons_of_pos (by simpa using hp)]
      · rw [if_neg hp, List.find?_cons_of_neg (by simpa using hp), hc]
        exact ih (Nat.le_of_succ_le_succ hn) hl

/-- More rounds do not change what a loop finds. -/
lemma findWalk_mono {p : ι → Prop} [DecidablePred p] {n m : ℕ} (hnm : n ≤ m) {c : Option ι}
    {res : Option ι} (h : findWalk walk p n c = some res) : findWalk walk p m c = some res := by
  induction n generalizing m c with
  | zero =>
      cases c with
      | none => cases m <;> exact h
      | some c => cases h
  | succ n ih =>
      obtain ⟨m, rfl⟩ := Nat.exists_eq_succ_of_ne_zero (Nat.ne_zero_of_lt hnm)
      cases c with
      | none => exact h
      | some c =>
          rw [findWalk] at h ⊢
          split_ifs at h ⊢ with hp
          · exact h
          · exact ih (Nat.le_of_succ_le_succ hnm) h

end loops

end Comp3301.Lib
