import Mathlib.Tactic

/-!
# Search trees

Binary trees that are searched by a comparison `cmp`: it says of an element whether the place that
is looked for lies before the element (`lt`), behind it (`gt`) or at it (`eq`).

* `lastVisited cmp t` is the element where the descent ends, and `link cmp x t` hangs a
  new element in where it falls off the tree; it is `none` if the descent meets an element at the
  place.
* `Directs cmp xs`: the elements of the list lie in the order of the comparison. The descent then
  ends next to the place (`lastVisited_spec`), and a new element gets in at the place
  (`link_spec`), whatever the shape of the tree.
* `after`, `before`: the neighbours of an element in a list without repetitions.
-/

namespace Comp3301.Lib

open BinaryTree

variable {α : Type}

/-- The elements from left to right. -/
def inorder : BinaryTree α → List α
  | nil => []
  | node a l r => inorder l ++ a :: inorder r

/-- The element where the descent ends. -/
def lastVisited (cmp : α → Ordering) : BinaryTree α → Option α
  | nil => none
  | node a l r =>
      match cmp a with
      | .lt => some ((lastVisited cmp l).getD a)
      | .gt => some ((lastVisited cmp r).getD a)
      | .eq => some a

/-- A new leaf where the descent falls off the tree. -/
def link (cmp : α → Ordering) (x : α) : BinaryTree α → Option (BinaryTree α)
  | nil => some (node x nil nil)
  | node a l r =>
      match cmp a with
      | .lt => (link cmp x l).map fun l' => node a l' r
      | .gt => (link cmp x r).map fun r' => node a l r'
      | .eq => none

/-- The elements lie in the order of the comparison: a place that is not behind one of them lies
before all that follow. -/
def Directs (cmp : α → Ordering) (xs : List α) : Prop :=
  xs.Pairwise fun a b => cmp a ≠ .gt → cmp b = .lt

/-- A list is cut at a place. -/
def Cut (cmp : α → Ordering) (pre post : List α) : Prop :=
  (∀ b ∈ pre, cmp b = .gt) ∧ ∀ b ∈ post, cmp b = .lt

namespace Directs

variable {cmp : α → Ordering} {pre post : List α} {a : α}

/-- The elements around one that the place does not lie behind. -/
lemma lt_of_mem_post (h : Directs cmp (pre ++ a :: post)) (ha : cmp a ≠ .gt) :
    ∀ b ∈ post, cmp b = .lt :=
  fun _ hb => List.rel_of_pairwise_cons (List.pairwise_append.mp h).2.1 hb ha

lemma gt_of_mem_pre (h : Directs cmp (pre ++ a :: post)) (ha : cmp a ≠ .lt) :
    ∀ b ∈ pre, cmp b = .gt := by
  intro b hb
  by_contra hne
  exact ha ((List.pairwise_append.mp h).2.2 b hb a List.mem_cons_self hne)

end Directs

section trees

variable {cmp : α → Ordering} {t : BinaryTree α} {a x : α}

lemma lastVisited_eq_none (h : lastVisited cmp t = none) : t = nil := by
  match t, h with
  | nil, _ => rfl
  | node b l r, h =>
      rw [lastVisited] at h
      rcases hcmp : cmp b <;> rw [hcmp] at h <;> cases h

/-- **The descent ends next to the place.** -/
theorem lastVisited_spec (h : Directs cmp (inorder t)) (hlast : lastVisited cmp t = some a) :
    ∃ pre post, inorder t = pre ++ a :: post ∧ Cut cmp pre post := by
  induction t generalizing a with
  | nil => cases hlast
  | node b l r ihl ihr =>
      have hparts := List.pairwise_append.mp h
      rw [lastVisited] at hlast
      rcases hcmp : cmp b with _ | _ | _
      · -- the place lies before `b`, so it lies before everything to the right
        have hpost := Directs.lt_of_mem_post h (by rw [hcmp]; decide)
        rw [hcmp] at hlast
        simp only [Option.some.injEq] at hlast
        rcases hl : lastVisited cmp l with _ | c
        · rw [hl, Option.getD_none] at hlast
          obtain rfl := lastVisited_eq_none hl
          exact hlast ▸ ⟨[], inorder r, rfl, by simp, hpost⟩
        · rw [hl, Option.getD_some] at hlast
          obtain rfl := hlast
          obtain ⟨pre, post, heq, hpre, hpost'⟩ := ihl hparts.1 hl
          refine ⟨pre, post ++ b :: inorder r, ?_, hpre, ?_⟩
          · rw [inorder, heq, List.append_assoc, List.cons_append]
          · intro c hc
            rcases List.mem_append.mp hc with hc | hc
            · exact hpost' c hc
            · rcases List.mem_cons.mp hc with rfl | hc
              · exact hcmp
              · exact hpost c hc
      · have hne : cmp b ≠ .gt := by rw [hcmp]; decide
        have hne' : cmp b ≠ .lt := by rw [hcmp]; decide
        rw [hcmp] at hlast
        obtain rfl := Option.some.inj hlast
        exact ⟨inorder l, inorder r, rfl, Directs.gt_of_mem_pre h hne',
          Directs.lt_of_mem_post h hne⟩
      · have hpre := Directs.gt_of_mem_pre h (by rw [hcmp]; decide)
        rw [hcmp] at hlast
        simp only [Option.some.injEq] at hlast
        rcases hr : lastVisited cmp r with _ | c
        · rw [hr, Option.getD_none] at hlast
          obtain rfl := lastVisited_eq_none hr
          exact hlast ▸ ⟨inorder l, [], rfl, hpre, by simp⟩
        · rw [hr, Option.getD_some] at hlast
          obtain rfl := hlast
          obtain ⟨pre, post, heq, hpre', hpost⟩ :=
            ihr (List.Pairwise.of_cons hparts.2.1) hr
          refine ⟨inorder l ++ b :: pre, post, ?_, ?_, hpost⟩
          · rw [inorder, heq, List.append_assoc, List.cons_append]
          · intro c hc
            rcases List.mem_append.mp hc with hc | hc
            · exact hpre c hc
            · rcases List.mem_cons.mp hc with rfl | hc
              · exact hcmp
              · exact hpre' c hc

/-- **A new element gets in at its place.** -/
theorem link_spec (h : Directs cmp (inorder t)) (hne : ∀ b ∈ inorder t, cmp b ≠ .eq) (x : α) :
    ∃ t' pre post, link cmp x t = some t' ∧ inorder t = pre ++ post ∧
      inorder t' = pre ++ x :: post ∧ Cut cmp pre post := by
  induction t with
  | nil => exact ⟨node x nil nil, [], [], rfl, rfl, rfl, by simp, by simp⟩
  | node b l r ihl ihr =>
      have hparts := List.pairwise_append.mp h
      rcases hcmp : cmp b with _ | _ | _
      · obtain ⟨l', pre, post, hl', heq, heq', hpre, hpost⟩ :=
          ihl hparts.1 fun c hc => hne c (List.mem_append_left _ hc)
        refine ⟨node b l' r, pre, post ++ b :: inorder r, ?_, ?_, ?_, hpre, ?_⟩
        · rw [link, hcmp]
          simp only [hl', Option.map_some]
        · rw [inorder, heq, List.append_assoc]
        · rw [inorder, heq', List.append_assoc, List.cons_append]
        · intro c hc
          rcases List.mem_append.mp hc with hc | hc
          · exact hpost c hc
          · rcases List.mem_cons.mp hc with rfl | hc
            · exact hcmp
            · exact Directs.lt_of_mem_post h (by rw [hcmp]; decide) c hc
      · exact absurd hcmp (hne b (List.mem_append_right _ List.mem_cons_self))
      · obtain ⟨r', pre, post, hr', heq, heq', hpre, hpost⟩ :=
          ihr (List.Pairwise.of_cons hparts.2.1) fun c hc =>
            hne c (List.mem_append_right _ (List.mem_cons_of_mem b hc))
        refine ⟨node b l r', inorder l ++ b :: pre, post, ?_, ?_, ?_, ?_, hpost⟩
        · rw [link, hcmp]
          simp only [hr', Option.map_some]
        · rw [inorder, heq, List.append_assoc, List.cons_append]
        · rw [inorder, heq', List.append_assoc, List.cons_append]
        · intro c hc
          rcases List.mem_append.mp hc with hc | hc
          · exact Directs.gt_of_mem_pre h (by rw [hcmp]; decide) c hc
          · rcases List.mem_cons.mp hc with rfl | hc
            · exact hcmp
            · exact hpre c hc

end trees

/-! ## Neighbours -/

section neighbours

variable [DecidableEq α] {pre post xs : List α} {a b : α}

/-- What follows the element in the list. -/
def after (a : α) : List α → List α
  | [] => []
  | x :: xs => if x = a then xs else after a xs

/-- The element that stands before it. -/
def before (a : α) : List α → Option α
  | [] => none
  | [_] => none
  | x :: y :: xs => if y = a then some x else before a (y :: xs)

lemma after_append (ha : a ∉ pre) : after a (pre ++ a :: post) = post := by
  induction pre with
  | nil => rw [List.nil_append, after, if_pos rfl]
  | cons x pre ih =>
      obtain ⟨hne, hpre⟩ := List.ne_and_not_mem_of_not_mem_cons ha
      rw [List.cons_append, after, if_neg (Ne.symm hne), ih hpre]

lemma before_append (ha : a ∉ pre) (hb : b ≠ a) :
    before a (pre ++ b :: a :: post) = some b := by
  induction pre with
  | nil => rw [List.nil_append, before, if_pos rfl]
  | cons x pre ih =>
      obtain ⟨hne, hpre⟩ := List.ne_and_not_mem_of_not_mem_cons ha
      have hrec : before a (x :: (pre ++ b :: a :: post)) = before a (pre ++ b :: a :: post) := by
        rcases pre with _ | ⟨y, pre⟩
        · rw [List.nil_append, before, if_neg hb]
        · rw [List.cons_append, before, if_neg (Ne.symm (List.ne_of_not_mem_cons hpre))]
      rw [List.cons_append, hrec, ih hpre]

end neighbours

end Comp3301.Lib
