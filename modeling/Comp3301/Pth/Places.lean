import Comp3301.Pth.Queues
import Comp3301.Pth.Scheduler

/-!
# Pth: where threads are

* `Inv s l out`: the queues hold the threads of `l`, every thread is in one queue at most and in one
  that admits its state, and the threads in no queue are those of `out`.
* `Total s l`: the total priority of the ready queue is that of its threads, modulo `2 ^ 64`.
* One lemma for each operation on queues: a thread is taken out of a queue and is in `out` then
  (`Inv.deleted`), or is put into one (`Inv.inserted`). Inserting keeps `Total`. Deleting a thread
  of the ready queue keeps it only if the thread adds nothing to the total, that is, if its priority
  is -1.
-/

set_option linter.unusedSectionVars false

namespace Comp3301.Pth

open Comp3301.Lib

variable {Tid : Type} [DecidableEq Tid]

/-! ## The invariant -/

/-- The states of the threads in a queue. -/
def QueueName.Admits : QueueName → State → Prop
  | .nq, state => state = .new
  | .rq, state => state = .ready
  | .wq, state => state = .waiting
  | .sq, state => state ≠ .dead
  | .dq, state => state = .dead

/-- The queues hold the threads of `l`, and `out` are the threads in none. -/
structure Inv (s : Sched Tid) (l : QueueName → List Tid) (out : Set Tid) : Prop where
  holds : ∀ n, Holds s.heap (s.queue n) (l n)
  uniq : ∀ n m t, t ∈ l n → t ∈ l m → n = m
  live : ∀ t, t ∈ s.live ↔ (∃ n, t ∈ l n) ∨ t ∈ out
  apart : ∀ n t, t ∈ l n → t ∉ out
  states : ∀ n t, t ∈ l n → n.Admits (s.status t).state

/-- What operations on queues leave alone. -/
structure Kept (s s' : Sched Tid) : Prop where
  status : s'.status = s.status
  live : s'.live = s.live
  main : s'.main = s.main
  cancels : s'.cancels = s.cancels
  control : s'.control = s.control
  prio : ∀ c, (s'.heap c).prio = (s.heap c).prio

/-- The priorities of the threads, as they are counted. -/
def prioSum (h : Heap Tid) (l : List Tid) : ℤ := (l.map fun c => (h c).prio + 1).sum

/-- The total priority of the ready queue is right. -/
def Total (s : Sched Tid) (l : QueueName → List Tid) : Prop :=
  (s.queue .rq).totalPrio = unsigned 64 (prioSum s.heap (l .rq))

section prio

variable {h h' : Heap Tid} {l l' : List Tid}

lemma prioSum_congr (hprio : ∀ c ∈ l, (h' c).prio = (h c).prio) : prioSum h' l = prioSum h l := by
  unfold prioSum
  congr 1
  apply List.map_congr_left
  intro c hc
  rw [hprio c hc]

lemma prioSum_perm (hperm : l'.Perm l) : prioSum h l' = prioSum h l :=
  (hperm.map _).sum_eq

lemma prioSum_cons (t : Tid) : prioSum h (t :: l) = (h t).prio + 1 + prioSum h l := by
  unfold prioSum
  rw [List.map_cons, List.sum_cons]

/-- Counting one more. -/
lemma unsigned_add (x y : ℤ) : unsigned 64 ((unsigned 64 x : ℤ) + y) = unsigned 64 (y + x) := by
  apply unsigned_congr
  rw [natCast_unsigned, Int.emod_add_emod, add_comm]

/-- Counting one less. -/
lemma unsigned_sub (x y : ℤ) : unsigned 64 ((unsigned 64 x : ℤ) - y) = unsigned 64 (x - y) := by
  apply unsigned_congr
  rw [natCast_unsigned, Int.emod_sub_emod]

end prio

namespace Inv

variable {s s' : Sched Tid} {l l' : QueueName → List Tid} {out out' : Set Tid} {n : QueueName}
  {t : Tid}

lemma length_le (hinv : Inv s l out) (n : QueueName) : (l n).length ≤ s.live.card := by
  rw [← List.toFinset_card_of_nodup (hinv.holds n).ring.nodup]
  apply Finset.card_le_card
  intro t ht
  exact (hinv.live t).mpr (Or.inl ⟨n, List.mem_toFinset.mp ht⟩)

lemma mem_live (hinv : Inv s l out) (ht : t ∈ l n) : t ∈ s.live :=
  (hinv.live t).mpr (Or.inl ⟨n, ht⟩)

lemma contains_eq (hinv : Inv s l out) (n : QueueName) (t : Tid) :
    s.contains n t = some (decide (t ∈ l n)) :=
  Pth.contains_eq (hinv.holds n).toQueue (hinv.length_le n) t

lemma contains_of_mem (hinv : Inv s l out) (ht : t ∈ l n) : s.contains n t = some true := by
  rw [hinv.contains_eq, decide_eq_true ht]

lemma threads_eq (hinv : Inv s l out) (n : QueueName) : s.threads n = some (l n) :=
  Pth.threads_eq (hinv.holds n).toQueue (hinv.length_le n)

/-- The invariant does not depend on control, and on the status only through states. -/
lemma of_eq (hinv : Inv s l out) (hheap : s'.heap = s.heap) (hqueue : s'.queue = s.queue)
    (hlive : s'.live = s.live)
    (hstate : ∀ n, ∀ t ∈ l n, (s'.status t).state = (s.status t).state) : Inv s' l out where
  holds := by
    rw [hheap, hqueue]
    exact hinv.holds
  uniq := hinv.uniq
  live := by
    rw [hlive]
    exact hinv.live
  apart := hinv.apart
  states := by
    intro n t ht
    rw [hstate n t ht]
    exact hinv.states n t ht

/-- `t->state = state` for a thread in no queue. -/
lemma setState (hinv : Inv s l out) (ht : t ∈ out) (state : State) :
    Inv (s.setState t state) l out := by
  refine hinv.of_eq rfl rfl rfl ?_
  intro n c hc
  have hct : c ≠ t := fun hct => hinv.apart n c hc (hct ▸ ht)
  exact congrArg Status.state (Function.update_of_ne hct _ _)

/-- `pth_tcb_free (t)` for a thread in no queue. -/
lemma free (hinv : Inv s l out) (ht : t ∈ out) : Inv (s.free t) l (out \ {t}) where
  holds := hinv.holds
  uniq := hinv.uniq
  live := by
    intro c
    have hnot : ∀ n, t ∉ l n := fun n hn => hinv.apart n t hn ht
    unfold Sched.free
    rw [Finset.mem_erase, hinv.live c, Set.mem_sdiff, Set.mem_singleton_iff]
    constructor
    · rintro ⟨hct, hc | hc⟩
      · exact Or.inl hc
      · exact Or.inr ⟨hc, hct⟩
    · rintro (⟨n, hc⟩ | ⟨hc, hct⟩)
      · exact ⟨fun hct => hnot n (hct ▸ hc), Or.inl ⟨n, hc⟩⟩
      · exact ⟨hct, Or.inr hc⟩
  apart := fun n c hc hout => hinv.apart n c hc hout.1
  states := hinv.states

/-- An operation on queue `n` that has it hold the threads of `k`, touches control blocks in `f`
only, and moves threads between the queue and `out` at most. -/
lemma replace (hinv : Inv s l out) {h' : Heap Tid} {q' : Pqueue Tid} {k f : List Tid}
    (hholds : Holds h' q' k) (hframe : Frame f s.heap h')
    (hclear : ∀ m, m ≠ n → ∀ c ∈ l m, c ∉ f ∧ c ∉ k ∧ c ∉ out')
    (hlive : ∀ c, c ∈ k ∨ c ∈ out' ↔ c ∈ l n ∨ c ∈ out) (hapart : ∀ c ∈ k, c ∉ out')
    (hstates : ∀ c ∈ k, n.Admits (s.status c).state) :
    Inv { s with heap := h', queue := Function.update s.queue n q' } (Function.update l n k)
      out' := by
  refine ⟨?_, ?_, ?_, ?_, ?_⟩
  · intro m
    by_cases hmn : m = n
    · subst hmn
      simp only [Function.update_self]
      exact hholds
    · simp only [Function.update_of_ne hmn]
      exact (hinv.holds m).frame hframe fun c hc => (hclear m hmn c hc).1
  · intro m m' c hc hc'
    by_cases hmn : m = n
    · by_cases hmn' : m' = n
      · exact hmn.trans hmn'.symm
      · subst hmn
        rw [Function.update_self] at hc
        rw [Function.update_of_ne hmn'] at hc'
        exact absurd hc (hclear m' hmn' c hc').2.1
    · rw [Function.update_of_ne hmn] at hc
      by_cases hmn' : m' = n
      · subst hmn'
        rw [Function.update_self] at hc'
        exact absurd hc' (hclear m hmn c hc).2.1
      · rw [Function.update_of_ne hmn'] at hc'
        exact hinv.uniq m m' c hc hc'
  · intro c
    have hbefore : (∃ m, c ∈ l m) ↔ c ∈ l n ∨ ∃ m, m ≠ n ∧ c ∈ l m := by
      conv_lhs => rw [← Function.update_eq_self n l]
      exact Function.exists_update_iff l fun _ lm => c ∈ lm
    have hafter : (∃ m, c ∈ Function.update l n k m) ↔ c ∈ k ∨ ∃ m, m ≠ n ∧ c ∈ l m :=
      Function.exists_update_iff l fun _ lm => c ∈ lm
    have hc₀ := hinv.live c
    rw [hbefore] at hc₀
    rw [hafter]
    exact hc₀.trans (by rw [or_right_comm, ← hlive c, or_right_comm])
  · apply (Function.forall_update_iff l fun _ lm => ∀ c ∈ lm, c ∉ out').mpr
    exact ⟨hapart, fun m hmn c hc => (hclear m hmn c hc).2.2⟩
  · apply (Function.forall_update_iff l fun m lm => ∀ c ∈ lm, m.Admits (s.status c).state).mpr
    exact ⟨hstates, fun m _ => hinv.states m⟩

/-- The total of the ready queue after an operation on queue `n`. -/
lemma total_replace {h' : Heap Tid} {q' : Pqueue Tid} {k : List Tid}
    (hprio : ∀ c, (h' c).prio = (s.heap c).prio)
    (hn : n = .rq → Total s l → q'.totalPrio = unsigned 64 (prioSum s.heap k))
    (h₀ : Total s l) :
    Total { s with heap := h', queue := Function.update s.queue n q' } (Function.update l n k) := by
  unfold Total
  by_cases hrq : n = .rq
  · subst hrq
    simp only [Function.update_self]
    rw [prioSum_congr fun c _ => hprio c]
    exact hn rfl h₀
  · simp only [Function.update_of_ne (Ne.symm hrq)]
    rw [prioSum_congr fun c _ => hprio c]
    exact h₀

/-- `pth_pqueue_insert` for a thread in no queue. -/
theorem inserted (hinv : Inv s l out) (ht : t ∈ out) (hadm : n.Admits (s.status t).state)
    (prio : ℤ) :
    ∃ s' l', s.insert n prio t = some s' ∧ Inv s' l' (out \ {t}) ∧ Kept s s' ∧
      (∀ m, m ≠ n → l' m = l m) ∧ (Total s l → Total s' l') := by
  have hnot : ∀ m, t ∉ l m := fun m hm => hinv.apart m t hm ht
  obtain ⟨h', q', k, hrun, hholds, hperm, hframe, htotal⟩ :=
    insert_spec (hinv.holds n) (hnot n) (hinv.length_le n) prio
  have hmem : ∀ c, c ∈ k ↔ c = t ∨ c ∈ l n := fun c => by rw [hperm.mem_iff, List.mem_cons]
  unfold Sched.insert
  rw [hrun, Option.bind_eq_bind, Option.bind_some]
  refine ⟨_, _, rfl, hinv.replace hholds hframe ?_ ?_ ?_ ?_, ⟨rfl, rfl, rfl, rfl, rfl, hframe.prio⟩,
    fun m hmn => Function.update_of_ne hmn _ _, total_replace hframe.prio ?_⟩
  · intro m hmn c hc
    have hct : c ≠ t := fun hct => hnot m (hct ▸ hc)
    have hcn : c ∉ l n := fun hcn => hmn (hinv.uniq m n c hc hcn)
    rw [hmem, List.mem_cons]
    exact ⟨not_or.mpr ⟨hct, hcn⟩, not_or.mpr ⟨hct, hcn⟩, fun hout => hinv.apart m c hc hout.1⟩
  · intro c
    rw [hmem, Set.mem_sdiff, Set.mem_singleton_iff]
    by_cases hct : c = t
    · subst hct
      simp [ht]
    · simp [hct]
  · intro c hc hout
    rcases (hmem c).mp hc with hct | hcn
    · exact hout.2 hct
    · exact hinv.apart n c hcn hout.1
  · intro c hc
    rcases (hmem c).mp hc with rfl | hcn
    · exact hadm
    · exact hinv.states n c hcn
  · rintro rfl h₀
    rw [htotal, h₀, unsigned_add, prioSum_perm hperm, prioSum_cons]

/-- An operation that takes the thread `t` out of queue `n`. -/
lemma taken (hinv : Inv s l out) {pre post : List Tid} (hl : l n = pre ++ t :: post)
    {h' : Heap Tid} {q' : Pqueue Tid} (hholds : Holds h' q' (pre ++ post))
    (hframe : Frame (l n) s.heap h') :
    Inv { s with heap := h', queue := Function.update s.queue n q' }
      (Function.update l n (pre ++ post)) (out ∪ {t}) := by
  have hperm : (l n).Perm (t :: (pre ++ post)) := by
    rw [hl]
    exact List.perm_middle
  have hmem : ∀ c, c ∈ l n ↔ c = t ∨ c ∈ pre ++ post := fun c => by
    rw [hperm.mem_iff, List.mem_cons]
  have ht : t ∈ l n := (hmem t).mpr (Or.inl rfl)
  have hnot : t ∉ pre ++ post :=
    (List.nodup_cons.mp (hperm.nodup_iff.mp (hinv.holds n).ring.nodup)).1
  refine hinv.replace hholds hframe ?_ ?_ ?_ ?_
  · intro m hmn c hc
    have hcn : c ∉ l n := fun hcn => hmn (hinv.uniq m n c hc hcn)
    have hct : c ≠ t := fun hct => hcn (hct ▸ ht)
    refine ⟨hcn, fun hcp => hcn ((hmem c).mpr (Or.inr hcp)), ?_⟩
    rintro (hout | hct')
    · exact hinv.apart m c hc hout
    · exact hct hct'
  · intro c
    rw [hmem, Set.mem_union, Set.mem_singleton_iff]
    tauto
  · rintro c hc (hout | hct)
    · exact hinv.apart n c ((hmem c).mpr (Or.inr hc)) hout
    · exact hnot (Set.mem_singleton_iff.mp hct ▸ hc)
  · intro c hc
    exact hinv.states n c ((hmem c).mpr (Or.inr hc))

/-- `pth_pqueue_delete` for a thread of the queue. -/
theorem deleted (hinv : Inv s l out) {pre post : List Tid} (hl : l n = pre ++ t :: post) :
    ∃ s', s.delete n t = some s' ∧ Inv s' (Function.update l n (pre ++ post)) (out ∪ {t}) ∧
      Kept s s' ∧ ((n = .rq → (s.heap t).prio = -1) → Total s l →
        Total s' (Function.update l n (pre ++ post))) := by
  have hholds₀ := hinv.holds n
  rw [hl] at hholds₀
  obtain ⟨h', q', hrun, hholds, hframe, htotal⟩ := delete_spec hholds₀
  rw [← hl] at hframe
  unfold Sched.delete
  rw [hrun, Option.bind_eq_bind, Option.bind_some]
  refine ⟨_, rfl, hinv.taken hl hholds hframe, ⟨rfl, rfl, rfl, rfl, rfl, hframe.prio⟩,
    fun hprio => total_replace hframe.prio ?_⟩
  intro hrq h₀
  subst hrq
  rw [htotal, h₀, hl, prioSum_perm List.perm_middle, prioSum_cons, hprio rfl]
  norm_num

/-- `pth_pqueue_favorite` for a thread of the queue. -/
theorem favoured (hinv : Inv s l out) (ht : t ∈ l n) :
    ∃ s' l', s.favorite n t = some s' ∧ Inv s' l' out ∧ Kept s s' ∧
      ((n = .rq → (s.queue .rq).qNum = 1 ∨ (s.heap t).prio = -1) → Total s l → Total s' l') := by
  obtain ⟨b, h', q', k, hrun, hholds, hperm, hframe, htotal⟩ :=
    favorite_spec (hinv.holds n) ht (hinv.length_le n)
  unfold Sched.favorite
  rw [hrun, Option.bind_eq_bind, Option.bind_some]
  refine ⟨_, _, rfl, hinv.replace hholds hframe ?_ ?_ ?_ ?_, ⟨rfl, rfl, rfl, rfl, rfl, hframe.prio⟩,
    fun hprio => total_replace hframe.prio ?_⟩
  · intro m hmn c hc
    have hcn : c ∉ l n := fun hcn => hmn (hinv.uniq m n c hc hcn)
    exact ⟨hcn, fun hck => hcn (hperm.mem_iff.mp hck), hinv.apart m c hc⟩
  · intro c
    rw [hperm.mem_iff]
  · intro c hc
    exact hinv.apart n c (hperm.mem_iff.mp hc)
  · intro c hc
    exact hinv.states n c (hperm.mem_iff.mp hc)
  · intro hrq h₀
    subst hrq
    rw [htotal, prioSum_perm hperm, ← h₀]
    split_ifs with hone
    · rfl
    · rw [(hprio rfl).resolve_left hone, h₀, unsigned_add]
      norm_num

/-- Changes of control blocks that leave the links in queues alone. -/
lemma setHeap (hinv : Inv s l out) {h' : Heap Tid}
    (hlinks : ∀ n, ∀ c ∈ l n,
      (h' c).qNext = (s.heap c).qNext ∧ (h' c).qPrev = (s.heap c).qPrev) :
    Inv { s with heap := h' } l out where
  holds := by
    intro n
    refine ⟨⟨(hinv.holds n).head, (hinv.holds n).ring.congr ?_ ?_⟩, (hinv.holds n).num⟩
    · exact fun c hc => (hlinks n c hc).1
    · exact fun c hc => (hlinks n c hc).2
  uniq := hinv.uniq
  live := hinv.live
  apart := hinv.apart
  states := hinv.states

/-- Changes of the control blocks in queue `n`, which holds the same threads as before. -/
lemma recount (hinv : Inv s l out) {h' : Heap Tid} (hholds : Holds h' (s.queue n) (l n))
    (hframe : Frame (l n) s.heap h') : Inv { s with heap := h' } l out where
  holds := by
    intro m
    by_cases hmn : m = n
    · subst hmn
      exact hholds
    · apply (hinv.holds m).frame hframe
      exact fun c hc hcn => hmn (hinv.uniq m n c hc hcn)
  uniq := hinv.uniq
  live := hinv.live
  apart := hinv.apart
  states := hinv.states

/-- A thread that has been taken out of a queue and is put back into one. -/
lemma out_again (hinv : Inv s l out) (ht : t ∈ l n) : (out ∪ {t}) \ {t} = out := by
  rw [Set.union_sdiff_right]
  exact Set.sdiff_singleton_eq_self (hinv.apart n t ht)

/-! ## Moves -/

end Inv

/-- What moves of threads between queues leave alone. -/
structure Moved (out : Set Tid) (s s' : Sched Tid) : Prop where
  status : ∀ t ∈ out, s'.status t = s.status t
  main : s'.main = s.main
  cancels : s'.cancels = s.cancels
  control : s'.control = s.control

section moves

variable {s s' s'' : Sched Tid} {l : QueueName → List Tid} {out : Set Tid} {n m : QueueName}
  {t : Tid}

lemma Moved.refl (out : Set Tid) (s : Sched Tid) : Moved out s s := ⟨fun _ _ => rfl, rfl, rfl, rfl⟩

lemma Moved.trans (h : Moved out s s') (h' : Moved out s' s'') : Moved out s s'' where
  status := fun t ht => (h'.status t ht).trans (h.status t ht)
  main := h'.main.trans h.main
  cancels := h'.cancels.trans h.cancels
  control := h'.control.trans h.control

lemma Kept.moved (h : Kept s s') (out : Set Tid) : Moved out s s' :=
  ⟨fun t _ => congrFun h.status t, h.main, h.cancels, h.control⟩

/-- `t->state = state`. -/
lemma moved_setState (ht : t ∉ out) (state : State) : Moved out s (s.setState t state) where
  status := by
    intro c hc
    have hct : c ≠ t := fun hct => ht (hct ▸ hc)
    exact Function.update_of_ne hct _ _
  main := rfl
  cancels := rfl
  control := rfl

/-- A thread goes from queue `n` to queue `m`, with another state. -/
theorem Inv.transferred (hinv : Inv s l out) {pre post : List Tid} (hl : l n = pre ++ t :: post)
    (hmn : n ≠ m) {state : State} (hadm : m.Admits state) :
    ∃ s₁, s.delete n t = some s₁ ∧ Kept s s₁ ∧ ∀ prio, ∃ s' l',
      (s₁.setState t state).insert m prio t = some s' ∧ Inv s' l' out ∧ Moved out s s' ∧
      l' n = pre ++ post ∧ ((n = .rq → (s.heap t).prio = -1) → Total s l → Total s' l') := by
  have ht : t ∈ l n := by simp [hl]
  have hout : t ∉ out := hinv.apart n t ht
  obtain ⟨s₁, hdel, hinv₁, hkept₁, htotal₁⟩ := hinv.deleted hl
  refine ⟨s₁, hdel, hkept₁, fun prio => ?_⟩
  have hadm' : m.Admits ((s₁.setState t state).status t).state := by
    unfold Sched.setState
    simp only [Function.update_self]
    exact hadm
  obtain ⟨s', l', hins, hinv', hkept', hsame, htotal'⟩ :=
    (hinv₁.setState (Or.inr rfl) state).inserted (Or.inr rfl) hadm' prio
  rw [hinv.out_again ht] at hinv'
  refine ⟨s', l', hins, hinv', ?_, ?_, ?_⟩
  · exact ((hkept₁.moved out).trans (moved_setState hout state)).trans (hkept'.moved out)
  · rw [hsame n hmn, Function.update_self]
  · exact fun hprio h₀ => htotal' (htotal₁ hprio h₀)

/-- The loop over the new threads. -/
theorem Inv.admitted (hinv : Inv s l out) {rounds : ℕ} (hrounds : (l .nq).length ≤ rounds) :
    ∃ s' l', s.admitLoop rounds = some s' ∧ Inv s' l' out ∧ Moved out s s' ∧
      (Total s l → Total s' l') := by
  induction rounds generalizing s l with
  | zero =>
      have hnil : l .nq = [] := List.length_eq_zero_iff.mp (Nat.le_zero.mp hrounds)
      refine ⟨s, l, ?_, hinv, Moved.refl _ _, id⟩
      rw [Sched.admitLoop, (tail_eq_none_iff (hinv.holds .nq).toQueue).mpr hnil]
  | succ rounds ih =>
      rcases htail : pqueueTail s.heap (s.queue .nq) with _ | t
      · refine ⟨s, l, ?_, hinv, Moved.refl _ _, id⟩
        rw [Sched.admitLoop, htail]
      · obtain ⟨pre, post, hl⟩ := List.append_of_mem (mem_of_tail (hinv.holds .nq).toQueue htail)
        have hready : QueueName.rq.Admits .ready := rfl
        obtain ⟨s₁, hdel, -, hput⟩ := hinv.transferred hl (by decide) hready
        rw [Sched.admitLoop, htail]
        simp only
        rw [hdel, Option.bind_eq_bind, Option.bind_some]
        obtain ⟨s₂, l₂, hins, hinv₂, hmoved₂, hl₂, htotal₂⟩ :=
          hput (if (s₁.setState t .ready).favournew then
            pqueueFavoritePrio (s₁.setState t .ready).heap ((s₁.setState t .ready).queue .rq)
            else prioStd)
        rw [hins, Option.bind_some]
        have hlen : (l₂ .nq).length ≤ rounds := by
          rw [hl] at hrounds
          rw [hl₂]
          simp only [List.length_append, List.length_cons] at hrounds ⊢
          omega
        obtain ⟨s', l', hloop, hinv', hmoved', htotal'⟩ := ih hinv₂ hlen
        exact ⟨s', l', hloop, hinv', hmoved₂.trans hmoved',
          fun h₀ => htotal' (htotal₂ (by simp) h₀)⟩

/-- The loop over the waiting threads, from the first one of `rest` on. -/
theorem Inv.polled (hinv : Inv s l out) (occurred : Tid → Bool) {rounds : ℕ}
    {kept rest : List Tid} (hl : l .wq = kept ++ rest) (hrounds : rest.length ≤ rounds) :
    ∃ s' l', Sched.eventLoop occurred rounds s rest.head? = some s' ∧ Inv s' l' out ∧
      Moved out s s' ∧ (Total s l → Total s' l') := by
  induction rest generalizing s l kept rounds with
  | nil =>
      refine ⟨s, l, ?_, hinv, Moved.refl _ _, id⟩
      cases rounds <;> rfl
  | cons t rest ih =>
      obtain ⟨rounds, rfl⟩ := Nat.exists_eq_succ_of_ne_zero
        (Nat.one_le_iff_ne_zero.mp ((Nat.le_add_left 1 _).trans hrounds))
      have hrest : rest.length ≤ rounds := Nat.le_of_succ_le_succ hrounds
      -- the walk goes on before the thread is moved
      have hnext : pqueueWalk s.heap (s.queue .wq) t .next = rest.head? := by
        have hq := (hinv.holds .wq).toQueue
        rw [hl] at hq
        exact hq.walk_eq
      rw [List.head?_cons, Sched.eventLoop]
      simp only
      rw [hnext]
      by_cases hcond : (occurred t || (s.status t).cancelreq) = true
      · have hready : QueueName.rq.Admits .ready := rfl
        obtain ⟨s₁, hdel, -, hput⟩ := hinv.transferred hl (by decide) hready
        rw [if_pos hcond, hdel, Option.bind_eq_bind, Option.bind_some]
        obtain ⟨s₂, l₂, hins, hinv₂, hmoved₂, hl₂, htotal₂⟩ :=
          hput (((s₁.setState t .ready).heap t).prio + 1)
        rw [hins, Option.bind_some]
        obtain ⟨s', l', hloop, hinv', hmoved', htotal'⟩ := ih hinv₂ hl₂ hrest
        exact ⟨s', l', hloop, hinv', hmoved₂.trans hmoved',
          fun h₀ => htotal' (htotal₂ (by simp) h₀)⟩
      · have hl' : l .wq = (kept ++ [t]) ++ rest := by rw [hl, List.append_assoc]; rfl
        rw [if_neg hcond]
        exact ih hinv hl' hrest

/-- The passes of `pth_sched_eventmanager`. -/
theorem Inv.managed (hinv : Inv s l out) (passes : List (Tid → Bool)) :
    ∃ s' l', passes.foldlM Sched.eventmanager s = some s' ∧ Inv s' l' out ∧ Moved out s s' ∧
      (Total s l → Total s' l') := by
  induction passes generalizing s l with
  | nil => exact ⟨s, l, rfl, hinv, Moved.refl _ _, id⟩
  | cons occurred passes ih =>
      have hl : l .wq = [] ++ l .wq := rfl
      obtain ⟨s₁, l₁, hpass, hinv₁, hmoved₁, htotal₁⟩ :=
        hinv.polled occurred hl (hinv.length_le .wq)
      rw [← (hinv.holds .wq).head] at hpass
      obtain ⟨s', l', hrest, hinv', hmoved', htotal'⟩ := ih hinv₁
      refine ⟨s', l', ?_, hinv', hmoved₁.trans hmoved', fun h₀ => htotal' (htotal₁ h₀)⟩
      rw [List.foldlM_cons]
      exact (congrArg (· >>= _) hpass).trans hrest

/-- The draw, which is defined exactly if there are tickets. -/
theorem Inv.drawn (hinv : Inv s l out) {rand : ℕ} (hrand : rand ≤ randMax) :
    ∃ h₁ h₂ q, pqueueCalcTarget s.live.card s.heap (s.queue .rq) = some h₁ ∧
      pqueueIssueTk s.live.card h₁ (s.queue .rq) = some (h₂, q) ∧
      (q.totalTk = 0 ∧ s.draw rand = none ∨
        q.totalTk ≠ 0 ∧ ∃ s' l' t, s.draw rand = some s' ∧ t ∈ l .rq ∧ Inv s' l' (out ∪ {t}) ∧
          s'.control = .running t ∧ s'.status = s.status ∧ s'.cancels = s.cancels ∧
          (Total s l → Total s' l')) := by
  have hlen := hinv.length_le .rq
  obtain ⟨h₁, htarget, hholds₁, hframe₁⟩ := calcTarget_spec (hinv.holds .rq) hlen
  obtain ⟨h₂, q, hissue, hholds₂, hframe₂, hprio₂, hwin⟩ := issueTk_spec hholds₁ hlen
  refine ⟨h₁, h₂, q, htarget, hissue, ?_⟩
  unfold Sched.draw
  simp only [htarget, hissue, Option.bind_eq_bind, Option.bind_some]
  by_cases htk : q.totalTk = 0
  · refine Or.inl ⟨htk, ?_⟩
    unfold drawThread
    rw [if_pos htk, Option.bind_none]
  · -- without threads there would be no tickets
    have hne : l .rq ≠ [] := by
      intro hnil
      obtain ⟨c, hc, -⟩ := hwin 0 le_rfl (by norm_num) (by exact_mod_cast Nat.pos_of_ne_zero htk)
      rw [hnil] at hc
      cases hc
    obtain ⟨h₃, q₃, t, pre, post, hl, hdraw, hholds₃, hframe₃, htotal₃⟩ :=
      draw_spec hholds₂ hlen hne htk hwin hrand
    have hframe : Frame (l .rq) s.heap h₃ := by
      apply ((hframe₁.trans hframe₂).trans hframe₃).mono
      intro c hc
      simpa only [List.mem_append, or_self] using hc
    have hinv' := hinv.taken hl hholds₃ hframe
    simp only [hdraw, Option.bind_some]
    refine Or.inr ⟨htk, _, _, t, rfl, by simp [hl], hinv'.of_eq rfl rfl rfl fun _ _ _ => rfl,
      rfl, rfl, rfl, ?_⟩
    intro h₀
    refine Inv.total_replace hframe.prio ?_ h₀
    intro _ _
    rcases htotal₃ with ⟨hnil, hzero⟩ | htotal₃
    · rw [hnil, hzero]
      rfl
    · have hsum : prioSum s.heap (l .rq) = (s.heap t).prio + 1 + prioSum s.heap (pre ++ post) := by
        rw [hl, prioSum_perm List.perm_middle, prioSum_cons]
      rw [htotal₃, hprio₂, h₀, hframe₂.prio, hframe₁.prio, unsigned_sub, hsum, add_sub_cancel_left]

end moves

end Comp3301.Pth
