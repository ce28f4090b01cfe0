import Comp3301.Pth.Lottery

/-!
# Pth: what the operations on queues do

* `Holds h q l`: the queue holds the threads of `l`, and `q_num` is their number.
* `Frame l h h'`: an operation has changed control blocks of threads in `l` only, and no priority.
  A queue that has no thread in `l` is not affected (`Holds.frame`).
* `insert_spec`, `delete_spec` and `deltk_of_ticket`: the threads, the frame and the total priority
  after an operation. `pth_pqueue_insert` adds the priority of the thread to the total and
  `pth_pqueue_deltk` subtracts it; `pth_pqueue_delete` leaves the total alone.
* `draw_spec`: after `pth_pqueue_issue_tk` with any usages, whether or not tickets and offsets
  overflow, a thread is drawn as soon as `total_tk` is not zero.
-/

set_option linter.unusedSectionVars false

namespace Comp3301.Pth

open Comp3301.Lib

variable {Tid : Type} [DecidableEq Tid]

/-! ## Queues and frames -/

/-- The queue holds the threads of `l`, from the head on. -/
structure Holds (h : Heap Tid) (q : Pqueue Tid) (l : List Tid) : Prop extends Queue h q l where
  num : q.qNum = l.length

/-- Only control blocks of threads in `l` differ, and not in their priority. -/
structure Frame (l : List Tid) (h h' : Heap Tid) : Prop where
  outside : ∀ c, c ∉ l → h' c = h c
  prio : ∀ c, (h' c).prio = (h c).prio

section frame

variable {h h' : Heap Tid} {q : Pqueue Tid} {l m : List Tid}

lemma Frame.refl (l : List Tid) (h : Heap Tid) : Frame l h h := ⟨fun _ _ => rfl, fun _ => rfl⟩

/-- One more control block. -/
lemma Frame.update (hf : Frame l h h') {a : Tid} (ha : a ∈ l) {b : Tcb Tid}
    (hb : b.prio = (h' a).prio) : Frame l h (Function.update h' a b) where
  outside := by
    intro c hc
    have hca : c ≠ a := fun hca => hc (hca ▸ ha)
    rw [Function.update_of_ne hca, hf.outside c hc]
  prio := by
    intro c
    rw [field_update Tcb.prio hb c, hf.prio c]

lemma Frame.trans {h'' : Heap Tid} (hf : Frame l h h') (hf' : Frame m h' h'') :
    Frame (l ++ m) h h'' where
  outside := by
    intro c hc
    rw [List.mem_append, not_or] at hc
    rw [hf'.outside c hc.2, hf.outside c hc.1]
  prio := fun c => (hf'.prio c).trans (hf.prio c)

lemma Frame.mono (hf : Frame l h h') (hlm : ∀ c ∈ l, c ∈ m) : Frame m h h' where
  outside := fun c hc => hf.outside c fun hcl => hc (hlm c hcl)
  prio := hf.prio

/-- A queue without threads in the frame. -/
lemma Holds.frame (hq : Holds h q l) (hf : Frame m h h') (hdisj : ∀ c ∈ l, c ∉ m) :
    Holds h' q l where
  head := hq.head
  ring := by
    apply hq.ring.congr
    · intro c hc
      rw [hf.outside c (hdisj c hc)]
    · intro c hc
      rw [hf.outside c (hdisj c hc)]
  num := hq.num

lemma Holds.num_ne_zero {a : Tid} {m : List Tid} (hq : Holds h q (a :: m)) : q.qNum ≠ 0 := by
  rw [hq.num, List.length_cons]
  exact Nat.cast_ne_zero.mpr (Nat.succ_ne_zero _)

end frame

/-! ### Assignments to control blocks -/

section assignments

variable (x : Option Tid) (prio : ℤ) {h h' : Heap Tid} {t : Tid} {l : List Tid}

lemma Frame.setNext (hf : Frame l h h') (ht : t ∈ l) : Frame l h (setNext h' t x) :=
  hf.update ht rfl

lemma Frame.setPrev (hf : Frame l h h') (ht : t ∈ l) : Frame l h (setPrev h' t x) :=
  hf.update ht rfl

lemma Frame.setQPrio (hf : Frame l h h') (ht : t ∈ l) : Frame l h (setQPrio h' t prio) :=
  hf.update ht rfl

end assignments

/-! ## Walking -/

section walk

variable {h : Heap Tid} {q : Pqueue Tid} {l : List Tid} {rounds : ℕ}

lemma Steps.of_append {ι : Type} {walk : ι → Option ι} {pre l : List ι}
    (hsteps : Steps walk (pre ++ l)) : Steps walk l := by
  induction pre with
  | nil => exact hsteps
  | cons a pre ih => exact ih hsteps.2

/-- The thread behind `c` in a walk. -/
lemma Queue.walk_eq {pre post : List Tid} {c : Tid} (hq : Queue h q (pre ++ c :: post)) :
    pqueueWalk h q c .next = post.head? := (Steps.of_append hq.steps).1

/-- The link of the last thread leads to the head. -/
lemma Queue.next_last {pre : List Tid} {c : Tid} (hq : Queue h q (pre ++ [c])) :
    (h c).qNext = q.qHead := by
  obtain ⟨⟨n, -, hn, -⟩, -⟩ := hq.ring.exists_linked (c := c) (by simp)
  have hn : (h c).qNext = some n := hn
  have hwalk := hq.walk_eq
  unfold pqueueWalk walkNext at hwalk
  simp only at hwalk
  split_ifs at hwalk with hhead
  · exact hhead
  · rw [hn] at hwalk
    cases hwalk

/-- The last thread and the head are linked. -/
lemma Queue.last_head {pre : List Tid} {p a : Tid} (hq : Queue h q (pre ++ [p]))
    (ha : q.qHead = some a) : (h p).qNext = some a ∧ (h a).qPrev = some p := by
  have hnext : (h p).qNext = some a := hq.next_last.trans ha
  obtain ⟨⟨n, -, hn, hprev⟩, -⟩ := hq.ring.exists_linked (c := p) (by simp)
  obtain rfl : n = a := Option.some.inj (hn.symm.trans hnext)
  exact ⟨hnext, hprev⟩

/-- The link of any other thread leads to the next one, which is not the head. -/
lemma Queue.next_inner {pre post : List Tid} {c n : Tid} (hq : Queue h q (pre ++ c :: n :: post)) :
    (h c).qNext = some n ∧ some n ≠ q.qHead := by
  have hwalk := hq.walk_eq
  unfold pqueueWalk walkNext at hwalk
  simp only [List.head?_cons] at hwalk
  split_ifs at hwalk with hhead
  exact ⟨hwalk, fun hn => hhead (hwalk.trans hn)⟩

/-- `pth_pqueue_contains`. -/
lemma contains_eq (hq : Queue h q l) (hrounds : l.length ≤ rounds) (t : Tid) :
    pqueueContains rounds h q t = some (decide (t ∈ l)) := by
  unfold pqueueContains
  rw [hq.head, findWalk_eq_find hrounds hq.steps, Option.map_some]
  congr 1
  rw [Bool.eq_iff_iff, List.find?_isSome]
  simp

/-- A walk visits the threads of the queue. -/
lemma threads_eq (hq : Queue h q l) (hrounds : l.length ≤ rounds) :
    pqueueThreads rounds h q = some l := by
  have hfold : ∀ m a : List Tid, m.foldl (fun l c => l ++ [c]) a = a ++ m := by
    intro m
    induction m with
    | nil => simp
    | cons c m ih => simp [ih]
  have hloop : forWalk (fun _ c => pqueueWalk h q c .next) (fun l c => l ++ [c]) rounds []
      l.head? = some (l.foldl (fun l c => l ++ [c]) []) := by
    apply forWalk_eq_foldl _ hrounds hq.steps
    intro _ _
    rfl
  unfold pqueueThreads
  rw [hq.head, hloop, hfold, List.nil_append]

/-- `pth_pqueue_tail`. -/
lemma tail_eq_none_iff (hq : Queue h q l) : pqueueTail h q = none ↔ l = [] := by
  unfold pqueueTail
  rw [hq.head]
  rcases l with _ | ⟨a, l⟩
  · simp
  · obtain ⟨-, p, -, -, hp⟩ := hq.ring.exists_linked (c := a) (by simp)
    have hp : (h a).qPrev = some p := hp
    simp [hp]

lemma mem_of_tail (hq : Queue h q l) {t : Tid} (ht : pqueueTail h q = some t) : t ∈ l := by
  unfold pqueueTail at ht
  rw [hq.head] at ht
  rcases l with _ | ⟨a, l⟩
  · cases ht
  · obtain ⟨-, p, hpl, -, hp⟩ := hq.ring.exists_linked (c := a) (by simp)
    have hpt : (h a).qPrev = some t := ht
    obtain rfl : p = t := Option.some.inj (hp.symm.trans hpt)
    exact hpl

end walk

/-! ## Inserting -/

section insert

variable {h : Heap Tid} {q : Pqueue Tid} {l : List Tid} {rounds : ℕ} {prio : ℤ}

/-- The loop of `pth_pqueue_insert` ends at a thread of the queue. -/
lemma insertBehind_spec {pre post : List Tid} {c : Tid} (hq : Queue h q (pre ++ c :: post))
    (hrounds : post.length < rounds) (p : ℤ) :
    ∃ c' p', insertBehind h q prio rounds c p = some (c', p') ∧ c' ∈ c :: post := by
  induction post generalizing pre c p rounds with
  | nil =>
      obtain ⟨rounds, rfl⟩ := Nat.exists_eq_succ_of_ne_zero (Nat.ne_zero_of_lt hrounds)
      obtain ⟨⟨n, -, hn, -⟩, -⟩ := hq.ring.exists_linked (c := c) (by simp)
      have hn : (h c).qNext = some n := hn
      refine ⟨c, p, ?_, List.mem_cons_self⟩
      rw [insertBehind, hn, Option.bind_eq_bind, Option.bind_some,
        if_neg fun hcond => hcond.2 (hn.symm.trans hq.next_last)]
  | cons n post ih =>
      obtain ⟨rounds, rfl⟩ := Nat.exists_eq_succ_of_ne_zero (Nat.ne_zero_of_lt hrounds)
      obtain ⟨hn, -⟩ := hq.next_inner
      rw [insertBehind, hn, Option.bind_eq_bind, Option.bind_some]
      split_ifs with hcond
      · have hq' : Queue h q ((pre ++ [c]) ++ n :: post) := by
          rw [List.append_assoc]
          exact hq
        obtain ⟨c', p', hloop, hc'⟩ := ih hq' (Nat.lt_of_succ_lt_succ hrounds) (p - (h n).qPrio)
        exact ⟨c', p', hloop, List.mem_cons_of_mem c hc'⟩
      · exact ⟨c, p, rfl, List.mem_cons_self⟩

lemma next_linkThread (t p n : Tid) :
    (fun c => (linkThread h t p n c).qNext) =
      Function.update (Function.update (fun c => (h c).qNext) t (some n)) p (some t) := by
  unfold linkThread
  rw [next_setPrev, next_setNext, next_setNext, next_setPrev]

lemma prev_linkThread (t p n : Tid) :
    (fun c => (linkThread h t p n c).qPrev) =
      Function.update (Function.update (fun c => (h c).qPrev) t (some p)) n (some t) := by
  unfold linkThread
  rw [prev_setPrev, prev_setNext, prev_setNext, prev_setPrev]

lemma frame_linkThread {t p n : Tid} (ht : t ∈ l) (hp : p ∈ l) (hn : n ∈ l) :
    Frame l h (linkThread h t p n) :=
  ((((Frame.refl l h).setPrev _ ht).setNext _ ht).setNext _ hp).setPrev _ hn

/-- The ring after `t` has been put behind `c`. -/
lemma Queue.ring_linkThread {pre post : List Tid} {c n t : Tid}
    (hq : Queue h q (pre ++ c :: post)) (ht : t ∉ pre ++ c :: post) (hn : (h c).qNext = some n) :
    IsRing (fun x => (linkThread h t c n x).qNext) (fun x => (linkThread h t c n x).qPrev)
      (pre ++ c :: t :: post) := by
  rw [next_linkThread, prev_linkThread]
  exact hq.ring.link ht hn

/-- The first thread of a queue. -/
lemma insert_first (hq : Holds h q []) (t : Tid) :
    ∃ h' q', pqueueInsert rounds h q prio t = some (h', q') ∧ Holds h' q' [t] ∧
      Frame [t] h h' ∧ q'.totalPrio = unsigned 64 (q.totalPrio + ((h t).prio + 1)) := by
  have hhead : q.qHead = none := hq.head
  have ht : t ∈ [t] := List.mem_singleton_self t
  unfold pqueueInsert
  rw [hhead, ite_self]
  refine ⟨_, _, rfl, ⟨⟨rfl, ?_⟩, ?_⟩, ?_, rfl⟩
  · rw [next_setQPrio, next_setNext, prev_setQPrio, prev_setNext, prev_setPrev]
    exact IsRing.singleton (Function.update_self _ _ _) (Function.update_self _ _ _)
  · simp [hq.num]
  · exact (((Frame.refl _ h).setPrev _ ht).setNext _ ht).setQPrio _ ht

/-- A new head. -/
lemma insert_head {a t : Tid} {m : List Tid} (hq : Holds h q (a :: m)) (ht : t ∉ a :: m)
    (hprio : (h a).qPrio < prio) :
    ∃ h' q', pqueueInsert rounds h q prio t = some (h', q') ∧ Holds h' q' (t :: a :: m) ∧
      Frame (t :: a :: m) h h' ∧ q'.totalPrio = unsigned 64 (q.totalPrio + ((h t).prio + 1)) := by
  have hhead : q.qHead = some a := hq.head
  -- the new thread goes behind the last one, and the ring is entered at it
  obtain ⟨pre, p, hl⟩ := (List.eq_nil_or_concat' (a :: m)).resolve_left (List.cons_ne_nil a m)
  have hq' : Queue h q (pre ++ [p]) := hl ▸ hq.toQueue
  have hp : p ∈ t :: a :: m := by simp [hl]
  obtain ⟨hnext, hprev⟩ := hq'.last_head hhead
  unfold pqueueInsert
  rw [if_neg hq.num_ne_zero, hhead]
  simp only
  rw [if_pos hprio, hprev, Option.bind_eq_bind, Option.bind_some]
  refine ⟨_, _, rfl, ⟨⟨rfl, ?_⟩, ?_⟩, ?_, rfl⟩
  · rw [next_setQPrio, next_setQPrio, prev_setQPrio, prev_setQPrio]
    apply (hq'.ring_linkThread (hl ▸ ht) hnext).rotate
    rw [show pre ++ [p, t] = (a :: m) ++ [t] by rw [hl, List.append_assoc]; rfl]
    exact List.isRotated_append
  · simp [hq.num]
  · exact ((frame_linkThread (by simp) hp (by simp)).setQPrio _ (by simp)).setQPrio _ (by simp)

/-- Behind a thread of the queue. -/
lemma insert_behind {a t : Tid} {m : List Tid} (hq : Holds h q (a :: m)) (ht : t ∉ a :: m)
    (hrounds : (a :: m).length ≤ rounds) (hprio : ¬ (h a).qPrio < prio) :
    ∃ h' q' l', pqueueInsert rounds h q prio t = some (h', q') ∧ Holds h' q' l' ∧
      l'.Perm (t :: a :: m) ∧ Frame (t :: a :: m) h h' ∧
      q'.totalPrio = unsigned 64 (q.totalPrio + ((h t).prio + 1)) := by
  have hhead : q.qHead = some a := hq.head
  have hentry : Queue h q ([] ++ a :: m) := hq.toQueue
  obtain ⟨c, p, hloop, hc⟩ := insertBehind_spec hentry hrounds (h a).qPrio
  obtain ⟨⟨n, hnl, hn, -⟩, -⟩ := hq.ring.exists_linked hc
  have hn : (h c).qNext = some n := hn
  obtain ⟨pre, post, hl⟩ := List.append_of_mem hc
  have hq' : Queue h q (pre ++ c :: post) := hl ▸ hq.toQueue
  have hmem : ∀ x ∈ a :: m, x ∈ t :: a :: m := fun x hx => List.mem_cons_of_mem t hx
  have hframe : Frame (t :: a :: m) h (setQPrio (linkThread h t c n) t (p - prio)) :=
    (frame_linkThread List.mem_cons_self (hmem c hc) (hmem n hnl)).setQPrio _ List.mem_cons_self
  have hring : IsRing (fun x => (setQPrio (linkThread h t c n) t (p - prio) x).qNext)
      (fun x => (setQPrio (linkThread h t c n) t (p - prio) x).qPrev) (pre ++ c :: t :: post) := by
    rw [next_setQPrio, prev_setQPrio]
    exact hq'.ring_linkThread (hl ▸ ht) hn
  unfold pqueueInsert
  rw [if_neg hq.num_ne_zero, hhead]
  simp only
  rw [if_neg hprio, hloop, Option.bind_eq_bind, Option.bind_some]
  simp only
  rw [hn, Option.bind_eq_bind, Option.bind_some]
  refine ⟨_, _, pre ++ c :: t :: post, rfl, ⟨⟨?_, ?_⟩, ?_⟩, ?_, ?_, rfl⟩
  · have hfirst : (pre ++ c :: t :: post).head? = (pre ++ c :: post).head? := by cases pre <;> rfl
    rw [hfirst, ← hl]
    rfl
  · split_ifs
    · rw [next_setQPrio, prev_setQPrio]
      exact hring
    · exact hring
  · rw [hq.num, hl]
    simp only [List.length_append, List.length_cons]
    push_cast
    ring
  · have hmid : ((pre ++ [c]) ++ t :: post).Perm (t :: ((pre ++ [c]) ++ post)) := List.perm_middle
    rw [hl]
    simpa only [List.append_assoc, List.singleton_append] using hmid
  · split_ifs
    · exact hframe.setQPrio _ (hmem n hnl)
    · exact hframe

/-- **What `pth_pqueue_insert` does.** -/
theorem insert_spec {t : Tid} (hq : Holds h q l) (ht : t ∉ l) (hrounds : l.length ≤ rounds)
    (prio : ℤ) :
    ∃ h' q' l', pqueueInsert rounds h q prio t = some (h', q') ∧ Holds h' q' l' ∧
      l'.Perm (t :: l) ∧ Frame (t :: l) h h' ∧
      q'.totalPrio = unsigned 64 (q.totalPrio + ((h t).prio + 1)) := by
  rcases l with _ | ⟨a, m⟩
  · obtain ⟨h', q', hrun, hholds, hframe, htotal⟩ := insert_first hq t
    exact ⟨h', q', [t], hrun, hholds, List.Perm.refl _, hframe, htotal⟩
  · by_cases hprio : (h a).qPrio < prio
    · obtain ⟨h', q', hrun, hholds, hframe, htotal⟩ := insert_head hq ht hprio
      exact ⟨h', q', t :: a :: m, hrun, hholds, List.Perm.refl _, hframe, htotal⟩
    · exact insert_behind hq ht hrounds hprio

end insert

/-! ## Deleting -/

section delete

variable {h : Heap Tid} {q : Pqueue Tid} {rounds : ℕ}

/-- The control blocks that `unlinkThread` changes. -/
lemma Queue.frame_unlinkThread {h' : Heap Tid} {t p n : Tid} {l : List Tid} (hq : Queue h q l)
    (ht : t ∈ l) (hp : (h t).qPrev = some p) (hn : (h t).qNext = some n) (hpt : p ≠ t)
    (hrun : unlinkThread h t = some h') : Frame l h h' := by
  have hpl : p ∈ l := hq.ring.prev_mem ht hp
  have hnl : n ∈ l := hq.ring.next_mem ht hn
  rw [unlinkThread_eq hp hn hpt, Option.some.injEq] at hrun
  rw [← hrun]
  exact ((((Frame.refl l h).setNext _ hpl).setPrev _ hnl).setQPrio _ hnl).setQPrio _ ht

/-- The only thread of a queue. -/
lemma delete_singleton {t : Tid} (hq : Holds h q [t]) :
    ∃ h' q', pqueueDelete h q t = some (h', q') ∧ Holds h' q' [] ∧ Frame [t] h h' ∧
      q'.totalPrio = q.totalPrio := by
  have hhead : q.qHead = some t := hq.head
  have hself : (h t).qNext = some t := ((Cycle.chain_singleton _ t).mp hq.ring.chain).1
  have ht : t ∈ [t] := List.mem_singleton_self t
  unfold pqueueDelete
  rw [hhead]
  simp only [if_true]
  rw [if_pos hself]
  exact ⟨_, _, rfl, ⟨⟨rfl, ⟨List.nodup_nil, trivial⟩⟩, rfl⟩,
    (((Frame.refl _ h).setNext _ ht).setPrev _ ht).setQPrio _ ht, rfl⟩

/-- The head of a queue of at least two. -/
lemma delete_head {t b : Tid} {m : List Tid} (hq : Holds h q (t :: b :: m)) :
    ∃ h' q', pqueueDelete h q t = some (h', q') ∧ Holds h' q' (b :: m) ∧
      Frame (t :: b :: m) h h' ∧ q'.totalPrio = q.totalPrio := by
  have hhead : q.qHead = some t := hq.head
  have hentry : IsRing (fun c => (h c).qNext) (fun c => (h c).qPrev) ([] ++ t :: b :: m) := hq.ring
  obtain ⟨p, n, hp, hn, hpt, -, hfirst, hring⟩ := hentry.unlink (List.cons_ne_nil b m)
  obtain ⟨h', hrun, hnext, hprev, ht⟩ := unlinkThread_spec hp hn hpt
  unfold pqueueDelete
  rw [hhead]
  simp only [if_true]
  rw [if_neg hq.next_head_ne, hrun, Option.bind_eq_bind, Option.bind_some]
  refine ⟨_, _, rfl, ⟨⟨?_, ?_⟩, ?_⟩, ?_, rfl⟩
  · rw [ht, ← hfirst rfl]
  · rw [hnext, hprev]
    exact hring
  · simp [hq.num]
  · exact hq.frame_unlinkThread List.mem_cons_self hp hn hpt hrun

/-- Any other thread. -/
lemma delete_inner {a t : Tid} {pre post : List Tid} (hq : Holds h q (a :: pre ++ t :: post)) :
    ∃ h' q', pqueueDelete h q t = some (h', q') ∧ Holds h' q' (a :: pre ++ post) ∧
      Frame (a :: pre ++ t :: post) h h' ∧ q'.totalPrio = q.totalPrio := by
  have hhead : q.qHead = some a := hq.head
  have hat : a ≠ t := by
    rintro rfl
    have hnodup := hq.ring.nodup
    simp at hnodup
  have ht : t ∈ a :: pre ++ t :: post := by simp
  obtain ⟨p, n, hp, hn, hpt, -, -, hring⟩ := hq.ring.unlink (List.cons_ne_nil a _)
  have hp : (h t).qPrev = some p := hp
  have hn : (h t).qNext = some n := hn
  have hpl := hq.ring.prev_mem ht hp
  have hnl := hq.ring.next_mem ht hn
  have hkeep : setNext h p (some n) t = h t := Function.update_of_ne hpt.symm _ _
  have hframe : Frame (a :: pre ++ t :: post) h (setPrev (setNext h p (some n)) n (some p)) :=
    ((Frame.refl _ h).setNext _ hpl).setPrev _ hnl
  have hring' : IsRing (fun c => (setPrev (setNext h p (some n)) n (some p) c).qNext)
      (fun c => (setPrev (setNext h p (some n)) n (some p) c).qPrev) (a :: pre ++ post) := by
    rw [next_setPrev, next_setNext, prev_setPrev, prev_setNext]
    exact hring
  unfold pqueueDelete
  rw [hhead]
  simp only
  rw [if_neg hat, hp, Option.bind_eq_bind, Option.bind_some, hn, hkeep, hn, Option.bind_some,
    hp]
  refine ⟨_, _, rfl, ⟨⟨rfl, ?_⟩, ?_⟩, ?_, rfl⟩
  · rw [next_setQPrio, prev_setQPrio]
    split_ifs
    · rw [next_setQPrio, prev_setQPrio]
      exact hring'
    · exact hring'
  · rw [hq.num]
    simp only [List.length_append, List.length_cons]
    push_cast
    ring
  · split_ifs
    · exact (hframe.setQPrio _ hnl).setQPrio _ ht
    · exact hframe.setQPrio _ ht

/-- **What `pth_pqueue_delete` does** for a thread of the queue. -/
theorem delete_spec {t : Tid} {pre post : List Tid} (hq : Holds h q (pre ++ t :: post)) :
    ∃ h' q', pqueueDelete h q t = some (h', q') ∧ Holds h' q' (pre ++ post) ∧
      Frame (pre ++ t :: post) h h' ∧ q'.totalPrio = q.totalPrio := by
  rcases pre with _ | ⟨a, pre⟩
  · rcases post with _ | ⟨b, m⟩
    · exact delete_singleton hq
    · exact delete_head hq
  · exact delete_inner hq

end delete

/-- **What `pth_pqueue_favorite` does** for a thread of the queue: with another thread in the queue,
its priority is added to the total once more. -/
theorem favorite_spec {h : Heap Tid} {q : Pqueue Tid} {l : List Tid} {rounds : ℕ} {t : Tid}
    (hq : Holds h q l) (ht : t ∈ l) (hrounds : l.length ≤ rounds) :
    ∃ b h' q' l', pqueueFavorite rounds h q t = some (b, h', q') ∧ Holds h' q' l' ∧ l'.Perm l ∧
      Frame l h h' ∧ q'.totalPrio =
        if q.qNum = 1 then q.totalPrio else unsigned 64 (q.totalPrio + ((h t).prio + 1)) := by
  obtain ⟨a, m, rfl⟩ := List.exists_cons_of_ne_nil (List.ne_nil_of_mem ht)
  have hhead : q.qHead = some a := hq.head
  have hsome : ¬ (q.qHead = none ∨ q.qNum = 0) := by
    rw [hhead, not_or]
    exact ⟨Option.some_ne_none a, hq.num_ne_zero⟩
  unfold pqueueFavorite
  rw [if_neg hsome]
  by_cases hone : q.qNum = 1
  · rw [if_pos hone]
    exact ⟨_, _, _, _, rfl, hq, List.Perm.refl _, Frame.refl _ h, (if_pos hone).symm⟩
  · obtain ⟨pre, post, hl⟩ := List.append_of_mem ht
    have hperm : (t :: (pre ++ post)).Perm (a :: m) := by
      rw [hl]
      exact List.perm_middle.symm
    obtain ⟨h₁, q₁, hdel, hholds₁, hframe₁, htotal₁⟩ := delete_spec (hl ▸ hq)
    have hnot : t ∉ pre ++ post :=
      (List.nodup_cons.mp (hperm.nodup_iff.mpr hq.ring.nodup)).1
    have hlen : (pre ++ post).length ≤ rounds :=
      le_trans (by rw [← hperm.length_eq]; exact Nat.le_succ _) hrounds
    obtain ⟨h₂, q₂, l₂, hins, hholds₂, hperm₂, hframe₂, htotal₂⟩ :=
      insert_spec hholds₁ hnot hlen (pqueueFavoritePrio h₁ q₁)
    rw [if_neg hone, hdel, Option.bind_eq_bind, Option.bind_some]
    simp only
    rw [hins, Option.bind_some]
    refine ⟨_, _, _, l₂, rfl, hholds₂, hperm₂.trans hperm, ?_, ?_⟩
    · apply (hframe₁.trans hframe₂).mono
      intro c hc
      rw [List.mem_append, ← hl, hperm.mem_iff] at hc
      exact hc.elim id id
    · rw [if_neg hone, htotal₂, htotal₁, hframe₁.prio]

/-! ## Usages and tickets -/

section tickets

variable {h : Heap Tid} {q : Pqueue Tid} {l : List Tid} {rounds : ℕ}

/-- A loop that computes usages. -/
lemma forThreads_spec {f : Tcb Tid → Tcb Tid} (hq : Holds h q l) (hrounds : l.length ≤ rounds)
    (hnext : ∀ b, (f b).qNext = b.qNext) (hprev : ∀ b, (f b).qPrev = b.qPrev)
    (hprio : ∀ b, (f b).prio = b.prio) :
    ∃ h', forThreads rounds h q f = some h' ∧ Holds h' q l ∧ Frame l h h' := by
  have happly : ∀ {β : Type} (g : Tcb Tid → β) (_ : ∀ b, g (f b) = g b) (c : Tid),
      g (if c ∈ l then f (h c) else h c) = g (h c) := by
    intro β g hg c
    split_ifs
    · exact hg (h c)
    · rfl
  refine ⟨_, forThreads_eq hq.toQueue hrounds hnext, ⟨?_, hq.num⟩, ?_, ?_⟩
  · exact hq.toQueue.congr rfl (happly Tcb.qNext hnext) (happly Tcb.qPrev hprev)
  · intro c hc
    exact if_neg hc
  · exact happly Tcb.prio hprio

/-- `pth_pqueue_calc_target`. -/
lemma calcTarget_spec (hq : Holds h q l) (hrounds : l.length ≤ rounds) :
    ∃ h', pqueueCalcTarget rounds h q = some h' ∧ Holds h' q l ∧ Frame l h h' :=
  forThreads_spec hq hrounds (fun _ => rfl) (fun _ => rfl) (fun _ => rfl)

/-- `pth_pqueue_update_a_rt`. -/
lemma updateART_spec (hq : Holds h q l) (hrounds : l.length ≤ rounds) (now : ℚ) :
    ∃ h', pqueueUpdateART rounds now h q = some h' ∧ Holds h' q l ∧ Frame l h h' := by
  have hsame : ∀ {β : Type} (g : Tcb Tid → β) (_ : ∀ (b : Tcb Tid) (x : ℚ),
      g { b with actual := x } = g b) (b : Tcb Tid), g (updateActual now b) = g b := by
    intro β g hg b
    unfold updateActual
    simp only
    split_ifs
    · exact hg b _
    · rfl
  exact forThreads_spec hq hrounds (hsame Tcb.qNext fun _ _ => rfl) (hsame Tcb.qPrev fun _ _ => rfl)
    (hsame Tcb.prio fun _ _ => rfl)

/-- `offset` and `total_tk` count the same tickets. -/
lemma issueBody_offset {s : Issuing Tid} (hs : s.offset = signed 64 s.totalTk) (c : Tid) :
    (issueBody s c).offset = signed 64 (issueBody s c).totalTk := by
  have hsame : ∀ k : ℕ, (s.offset + k) % 2 ^ 64 = (unsigned 64 (s.totalTk + k) : ℤ) % 2 ^ 64 := by
    intro k
    rw [natCast_unsigned, Int.emod_emod_of_dvd _ (dvd_refl _), hs, Int.add_emod, signed_emod,
      ← Int.add_emod]
  exact signed_congr (hsame _)

lemma issueTo_prio (o : ℤ) (b : Tcb Tid) : (issueTo o b).prio = b.prio := by
  unfold issueTo
  simp only
  split_ifs <;> rfl

/-- What `pth_pqueue_issue_tk` leaves alone. -/
lemma foldl_issue_frame (l : List Tid) (s : Issuing Tid) :
    Frame l s.heap (l.foldl issueBody s).heap ∧
      (∀ c, ((l.foldl issueBody s).heap c).qNext = (s.heap c).qNext) ∧
      ∀ c, ((l.foldl issueBody s).heap c).qPrev = (s.heap c).qPrev := by
  induction l generalizing s with
  | nil => exact ⟨Frame.refl _ _, fun _ => rfl, fun _ => rfl⟩
  | cons a l ih =>
      obtain ⟨hframe, hnext, hprev⟩ := ih (issueBody s a)
      have hfirst : Frame [a] s.heap (issueBody s a).heap :=
        (Frame.refl _ s.heap).update (List.mem_singleton_self a) (issueTo_prio _ _)
      refine ⟨hfirst.trans hframe, ?_, ?_⟩
      · exact fun c => (hnext c).trans (issueBody_links s a c).1
      · exact fun c => (hprev c).trans (issueBody_links s a c).2

/-- Some thread has the ticket `r`: the first one at which the total, which may wrap around later,
comes to exceed it. -/
lemma exists_winner {r : ℤ} (hr : 0 ≤ r) (hint : r < 2 ^ 31) (hnodup : l.Nodup) {s : Issuing Tid}
    (hs : s.offset = signed 64 s.totalTk) (hlow : s.totalTk ≤ r)
    (hhigh : r < (l.foldl issueBody s).totalTk) :
    ∃ c ∈ l, hasTicket ((l.foldl issueBody s).heap c) r := by
  induction l generalizing s with
  | nil => exact absurd hhigh (not_lt.mpr hlow)
  | cons a l ih =>
      obtain ⟨ha, hl⟩ := List.nodup_cons.mp hnodup
      by_cases hfirst : r < (issueBody s a).totalTk
      · have hkept : ((a :: l).foldl issueBody s).heap a = issueTo s.offset (s.heap a) := by
          rw [List.foldl_cons, (foldl_issue_frame l _).1.outside a ha]
          exact Function.update_self _ _ _
        refine ⟨a, List.mem_cons_self, ?_⟩
        rw [hkept]
        unfold issueBody at hfirst
        unfold issueTo at hfirst ⊢
        simp only at hfirst ⊢
        split_ifs at hfirst ⊢ with herr
        · unfold unsigned at hfirst
          simp only at hfirst
          omega
        · unfold hasTicket
          rw [hs] at *
          unfold signed unsigned at *
          simp only at *
          omega
      · obtain ⟨c, hc, hwin⟩ := ih hl (issueBody_offset hs a) (not_lt.mp hfirst) hhigh
        exact ⟨c, List.mem_cons_of_mem a hc, hwin⟩

/-- **What `pth_pqueue_issue_tk` does**, whatever the usages are: every number below `total_tk` that
is an `int` is a ticket of some thread. -/
theorem issueTk_spec (hq : Holds h q l) (hrounds : l.length ≤ rounds) :
    ∃ h' q', pqueueIssueTk rounds h q = some (h', q') ∧ Holds h' q' l ∧ Frame l h h' ∧
      q'.totalPrio = q.totalPrio ∧
      ∀ r : ℤ, 0 ≤ r → r < 2 ^ 31 → r < q'.totalTk → ∃ c ∈ l, hasTicket (h' c) r := by
  obtain ⟨hframe, hnext, hprev⟩ := foldl_issue_frame l ⟨h, 0, 0⟩
  have hloop : forWalk (fun (s : Issuing Tid) c => pqueueWalk s.heap q c .next) issueBody rounds
      ⟨h, 0, 0⟩ l.head? = some (l.foldl issueBody ⟨h, 0, 0⟩) := by
    apply forWalk_eq_foldl _ hrounds hq.toQueue.steps
    intro s c
    funext x
    simp only [pqueueWalk, show (fun y => ((issueBody s c).heap y).qNext) = fun y =>
      (s.heap y).qNext from funext fun y => (issueBody_links s c y).1]
  unfold pqueueIssueTk
  rw [hq.head, hloop, Option.bind_eq_bind, Option.bind_some]
  refine ⟨_, _, rfl, ⟨hq.toQueue.congr hq.head.symm hnext hprev, hq.num⟩, hframe, rfl, ?_⟩
  intro r hr hint hhigh
  have hzero : (0 : ℤ) = signed 64 (0 : ℕ) := (signed_natCast (by norm_num)).symm
  exact exists_winner hr hint hq.ring.nodup hzero hr hhigh

end tickets

/-! ## The draw -/

section draw

variable {h h' : Heap Tid} {q q' : Pqueue Tid} {l : List Tid} {rounds : ℕ} {r : ℤ}

/-- The only thread of a queue is drawn. -/
lemma deltk_only {a : Tid} (hq : Holds h q [a]) (rounds : ℕ) (r : ℤ) :
    ∃ h' q', pqueueDeltk rounds h q r = some (h', q', some a) ∧ Holds h' q' [] ∧ Frame [a] h h' ∧
      q'.totalPrio = 0 := by
  have hhead : q.qHead = some a := hq.head
  have hself : (h a).qNext = some a := ((Cycle.chain_singleton _ a).mp hq.ring.chain).1
  unfold pqueueDeltk
  rw [hhead]
  simp only
  rw [if_pos hself]
  exact ⟨_, _, rfl, ⟨⟨rfl, ⟨List.nodup_nil, trivial⟩⟩, rfl⟩,
    (Frame.refl _ h).update (List.mem_singleton_self a) rfl, rfl⟩

/-- The assignments that are made when a thread of at least two is drawn. -/
lemma deltk_run {c : Tid} {pre post : List Tid} (hq : Queue h q (pre ++ c :: post))
    (hne : pre ++ post ≠ []) (hrun : pqueueDeltk rounds h q r = some (h', q', some c)) :
    unlinkThread h c = some h' ∧ q'.qNum = q.qNum - 1 ∧
      q'.totalPrio = unsigned 64 (q.totalPrio - ((h' c).prio + 1)) := by
  obtain ⟨a, hhead, hmany⟩ := hq.exists_head hne
  unfold pqueueDeltk at hrun
  rw [hhead] at hrun
  simp only at hrun
  rw [if_neg hmany] at hrun
  simp only [Option.bind_eq_bind, Option.bind_eq_some_iff, Option.some.injEq, Prod.mk.injEq] at hrun
  obtain ⟨_, -, t, -, h₁, hunlink, rfl, rfl, rfl⟩ := hrun
  exact ⟨hunlink, rfl, rfl⟩

/-- What else is known when a thread of at least two is drawn. -/
lemma deltk_frame {c : Tid} {pre post : List Tid} (hq : Holds h q (pre ++ c :: post))
    (hne : pre ++ post ≠ []) (hrun : pqueueDeltk rounds h q r = some (h', q', some c)) :
    Frame (pre ++ c :: post) h h' ∧ q'.qNum = q.qNum - 1 ∧
      q'.totalPrio = unsigned 64 (q.totalPrio - ((h c).prio + 1)) := by
  have hc : c ∈ pre ++ c :: post := by simp
  obtain ⟨p, n, hp, hn, hpc, hnc, -⟩ := hq.ring.unlink hne
  obtain ⟨hunlink, hnum, htotal⟩ := deltk_run hq.toQueue hne hrun
  have hframe := hq.toQueue.frame_unlinkThread hc hp hn hpc hunlink
  exact ⟨hframe, hnum, by rw [htotal, hframe.prio]⟩

/-- The number of threads goes with the threads. -/
lemma deltk_holds {c : Tid} {pre post : List Tid} (hq : Holds h q (pre ++ c :: post))
    (hne : pre ++ post ≠ []) (hrun : pqueueDeltk rounds h q r = some (h', q', some c))
    (hq' : Queue h' q' (pre ++ post)) : Holds h' q' (pre ++ post) where
  toQueue := hq'
  num := by
    rw [(deltk_run hq.toQueue hne hrun).2.1, hq.num]
    simp only [List.length_append, List.length_cons]
    push_cast
    ring

/-- **What `pth_pqueue_deltk` does** when some thread of at least two has the ticket: the first one
that has it is taken out. -/
theorem deltk_of_ticket {a b : Tid} {m : List Tid} (hq : Holds h q (a :: b :: m))
    (hrounds : (a :: b :: m).length ≤ rounds)
    (hwin : ∃ d ∈ a :: b :: m, hasTicket (h d) (signed 32 r)) :
    ∃ h' q' c pre post, a :: b :: m = pre ++ c :: post ∧ hasTicket (h c) (signed 32 r) ∧
      pqueueDeltk rounds h q r = some (h', q', some c) ∧ Holds h' q' (pre ++ post) ∧
      Frame (a :: b :: m) h h' ∧ q'.totalPrio = unsigned 64 (q.totalPrio - ((h c).prio + 1)) := by
  obtain ⟨d, hd, hdwin⟩ := hwin
  obtain ⟨c, hfind⟩ : ∃ c, (a :: b :: m).find? (fun c => decide (hasTicket (h c) (signed 32 r))) =
      some c := Option.isSome_iff_exists.mp (List.find?_isSome.mpr ⟨d, hd, decide_eq_true hdwin⟩)
  obtain ⟨hc, pre, post, hl, hpre⟩ := List.find?_eq_some_iff_append.mp hfind
  have hsplit : pre ++ post ≠ [] := by
    intro hnil
    have hlen := congrArg List.length hl
    have hlen' := congrArg List.length hnil
    simp only [List.length_append, List.length_cons, List.length_nil] at hlen hlen'
    omega
  rw [hl] at hq hrounds ⊢
  obtain ⟨h', q', hrun, hq'⟩ := deltk_spec hq.toQueue hsplit hrounds (of_decide_eq_true hc)
    fun x hx => by simpa using hpre x hx
  obtain ⟨hframe, -, htotal⟩ := deltk_frame hq hsplit hrun
  exact ⟨h', q', c, pre, post, rfl, of_decide_eq_true hc, hrun, deltk_holds hq hsplit hrun hq',
    hframe, htotal⟩

/-- **The draw of the scheduler**: with `total_tk` not zero and every number that is an `int` a
ticket, a thread is drawn and the queue goes on without it. -/
theorem draw_spec (hq : Holds h q l) (hrounds : l.length ≤ rounds) (hne : l ≠ [])
    (htk : q.totalTk ≠ 0)
    (hwin : ∀ r : ℤ, 0 ≤ r → r < 2 ^ 31 → r < q.totalTk → ∃ c ∈ l, hasTicket (h c) r)
    {rand : ℕ} (hrand : rand ≤ randMax) :
    ∃ h' q' c pre post, l = pre ++ c :: post ∧ drawThread rounds h q rand = some (h', q', some c) ∧
      Holds h' q' (pre ++ post) ∧ Frame l h h' ∧
      (pre ++ post = [] ∧ q'.totalPrio = 0 ∨
        q'.totalPrio = unsigned 64 (q.totalPrio - ((h c).prio + 1))) := by
  have hlow : rand % q.totalTk < 2 ^ 31 :=
    (Nat.mod_le _ _).trans_lt (Nat.lt_of_le_of_lt hrand (by norm_num [randMax]))
  have hsigned : signed 32 ((rand % q.totalTk : ℕ) : ℤ) = (rand % q.totalTk : ℕ) :=
    signed_natCast hlow
  unfold drawThread
  rw [if_neg htk, hsigned]
  obtain ⟨d, hd, hdwin⟩ := hwin (rand % q.totalTk : ℕ) (Nat.cast_nonneg _) (by exact_mod_cast hlow)
    (by exact_mod_cast Nat.mod_lt rand (Nat.pos_of_ne_zero htk))
  rcases l with _ | ⟨a, _ | ⟨b, m⟩⟩
  · exact absurd rfl hne
  · obtain ⟨h', q', hrun, hholds, hframe, htotal⟩ := deltk_only hq rounds (rand % q.totalTk : ℕ)
    exact ⟨h', q', a, [], [], rfl, hrun, hholds, hframe, Or.inl ⟨rfl, htotal⟩⟩
  · rw [← hsigned] at hdwin
    obtain ⟨h', q', c, pre, post, hl, -, hrun, hholds, hframe, htotal⟩ :=
      deltk_of_ticket hq hrounds ⟨d, hd, hdwin⟩
    exact ⟨h', q', c, pre, post, hl, hrun, hholds, hframe, Or.inr htotal⟩

end draw

end Comp3301.Pth
