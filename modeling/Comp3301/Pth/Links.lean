import Comp3301.Lib.System
import Comp3301.Pth.Queues

/-!
# Pth: the links of a queue in every run

* `QueueMem.run` is one of the operations `pth_pqueue_insert`, `pth_pqueue_delete`,
  `pth_pqueue_delmax`, `pth_pqueue_deltk`, `pth_pqueue_favorite` and `pth_pqueue_increase` on a
  queue, or an assignment by the rest of the program, which may give `q_prio` any values but leaves
  the links of the threads in the queue alone. `QueueOp.Proper` is what the callers promise.
* `WellLinked s l`: a walk visits the threads of `l` and ends, and the links lead round them in both
  directions. `QueueOp.Changes` says which thread an operation adds or removes.
* `wellLinked_of_reach`: in every run the queue is well linked, and every operation comes to its
  end. That the threads are ordered by priority is not used: `pth_pqueue_insert` ends at the last
  thread at the latest, wherever the values of `q_prio` lead it.
-/

set_option linter.unusedSectionVars false

namespace Comp3301.Pth

open Comp3301.Lib

variable {Tid : Type} [DecidableEq Tid]

/-! ## Operations -/

/-- A queue and the control blocks of all threads. -/
structure QueueMem (Tid : Type) where
  heap : Heap Tid
  queue : Pqueue Tid

/-- What is done to a queue. With `assign` the rest of the program replaces control blocks and the
totals of the queue. -/
inductive QueueOp (Tid : Type) where
  | insert (prio : ℤ) (t : Tid)
  | delete (t : Tid)
  | delmax
  | deltk (ltrNum : ℤ)
  | favorite (t : Tid)
  | increase
  | assign (heap : Heap Tid) (totalPrio totalTk : ℕ)

namespace QueueMem

variable (s : QueueMem Tid)

/-- `pth_pqueue_contains` finds the thread. -/
def Contains (t : Tid) : Prop := ∃ rounds, pqueueContains rounds s.heap s.queue t = some true

/-- One operation, with the thread that it returns. -/
def run (rounds : ℕ) : QueueOp Tid → Option (QueueMem Tid × Option Tid)
  | .insert prio t => do
      let (h, q) ← pqueueInsert rounds s.heap s.queue prio t
      some (⟨h, q⟩, none)
  | .delete t => do
      let (h, q) ← pqueueDelete s.heap s.queue t
      some (⟨h, q⟩, none)
  | .delmax => do
      let (h, q, t) ← pqueueDelmax s.heap s.queue
      some (⟨h, q⟩, t)
  | .deltk ltrNum => do
      let (h, q, t) ← pqueueDeltk rounds s.heap s.queue ltrNum
      some (⟨h, q⟩, t)
  | .favorite t => do
      let (_, h, q) ← pqueueFavorite rounds s.heap s.queue t
      some (⟨h, q⟩, none)
  | .increase => some (⟨pqueueIncrease s.heap s.queue, s.queue⟩, none)
  | .assign heap totalPrio totalTk =>
      some (⟨heap, { s.queue with totalPrio := totalPrio, totalTk := totalTk }⟩, none)

/-- An operation leads to `s'`, with as many rounds as its loops take. -/
def Next (op : QueueOp Tid) (s' : QueueMem Tid) : Prop :=
  ∃ n, ∀ rounds ≥ n, (s.run rounds op).map Prod.fst = some s'

/-- What the callers promise: a thread is not inserted twice, a thread that is deleted is in the
queue, some thread has the number that is drawn unless there is no choice. -/
def Proper : QueueOp Tid → Prop
  | .insert _ t => ¬ s.Contains t
  | .delete t => s.Contains t
  | .delmax => True
  | .deltk ltrNum =>
      (∃ t, s.Contains t ∧ hasTicket (s.heap t) (signed 32 ltrNum)) ∨ s.queue.qNum ≤ 1
  | .favorite t => s.Contains t ∨ s.queue.qNum ≤ 1
  | .increase => True
  | .assign heap _ _ => ∀ t, s.Contains t →
      (heap t).qNext = (s.heap t).qNext ∧ (heap t).qPrev = (s.heap t).qPrev

end QueueMem

/-- The threads `l` before an operation, those behind it, and the thread that it returns. -/
def QueueOp.Changes (h : Heap Tid) (l l' : List Tid) (returned : Option Tid) : QueueOp Tid → Prop
  | .insert _ t => l'.Perm (t :: l)
  | .delete t => l' = l.erase t
  | .delmax => l' = l.tail ∧ returned = l.head?
  | .deltk ltrNum =>
      (l.length ≤ 1 ∧ l' = [] ∧ returned = l.head?) ∨
        ∃ t ∈ l, hasTicket (h t) (signed 32 ltrNum) ∧ l' = l.erase t ∧ returned = some t
  | .favorite _ => l'.Perm l
  | .increase => l' = l
  | .assign _ _ _ => l' = l

/-- The queue is a circular list of the threads `l`, linked in both directions. -/
structure WellLinked (s : QueueMem Tid) (l : List Tid) : Prop where
  walk : ∀ rounds ≥ l.length, pqueueThreads rounds s.heap s.queue = some l
  nodup : l.Nodup
  num : s.queue.qNum = l.length
  head : s.queue.qHead = none ↔ s.queue.qNum = 0
  next : ∀ c ∈ l, ∃ n ∈ l, (s.heap c).qNext = some n ∧ (s.heap n).qPrev = some c
  prev : ∀ c ∈ l, ∃ p ∈ l, (s.heap c).qPrev = some p ∧ (s.heap p).qNext = some c
  closed : ∀ c, l.getLast? = some c → (s.heap c).qNext = s.queue.qHead

/-! ## More rounds -/

section mono

variable {h : Heap Tid} {q : Pqueue Tid} {n m : ℕ}

lemma insertBehind_mono (hnm : n ≤ m) {prio p : ℤ} {c : Tid} {res : Tid × ℤ}
    (hrun : insertBehind h q prio n c p = some res) :
    insertBehind h q prio m c p = some res := by
  induction n generalizing m c p with
  | zero => cases hrun
  | succ n ih =>
      obtain ⟨m, rfl⟩ := Nat.exists_eq_succ_of_ne_zero (Nat.ne_zero_of_lt hnm)
      rw [insertBehind, Option.bind_eq_bind, Option.bind_eq_some_iff] at hrun ⊢
      obtain ⟨next, hnext, hrun⟩ := hrun
      refine ⟨next, hnext, ?_⟩
      split_ifs at hrun ⊢ with hcond
      · exact ih (Nat.le_of_succ_le_succ hnm) hrun
      · exact hrun

lemma pqueueInsert_mono (hnm : n ≤ m) {prio : ℤ} {t : Tid} {res : Heap Tid × Pqueue Tid}
    (hrun : pqueueInsert n h q prio t = some res) : pqueueInsert m h q prio t = some res := by
  unfold pqueueInsert at hrun ⊢
  generalize (if q.qNum = 0 then none else q.qHead) = first at hrun ⊢
  rcases first with _ | head
  · exact hrun
  · simp only at hrun ⊢
    split_ifs at hrun ⊢ with hprio
    · exact hrun
    · rw [Option.bind_eq_bind, Option.bind_eq_some_iff] at hrun ⊢
      obtain ⟨behind, hbehind, hrun⟩ := hrun
      exact ⟨behind, insertBehind_mono hnm hbehind, hrun⟩

lemma pqueueFavorite_mono (hnm : n ≤ m) {t : Tid} {res : Bool × Heap Tid × Pqueue Tid}
    (hrun : pqueueFavorite n h q t = some res) : pqueueFavorite m h q t = some res := by
  unfold pqueueFavorite at hrun ⊢
  split_ifs at hrun ⊢
  · exact hrun
  · exact hrun
  · rw [Option.bind_eq_bind, Option.bind_eq_some_iff] at hrun ⊢
    obtain ⟨⟨h', q'⟩, hdeleted, hrun⟩ := hrun
    refine ⟨(h', q'), hdeleted, ?_⟩
    simp only at hrun ⊢
    rw [Option.bind_eq_some_iff] at hrun ⊢
    obtain ⟨inserted, hinserted, hrun⟩ := hrun
    exact ⟨inserted, pqueueInsert_mono hnm hinserted, hrun⟩

lemma pqueueDeltk_mono (hnm : n ≤ m) {r : ℤ} {res : Heap Tid × Pqueue Tid × Option Tid}
    (hrun : pqueueDeltk n h q r = some res) : pqueueDeltk m h q r = some res := by
  unfold pqueueDeltk at hrun ⊢
  rcases hhead : q.qHead with _ | head
  · rw [hhead] at hrun
    exact hrun
  · rw [hhead] at hrun
    simp only at hrun ⊢
    split_ifs at hrun ⊢
    · exact hrun
    · rw [Option.bind_eq_bind, Option.bind_eq_some_iff] at hrun ⊢
      obtain ⟨found, hfound, hrun⟩ := hrun
      exact ⟨found, findWalk_mono hnm hfound, hrun⟩

lemma pqueueContains_mono (hnm : n ≤ m) {t : Tid} {b : Bool}
    (hrun : pqueueContains n h q t = some b) : pqueueContains m h q t = some b := by
  unfold pqueueContains at hrun ⊢
  rw [Option.map_eq_some_iff] at hrun ⊢
  obtain ⟨found, hfound, hb⟩ := hrun
  exact ⟨found, findWalk_mono hnm hfound, hb⟩

/-- With more rounds an operation does the same. -/
lemma QueueMem.run_mono {s : QueueMem Tid} {op : QueueOp Tid} {res : QueueMem Tid × Option Tid}
    (hnm : n ≤ m) (hrun : s.run n op = some res) : s.run m op = some res := by
  cases op with
  | insert prio t =>
      simp only [run, Option.bind_eq_bind, Option.bind_eq_some_iff] at hrun ⊢
      obtain ⟨inserted, hinserted, hrun⟩ := hrun
      exact ⟨inserted, pqueueInsert_mono hnm hinserted, hrun⟩
  | deltk ltrNum =>
      simp only [run, Option.bind_eq_bind, Option.bind_eq_some_iff] at hrun ⊢
      obtain ⟨drawn, hdrawn, hrun⟩ := hrun
      exact ⟨drawn, pqueueDeltk_mono hnm hdrawn, hrun⟩
  | favorite t =>
      simp only [run, Option.bind_eq_bind, Option.bind_eq_some_iff] at hrun ⊢
      obtain ⟨favoured, hfavoured, hrun⟩ := hrun
      exact ⟨favoured, pqueueFavorite_mono hnm hfavoured, hrun⟩
  | delete t => exact hrun
  | delmax => exact hrun
  | increase => exact hrun
  | assign heap totalPrio totalTk => exact hrun

end mono

/-! ## One operation -/

section operation

variable {s s' : QueueMem Tid} {l l' : List Tid} {op : QueueOp Tid}

lemma QueueMem.contains_iff (hq : Holds s.heap s.queue l) {t : Tid} : s.Contains t ↔ t ∈ l := by
  constructor
  · rintro ⟨rounds, hrun⟩
    have hmore := pqueueContains_mono (le_max_left rounds l.length) hrun
    rw [contains_eq hq.toQueue (le_max_right rounds l.length), Option.some.injEq] at hmore
    exact of_decide_eq_true hmore
  · intro ht
    exact ⟨l.length, by rw [contains_eq hq.toQueue le_rfl, decide_eq_true ht]⟩

lemma erase_middle {pre post : List Tid} {t : Tid} (hnodup : (pre ++ t :: post).Nodup) :
    (pre ++ t :: post).erase t = pre ++ post := by
  have hpre : t ∉ pre := fun ht => (List.nodup_append.mp hnodup).2.2 t ht t List.mem_cons_self rfl
  rw [List.erase_append_right _ hpre, List.erase_cons_head]

/-- A queue of one thread at most. -/
lemma Holds.length_le_one {h : Heap Tid} {q : Pqueue Tid} (hq : Holds h q l) (hnum : q.qNum ≤ 1) :
    l.length ≤ 1 := by
  have hlength := hq.num
  omega

/-- Removing the maximum is deleting the head. -/
lemma delmax_eq {h : Heap Tid} {q : Pqueue Tid} {a : Tid} (ha : q.qHead = some a) :
    pqueueDelmax h q = (pqueueDelete h q a).map fun res => (res.1, res.2, some a) := by
  unfold pqueueDelmax pqueueDelete
  rw [ha]
  simp only [if_true]
  split_ifs
  · rfl
  · cases unlinkThread h a <;> rfl

/-- Where an operation leads. -/
def Leads (s : QueueMem Tid) (l : List Tid) (op : QueueOp Tid) : Prop :=
  ∃ s' returned l', s.run l.length op = some (s', returned) ∧ Holds s'.heap s'.queue l' ∧
    op.Changes s.heap l l' returned

lemma leads_insert (hq : Holds s.heap s.queue l) (prio : ℤ) {t : Tid} (ht : t ∉ l) :
    Leads s l (.insert prio t) := by
  obtain ⟨h', q', l', hrun, hholds, hperm, -⟩ := insert_spec hq ht le_rfl prio
  refine ⟨⟨h', q'⟩, none, l', ?_, hholds, hperm⟩
  rw [QueueMem.run, hrun, Option.bind_eq_bind, Option.bind_some]

lemma leads_delete (hq : Holds s.heap s.queue l) {t : Tid} (ht : t ∈ l) :
    Leads s l (.delete t) := by
  obtain ⟨pre, post, rfl⟩ := List.append_of_mem ht
  obtain ⟨h', q', hrun, hholds, -⟩ := delete_spec hq
  refine ⟨⟨h', q'⟩, none, pre ++ post, ?_, hholds, (erase_middle hq.ring.nodup).symm⟩
  rw [QueueMem.run, hrun, Option.bind_eq_bind, Option.bind_some]

lemma leads_delmax (hq : Holds s.heap s.queue l) : Leads s l .delmax := by
  have hhead : s.queue.qHead = l.head? := hq.head
  rcases l with _ | ⟨a, m⟩
  · refine ⟨s, none, [], ?_, hq, rfl, rfl⟩
    simp [QueueMem.run, pqueueDelmax, hhead]
  · have hq' : Holds s.heap s.queue ([] ++ a :: m) := hq
    obtain ⟨h', q', hrun, hholds, -⟩ := delete_spec hq'
    refine ⟨⟨h', q'⟩, some a, m, ?_, hholds, rfl, rfl⟩
    rw [QueueMem.run, delmax_eq hhead, hrun, Option.map_some, Option.bind_eq_bind, Option.bind_some]

lemma leads_deltk_of_le_one (hq : Holds s.heap s.queue l) (ltrNum : ℤ) (hlength : l.length ≤ 1) :
    Leads s l (.deltk ltrNum) := by
  have hhead : s.queue.qHead = l.head? := hq.head
  rcases l with _ | ⟨a, _ | ⟨b, m⟩⟩
  · refine ⟨s, none, [], ?_, hq, Or.inl ⟨hlength, rfl, rfl⟩⟩
    simp [QueueMem.run, pqueueDeltk, hhead]
  · obtain ⟨h', q', hrun, hholds, -⟩ := deltk_only hq [a].length ltrNum
    refine ⟨⟨h', q'⟩, some a, [], ?_, hholds, Or.inl ⟨hlength, rfl, rfl⟩⟩
    rw [QueueMem.run, hrun, Option.bind_eq_bind, Option.bind_some]
  · simp at hlength

lemma leads_deltk (hq : Holds s.heap s.queue l) {ltrNum : ℤ} {t : Tid} (ht : t ∈ l)
    (hwin : hasTicket (s.heap t) (signed 32 ltrNum)) : Leads s l (.deltk ltrNum) := by
  rcases l with _ | ⟨a, _ | ⟨b, m⟩⟩
  · cases ht
  · exact leads_deltk_of_le_one hq ltrNum le_rfl
  · obtain ⟨h', q', c, pre, post, hl, hc, hrun, hholds, -⟩ :=
      deltk_of_ticket hq le_rfl ⟨t, ht, hwin⟩
    refine ⟨⟨h', q'⟩, some c, pre ++ post, ?_, hholds, Or.inr ⟨c, by simp [hl], hc, ?_, rfl⟩⟩
    · rw [QueueMem.run, hrun, Option.bind_eq_bind, Option.bind_some]
    · rw [hl, erase_middle (hl ▸ hq.ring.nodup)]

lemma leads_favorite (hq : Holds s.heap s.queue l) {t : Tid} (ht : t ∈ l) :
    Leads s l (.favorite t) := by
  obtain ⟨b, h', q', l', hrun, hholds, hperm, -⟩ := favorite_spec hq ht le_rfl
  refine ⟨⟨h', q'⟩, none, l', ?_, hholds, hperm⟩
  rw [QueueMem.run, hrun, Option.bind_eq_bind, Option.bind_some]

/-- With one thread at most nothing is moved. -/
lemma leads_favorite_of_le_one (hq : Holds s.heap s.queue l) (t : Tid) (hlength : l.length ≤ 1) :
    Leads s l (.favorite t) := by
  obtain ⟨b, hrun⟩ : ∃ b, pqueueFavorite l.length s.heap s.queue t =
      some (b, s.heap, s.queue) := by
    unfold pqueueFavorite
    split_ifs with hempty hone
    · exact ⟨false, rfl⟩
    · exact ⟨true, rfl⟩
    · have hnum := hq.num
      omega
  refine ⟨s, none, l, ?_, hq, List.Perm.refl l⟩
  rw [QueueMem.run, hrun, Option.bind_eq_bind, Option.bind_some]

lemma leads_increase (hq : Holds s.heap s.queue l) : Leads s l .increase := by
  refine ⟨_, _, l, rfl, ⟨⟨hq.head, ?_⟩, hq.num⟩, rfl⟩
  unfold pqueueIncrease
  rcases s.queue.qHead with _ | a
  · exact hq.ring
  · simp only
    rw [next_setQPrio, prev_setQPrio]
    exact hq.ring

lemma leads_assign (hq : Holds s.heap s.queue l) {heap : Heap Tid} (totalPrio totalTk : ℕ)
    (hlinks : ∀ t ∈ l, (heap t).qNext = (s.heap t).qNext ∧ (heap t).qPrev = (s.heap t).qPrev) :
    Leads s l (.assign heap totalPrio totalTk) := by
  refine ⟨_, _, l, rfl, ⟨⟨hq.head, hq.ring.congr ?_ ?_⟩, hq.num⟩, rfl⟩
  · exact fun c hc => (hlinks c hc).1
  · exact fun c hc => (hlinks c hc).2

/-- **What an operation does** when the callers keep their promise. -/
theorem leads_of_proper (hq : Holds s.heap s.queue l) (hop : s.Proper op) : Leads s l op := by
  cases op with
  | insert prio t => exact leads_insert hq prio fun ht => hop ((s.contains_iff hq).mpr ht)
  | delete t => exact leads_delete hq ((s.contains_iff hq).mp hop)
  | delmax => exact leads_delmax hq
  | deltk ltrNum =>
      rcases hop with ⟨t, ht, hwin⟩ | hnum
      · exact leads_deltk hq ((s.contains_iff hq).mp ht) hwin
      · exact leads_deltk_of_le_one hq ltrNum (hq.length_le_one hnum)
  | favorite t =>
      rcases hop with ht | hnum
      · exact leads_favorite hq ((s.contains_iff hq).mp ht)
      · exact leads_favorite_of_le_one hq t (hq.length_le_one hnum)
  | increase => exact leads_increase hq
  | assign heap totalPrio totalTk =>
      exact leads_assign hq totalPrio totalTk fun t ht => hop t ((s.contains_iff hq).mpr ht)

/-- A queue that holds threads is well linked. -/
lemma Holds.wellLinked (hq : Holds s.heap s.queue l) : WellLinked s l where
  walk := fun _ hrounds => threads_eq hq.toQueue hrounds
  nodup := hq.ring.nodup
  num := hq.num
  head := by
    rw [hq.head, hq.num]
    simp
  next := fun _ hc => (hq.ring.exists_linked hc).1
  prev := by
    intro c hc
    obtain ⟨-, p, hp, hnext, hprev⟩ := hq.ring.exists_linked hc
    exact ⟨p, hp, hprev, hnext⟩
  closed := by
    intro c hc
    obtain ⟨pre, hl⟩ := List.getLast?_eq_some_iff.mp hc
    exact (hl ▸ hq.toQueue).next_last

end operation

/-! ## Runs -/

section runs

variable {heap : Heap Tid} {s : QueueMem Tid}

/-- The invariant of a run. -/
lemma holds_of_reach
    (hreach : Reach ⟨heap, pqueueInit⟩ QueueMem.Next (fun s op => s.Proper op) s) :
    ∃ l, Holds s.heap s.queue l := by
  have hinit : Holds heap pqueueInit ([] : List Tid) := ⟨⟨rfl, List.nodup_nil, trivial⟩, rfl⟩
  refine hreach.invariant (P := fun s => ∃ l, Holds s.heap s.queue l) ⟨[], hinit⟩ ?_
  rintro s op s' - ⟨l, hq⟩ hop ⟨n, hnext⟩
  obtain ⟨s'', returned, l', hrun, hholds, -⟩ := leads_of_proper hq hop
  have hmore := hnext (max n l.length) (le_max_left _ _)
  rw [s.run_mono (le_max_right n l.length) hrun, Option.map_some, Option.some.injEq] at hmore
  exact ⟨l', hmore ▸ hholds⟩

/-- **The queue is a circular list in every run**, whatever values `q_prio` is given, and every
operation comes to its end and adds or removes the thread it should. -/
theorem wellLinked_of_reach
    (hreach : Reach ⟨heap, pqueueInit⟩ QueueMem.Next (fun s op => s.Proper op) s) :
    ∃ l, WellLinked s l ∧ ∀ op, s.Proper op →
      ∃ s' returned l', (∀ rounds ≥ l.length, s.run rounds op = some (s', returned)) ∧
        WellLinked s' l' ∧ op.Changes s.heap l l' returned := by
  obtain ⟨l, hq⟩ := holds_of_reach hreach
  refine ⟨l, hq.wellLinked, fun op hop => ?_⟩
  obtain ⟨s', returned, l', hrun, hholds, hchanges⟩ := leads_of_proper hq hop
  exact ⟨s', returned, l', fun _ hrounds => s.run_mono hrounds hrun, hholds.wellLinked, hchanges⟩

end runs

/-- Threads that are in no queue. -/
def unlinked : Heap ℕ := fun _ => ⟨0, 0, 0, 0, none, none, 0, 0, 0, 0⟩

/-- The thread 0 has been inserted with priority 7. -/
def oneThread : QueueMem ℕ :=
  ⟨setQPrio (setNext (setPrev unlinked 0 (some 0)) 0 (some 0)) 0 7, ⟨some 0, 1, 1, 0⟩⟩

lemma reach_oneThread :
    Reach ⟨unlinked, pqueueInit⟩ QueueMem.Next (fun s op => s.Proper op) oneThread := by
  have hempty : Holds unlinked pqueueInit ([] : List ℕ) := ⟨⟨rfl, List.nodup_nil, trivial⟩, rfl⟩
  refine Reach.init.step (k := .insert 7 0) ?_ ⟨0, fun rounds _ => rfl⟩
  exact fun hmem => List.not_mem_nil ((QueueMem.contains_iff hempty).mp hmem)

/-- The queue of one thread. -/
theorem wellLinked_of_reach_oneThread :
    ∃ l, WellLinked oneThread l ∧ ∀ op, oneThread.Proper op →
      ∃ s' returned l', (∀ rounds ≥ l.length, oneThread.run rounds op = some (s', returned)) ∧
        WellLinked s' l' ∧ op.Changes oneThread.heap l l' returned :=
  wellLinked_of_reach reach_oneThread

end Comp3301.Pth
