import Comp3301.Lib.Memory
import Comp3301.Lib.Ring
import Mathlib.Algebra.Order.Floor.Semiring
import Mathlib.Data.Rat.Floor

/-!
# Pth: priority queues and the lottery

The priority queues of `pth_pqueue.c` and the part of `pth_scheduler` that draws the next thread.

* Threads are named by the elements of a type `Tid`; a `Heap` gives the control block of each. A
  queue points to its first thread, and the threads are linked in a ring. `none` is `NULL` for a
  pointer.
* CPU usages and times are exact rational numbers; tickets, offsets and totals are the machine
  integers of the source (`unsigned long` and `long` with 64 bits).
* A function that walks the ring takes the number of rounds its loop may make. Its result is `none`
  when that number does not suffice, when `NULL` is dereferenced, when a variable is read that has
  not been set, and when a division is by zero.
-/

namespace Comp3301.Pth

open Comp3301.Lib

/-! ## Data -/

variable {Tid : Type}

/-- `struct pth_st`, as far as scheduling is concerned. -/
structure Tcb (Tid : Type) where
  /-- `tk.offset`: the first ticket. -/
  offset : ℤ
  /-- `tk.tk_num`: the number of tickets. -/
  tkNum : ℕ
  /-- `cpu_rt.target`, in percent. -/
  target : ℚ
  /-- `cpu_rt.actual`, in percent. -/
  actual : ℚ
  qNext : Option Tid
  qPrev : Option Tid
  qPrio : ℤ
  prio : ℤ
  spawned : ℚ
  running : ℚ

/-- The control blocks of all threads. -/
abbrev Heap (Tid : Type) := Tid → Tcb Tid

/-- `struct pth_pqueue_st`. -/
structure Pqueue (Tid : Type) where
  qHead : Option Tid
  qNum : ℤ
  totalPrio : ℕ
  totalTk : ℕ

/-- The directions of `pth_pqueue_walk`. -/
inductive WalkDirection where
  | prev
  | next
  deriving DecidableEq, Repr

variable [DecidableEq Tid]

/-- `pth_pqueue_walk`. -/
def pqueueWalk (h : Heap Tid) (q : Pqueue Tid) (t : Tid) : WalkDirection → Option Tid
  | .prev => if some t ≠ q.qHead then (h t).qPrev else none
  | .next => walkNext (fun c => (h c).qNext) q.qHead t

/-- A loop `for (c = q->q_head; c != NULL; c = pth_pqueue_walk (q, c, PTH_WALK_NEXT))` that
replaces control blocks one by one. -/
def forThreads (rounds : ℕ) (h : Heap Tid) (q : Pqueue Tid) (f : Tcb Tid → Tcb Tid) :
    Option (Heap Tid) :=
  forWalk (fun h c => pqueueWalk h q c .next) (fun h c => Function.update h c (f (h c))) rounds h
    q.qHead

/-! ## Usages and tickets -/

/-- The body of `pth_pqueue_update_a_rt`, at the time `now`. -/
def updateActual (now : ℚ) (c : Tcb Tid) : Tcb Tid :=
  let lifetime := now - c.spawned
  if lifetime ≠ 0 then { c with actual := c.running / lifetime * 100 } else c

/-- `pth_pqueue_update_a_rt`, at the time `now`. -/
def pqueueUpdateART (rounds : ℕ) (now : ℚ) (h : Heap Tid) (q : Pqueue Tid) : Option (Heap Tid) :=
  forThreads rounds h q (updateActual now)

/-- The target that a share of the CPU comes to, in percent. -/
def targetOf (totalPrio : ℕ) (prio : ℤ) : ℚ := 100 / totalPrio * (prio + 1)

/-- `pth_pqueue_calc_target`. -/
def pqueueCalcTarget (rounds : ℕ) (h : Heap Tid) (q : Pqueue Tid) : Option (Heap Tid) :=
  forThreads rounds h q fun c => { c with target := targetOf q.totalPrio c.prio }

/-- The variables of `pth_pqueue_issue_tk`. -/
structure Issuing (Tid : Type) where
  heap : Heap Tid
  totalTk : ℕ
  offset : ℤ

/-- The tickets of a thread, when the next free one is `offset`. -/
def issueTo (offset : ℤ) (c : Tcb Tid) : Tcb Tid :=
  let err := c.target - c.actual
  if err < 0 then { c with tkNum := 0, offset := 0 }
  else { c with tkNum := unsigned 64 (⌊err * 5⌋₊ * ⌊err * 5⌋₊), offset := offset }

/-- The body of `pth_pqueue_issue_tk`. -/
def issueBody (s : Issuing Tid) (c : Tid) : Issuing Tid :=
  let t := issueTo s.offset (s.heap c)
  { heap := Function.update s.heap c t
    totalTk := unsigned 64 (s.totalTk + t.tkNum)
    offset := signed 64 (s.offset + t.tkNum) }

/-- `pth_pqueue_issue_tk`. -/
def pqueueIssueTk (rounds : ℕ) (h : Heap Tid) (q : Pqueue Tid) :
    Option (Heap Tid × Pqueue Tid) := do
  let s ← forWalk (fun s c => pqueueWalk s.heap q c .next) issueBody rounds ⟨h, 0, 0⟩ q.qHead
  some (s.heap, { q with totalTk := s.totalTk })

/-! ## The draw -/

/-- The test for the winning ticket in `pth_pqueue_deltk`, for the value of the `int`. The second
comparison is made in `unsigned long`. -/
def hasTicket (c : Tcb Tid) (ltrNum : ℤ) : Prop :=
  ltrNum ≥ c.offset ∧ unsigned 64 ltrNum < unsigned 64 (c.offset + c.tkNum)

instance (c : Tcb Tid) (ltrNum : ℤ) : Decidable (hasTicket c ltrNum) :=
  inferInstanceAs (Decidable (_ ∧ _))

/-- Take `t` out of the ring: the assignments to the links and to `q_prio`. -/
def unlinkThread (h : Heap Tid) (t : Tid) : Option (Heap Tid) := do
  let p ← (h t).qPrev
  let h := Function.update h p { h p with qNext := (h t).qNext }
  let n ← (h t).qNext
  let h := Function.update h n { h n with qPrev := (h t).qPrev }
  let h := Function.update h n { h n with qPrio := (h t).qPrio - (h n).qPrio }
  some (Function.update h t { h t with qPrio := 0 })

/-- `pth_pqueue_deltk`. The number is passed as an `int`. With one thread in the queue it is not
looked at; with more, `t` is not set when no thread has the ticket. -/
def pqueueDeltk (rounds : ℕ) (h : Heap Tid) (q : Pqueue Tid) (ltrNum : ℤ) :
    Option (Heap Tid × Pqueue Tid × Option Tid) :=
  match q.qHead with
  | none => some (h, q, none)
  | some head =>
      if (h head).qNext = some head then
        some (Function.update h head { h head with qNext := none, qPrev := none, qPrio := 0 },
          { q with qHead := none, qNum := 0, totalPrio := 0 }, some head)
      else do
        let found ← findWalk (fun c => pqueueWalk h q c .next)
          (fun c => hasTicket (h c) (signed 32 ltrNum)) rounds q.qHead
        let t ← found
        let h ← unlinkThread h t
        some (h,
          { q with
            qHead := if q.qHead = some t then (h t).qNext else q.qHead
            qNum := q.qNum - 1
            totalPrio := unsigned 64 (q.totalPrio - ((h t).prio + 1)) }, some t)

/-- `RAND_MAX`, the largest value of `rand ()`. -/
def randMax : ℕ := 2147483647

/-- `ltr_num = rand () % pth_RQ.total_tk; pth_current = pth_pqueue_deltk (&pth_RQ, ltr_num);` with
`rand` the value of `rand ()`. -/
def drawThread (rounds : ℕ) (h : Heap Tid) (q : Pqueue Tid) (rand : ℕ) :
    Option (Heap Tid × Pqueue Tid × Option Tid) :=
  if q.totalTk = 0 then none
  else
    let ltrNum := signed 32 (rand % q.totalTk : ℕ)
    pqueueDeltk rounds h q ltrNum

/-- The thread that the number draws. -/
def Wins (rounds : ℕ) (h : Heap Tid) (q : Pqueue Tid) (ltrNum : ℤ) (c : Tid) : Prop :=
  (pqueueDeltk rounds h q ltrNum).map (fun res => res.2.2) = some (some c)

instance (rounds : ℕ) (h : Heap Tid) (q : Pqueue Tid) (ltrNum : ℤ) (c : Tid) :
    Decidable (Wins rounds h q ltrNum c) :=
  inferInstanceAs (Decidable (_ = _))

/-! ## Inserting and deleting -/

/-- `PTH_PRIO_MAX`. -/
def prioMax : ℤ := 5

/-- `PTH_PRIO_STD`. -/
def prioStd : ℤ := 0

/-- `PTH_PRIO_MIN`. -/
def prioMin : ℤ := -5

/-- `pth_pqueue_init`. -/
def pqueueInit : Pqueue Tid := ⟨none, 0, 0, 0⟩

/-- The loop of `pth_pqueue_insert`: the thread behind which the new one goes, and `p` there. -/
def insertBehind (h : Heap Tid) (q : Pqueue Tid) (prio : ℤ) : ℕ → Tid → ℤ → Option (Tid × ℤ)
  | 0, _, _ => none
  | rounds + 1, c, p => do
      let n ← (h c).qNext
      if p - (h n).qPrio ≥ prio ∧ some n ≠ q.qHead then
        insertBehind h q prio rounds n (p - (h n).qPrio)
      else some (c, p)

/-- `t->q_next = n`. -/
def setNext (h : Heap Tid) (t : Tid) (n : Option Tid) : Heap Tid :=
  Function.update h t { h t with qNext := n }

/-- `t->q_prev = p`. -/
def setPrev (h : Heap Tid) (t : Tid) (p : Option Tid) : Heap Tid :=
  Function.update h t { h t with qPrev := p }

/-- `t->q_prio = prio`. -/
def setQPrio (h : Heap Tid) (t : Tid) (prio : ℤ) : Heap Tid :=
  Function.update h t { h t with qPrio := prio }

/-- The links when `t` is put between `p` and `n`. -/
def linkThread (h : Heap Tid) (t p n : Tid) : Heap Tid :=
  let h := setNext (setPrev h t (some p)) t (some n)
  setPrev (setNext h p (some t)) n (some t)

/-- `pth_pqueue_insert`. -/
def pqueueInsert (rounds : ℕ) (h : Heap Tid) (q : Pqueue Tid) (prio : ℤ) (t : Tid) :
    Option (Heap Tid × Pqueue Tid) :=
  let q' := { q with
    qNum := q.qNum + 1
    totalPrio := unsigned 64 (q.totalPrio + ((h t).prio + 1)) }
  match if q.qNum = 0 then none else q.qHead with
  | none =>
      -- add as first element
      some (setQPrio (setNext (setPrev h t (some t)) t (some t)) t prio,
        { q' with qHead := some t })
  | some head =>
      if (h head).qPrio < prio then do
        -- add as new head of queue
        let p ← (h head).qPrev
        let h := setQPrio (linkThread h t p head) t prio
        some (setQPrio h head (prio - (h head).qPrio), { q' with qHead := some t })
      else do
        -- insert after elements with greater or equal priority
        let (c, p) ← insertBehind h q prio rounds head (h head).qPrio
        let n ← (h c).qNext
        let h := setQPrio (linkThread h t c n) t (p - prio)
        some (if some n ≠ q.qHead then setQPrio h n ((h n).qPrio - (h t).qPrio) else h, q')

/-- `pth_pqueue_delete`. The total priority is left as it is. -/
def pqueueDelete (h : Heap Tid) (q : Pqueue Tid) (t : Tid) : Option (Heap Tid × Pqueue Tid) :=
  match q.qHead with
  | none => some (h, q)
  | some head =>
      if head = t then
        if (h t).qNext = some t then
          -- remove the last element and make queue empty
          some (setQPrio (setPrev (setNext h t none) t none) t 0,
            { q with qHead := none, qNum := 0 })
        else do
          -- remove head of queue
          let h ← unlinkThread h t
          some (h, { q with qHead := (h t).qNext, qNum := q.qNum - 1 })
      else do
        let p ← (h t).qPrev
        let h := setNext h p (h t).qNext
        let n ← (h t).qNext
        let h := setPrev h n (h t).qPrev
        let h := if some n ≠ q.qHead then setQPrio h n ((h n).qPrio + (h t).qPrio) else h
        some (setQPrio h t 0, { q with qNum := q.qNum - 1 })

/-- `pth_pqueue_delmax`. The total priority is left as it is. -/
def pqueueDelmax (h : Heap Tid) (q : Pqueue Tid) : Option (Heap Tid × Pqueue Tid × Option Tid) :=
  match q.qHead with
  | none => some (h, q, none)
  | some head =>
      if (h head).qNext = some head then
        -- remove the last element and make queue empty
        some (setQPrio (setPrev (setNext h head none) head none) head 0,
          { q with qHead := none, qNum := 0 }, some head)
      else do
        -- remove head of queue
        let h ← unlinkThread h head
        some (h, { q with qHead := (h head).qNext, qNum := q.qNum - 1 }, some head)

/-- `pth_pqueue_favorite_prio`. -/
def pqueueFavoritePrio (h : Heap Tid) (q : Pqueue Tid) : ℤ :=
  match q.qHead with
  | none => prioMax
  | some head => (h head).qPrio + 1

/-- `pth_pqueue_favorite`. -/
def pqueueFavorite (rounds : ℕ) (h : Heap Tid) (q : Pqueue Tid) (t : Tid) :
    Option (Bool × Heap Tid × Pqueue Tid) :=
  if q.qHead = none ∨ q.qNum = 0 then some (false, h, q)
  else if q.qNum = 1 then some (true, h, q)
  else do
    let (h, q) ← pqueueDelete h q t
    let (h, q) ← pqueueInsert rounds h q (pqueueFavoritePrio h q) t
    some (true, h, q)

/-- `pth_pqueue_increase`. -/
def pqueueIncrease (h : Heap Tid) (q : Pqueue Tid) : Heap Tid :=
  match q.qHead with
  | none => h
  | some head => setQPrio h head ((h head).qPrio + 1)

/-- `pth_pqueue_tail`. -/
def pqueueTail (h : Heap Tid) (q : Pqueue Tid) : Option Tid :=
  q.qHead.bind fun head => (h head).qPrev

/-- `pth_pqueue_contains`. -/
def pqueueContains (rounds : ℕ) (h : Heap Tid) (q : Pqueue Tid) (t : Tid) : Option Bool :=
  (findWalk (fun c => pqueueWalk h q c .next) (· = t) rounds q.qHead).map Option.isSome

/-- The threads that a walk through the queue visits. -/
def pqueueThreads (rounds : ℕ) (h : Heap Tid) (q : Pqueue Tid) : Option (List Tid) :=
  forWalk (fun _ c => pqueueWalk h q c .next) (fun l c => l ++ [c]) rounds [] q.qHead

end Comp3301.Pth
