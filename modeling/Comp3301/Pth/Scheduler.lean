import Comp3301.Pth.Pqueue

/-!
# Pth: the scheduler

`pth_scheduler` of `pth_sched.c` and the calls of `pth_lib.c`, `pth_cancel.c` and `pth_attr.c` by
which the running thread changes queues.

* `Sched` is the state: the control blocks, the five queues, the threads that have been spawned and
  not freed, and where control is. `Sched.step` is what happens until control is passed on:
  - `boot` spawns the main thread (`pth_init`),
  - `ready` moves the new threads to the ready queue, from the top of the loop of the scheduler on,
  - `draw` computes targets and tickets and draws the next thread,
  - `call` is a call that the running thread makes, which may switch to the scheduler,
  - `back` is what the scheduler does when it has got control back, up to the top of its loop.
* `pth_cancel` of a thread in asynchronous mode runs the cleanup handlers of this thread, which are
  functions of the user and make calls themselves: `cancel` is the part of `pth_cancel` before them
  and `cancelEnd` the part behind them. In between the thread is in `cancels`, with its canceller.
  In the same way `joinEnd` is the part of `pth_join` behind `pth_wait`.
* A step is `none` when a thread is named that is not there (any more), and when the source would
  dereference `NULL` or divide by zero; the exit of the main thread ends the process.
* Clocks, events and memory for new threads are given with a step.
-/

namespace Comp3301.Pth

open Comp3301.Lib

/-! ## State -/

/-- The states of a thread. -/
inductive State where
  | new
  | ready
  | waiting
  | dead
  deriving DecidableEq, Repr

/-- `pth_NQ`, `pth_RQ`, `pth_WQ`, `pth_SQ` and `pth_DQ`. -/
inductive QueueName where
  | nq
  | rq
  | wq
  | sq
  | dq
  deriving DecidableEq, Repr

/-- The attributes of a new thread. -/
structure Attr where
  prio : ℤ
  joinable : Bool
  cancelEnable : Bool
  cancelAsync : Bool

/-- The part of `struct pth_st` that is not about queues. -/
structure Status where
  state : State
  joinable : Bool
  /-- `PTH_CANCEL_ENABLE` in `cancelstate`. -/
  cancelEnable : Bool
  /-- `PTH_CANCEL_ASYNCHRONOUS` in `cancelstate`. -/
  cancelAsync : Bool
  cancelreq : Bool
  /-- The number of cleanup handlers. -/
  cleanups : ℕ

/-- Where control is. -/
inductive Control (Tid : Type) where
  /-- Behind `pth_scheduler_init`. -/
  | start
  /-- At the top of the loop of the scheduler. -/
  | top
  /-- In the loop, behind the move of the new threads. -/
  | drawing
  | running (t : Tid)
  /-- In the loop, back from a thread. -/
  | back (t : Tid)
  deriving DecidableEq

/-- `pth_current`, where it is in no queue. -/
def Control.current {Tid : Type} : Control Tid → Option Tid
  | running t => some t
  | back t => some t
  | _ => none

/-- The state of the library. -/
structure Sched (Tid : Type) where
  heap : Heap Tid
  status : Tid → Status
  queue : QueueName → Pqueue Tid
  /-- The threads that have been spawned and not freed, but for the scheduler. -/
  live : Finset Tid
  main : Tid
  favournew : Bool
  /-- The threads whose cleanup handlers a call of `pth_cancel` is running, with the caller; the
  last call first. -/
  cancels : List (Tid × Tid)
  control : Control Tid

variable {Tid : Type}

/-- The state behind `pth_scheduler_init`; nothing is known of the memory. -/
def schedulerInit (heap : Heap Tid) (status : Tid → Status) (main : Tid) : Sched Tid where
  heap := heap
  status := status
  queue _ := pqueueInit
  live := ∅
  main := main
  favournew := true
  cancels := []
  control := .start

namespace Sched

variable [DecidableEq Tid] (s : Sched Tid)

/-! ## Queues -/

/-- `pth_pqueue_insert (&q, prio, t)`. -/
def insert (n : QueueName) (prio : ℤ) (t : Tid) : Option (Sched Tid) := do
  let (h, q) ← pqueueInsert s.live.card s.heap (s.queue n) prio t
  some { s with heap := h, queue := Function.update s.queue n q }

/-- `pth_pqueue_delete (&q, t)`. -/
def delete (n : QueueName) (t : Tid) : Option (Sched Tid) := do
  let (h, q) ← pqueueDelete s.heap (s.queue n) t
  some { s with heap := h, queue := Function.update s.queue n q }

/-- `pth_pqueue_favorite (&q, t)`. -/
def favorite (n : QueueName) (t : Tid) : Option (Sched Tid) := do
  let (_, h, q) ← pqueueFavorite s.live.card s.heap (s.queue n) t
  some { s with heap := h, queue := Function.update s.queue n q }

/-- `pth_pqueue_contains (&q, t)`. -/
def contains (n : QueueName) (t : Tid) : Option Bool :=
  pqueueContains s.live.card s.heap (s.queue n) t

/-- The threads in a queue. -/
def threads (n : QueueName) : Option (List Tid) :=
  pqueueThreads s.live.card s.heap (s.queue n)

/-- `t->state = state`. -/
def setState (t : Tid) (state : State) : Sched Tid :=
  { s with status := Function.update s.status t { s.status t with state := state } }

/-- The status of a thread changes, but not its state. -/
def modifyStatus (t : Tid) (f : Status → Status) : Sched Tid :=
  { s with status := Function.update s.status t { f (s.status t) with
    state := (s.status t).state } }

/-- `pth_tcb_free (t)`. -/
def free (t : Tid) : Sched Tid := { s with live := s.live.erase t }

/-- Control is passed on. -/
def goto (control : Control Tid) : Sched Tid := { s with control := control }

/-- The queue of a thread that is not dead, by its state. -/
def queueOf : State → Option QueueName
  | .new => some .nq
  | .ready => some .rq
  | .waiting => some .wq
  | .dead => none

/-- The queue in which `pth_yield` favours a thread, by its state. -/
def favouredIn : State → Option QueueName
  | .new => some .nq
  | .ready => some .rq
  | _ => none

/-! ## Calls -/

/-- What a new thread is given: the attributes, or those of its parent, or the defaults. -/
def attrOf (attr : Option Attr) (parent : Option Tid) : Attr :=
  match attr, parent with
  | some attr, _ => attr
  | none, some p =>
      ⟨(s.heap p).prio, (s.status p).joinable, (s.status p).cancelEnable, (s.status p).cancelAsync⟩
  | none, none => ⟨prioStd, true, true, false⟩

/-- A control block has been allocated and filled in. -/
def newThread (t : Tid) (b : Tcb Tid) (status : Status) : Sched Tid :=
  { s with
    heap := Function.update s.heap t b
    status := Function.update s.status t status
    live := Insert.insert t s.live }

/-- `pth_spawn`, with the memory for the new thread at `t` and the time `now`. -/
def spawn (t : Tid) (attr : Option Attr) (now : ℚ) : Option (Sched Tid) :=
  if t ∈ s.live then none
  else
    let a := s.attrOf attr s.control.current
    let b := { s.heap t with
      offset := -1, tkNum := 0, target := 0, actual := 0, prio := a.prio, spawned := now,
      running := 0 }
    (s.newThread t b ⟨.new, a.joinable, a.cancelEnable, a.cancelAsync, false, 0⟩).insert .nq
      a.prio t

/-- `pth_yield`. -/
def yield (cur : Tid) (favoured : Option Tid) : Option (Sched Tid) :=
  match favoured with
  | none => some (s.goto (.back cur))
  | some t =>
      if t ∉ s.live then none
      else
        match favouredIn (s.status t).state with
        | none => some s
        | some n => do
            if ← s.contains n t then
              let s ← s.favorite n t
              some (s.goto (.back cur))
            else some s

/-- `pth_wait`, up to the switch to the scheduler. -/
def wait (cur : Tid) : Sched Tid := (s.setState cur .waiting).goto (.back cur)

/-- `pth_exit`, behind the cleanup handlers. -/
def exit (cur : Tid) : Option (Sched Tid) :=
  if cur = s.main then none else some ((s.setState cur .dead).goto (.back cur))

/-- `pth_suspend`. -/
def suspend (cur t : Tid) : Option (Sched Tid) :=
  if t ∉ s.live then none
  else if t = cur then some s
  else
    match queueOf (s.status t).state with
    | none => some s
    | some n => do
        if ← s.contains n t then
          let s ← s.delete n t
          s.insert .sq prioStd t
        else some s

/-- `pth_resume`. -/
def resume (cur t : Tid) : Option (Sched Tid) :=
  if t ∉ s.live then none
  else if t = cur then some s
  else do
    if ← s.contains .sq t then
      let s ← s.delete .sq t
      match queueOf (s.status t).state with
      | none => some s
      | some n => s.insert n prioStd t
    else some s

/-- `pth_cancel`, behind the cleanup handlers. -/
def finishCancel (t : Tid) : Option (Sched Tid) :=
  if (s.status t).joinable then (s.setState t .dead).insert .dq prioStd t else some (s.free t)

/-- `pth_cancel`, up to the cleanup handlers if there are any. -/
def cancel (cur t : Tid) : Option (Sched Tid) :=
  if t ∉ s.live then none
  else if t = cur then some s
  else if (s.status t).state = .dead then some s
  else
    let s := s.modifyStatus t fun b => { b with cancelreq := true }
    if (s.status t).cancelEnable && (s.status t).cancelAsync then
      match queueOf (s.status t).state with
      | none => some s
      | some n => do
          if ← s.contains n t then
            let s ← s.delete n t
            if (s.status t).cleanups = 0 then s.finishCancel t
            else some { s with cancels := (cur, t) :: s.cancels }
          else some s
    else some s

/-- The last call of `pth_cancel` whose cleanup handlers are running goes on. -/
def cancelEnd (cur : Tid) : Option (Sched Tid) :=
  match s.cancels.find? (·.1 = cur) with
  | none => none
  | some p => { s with cancels := s.cancels.erase p }.finishCancel p.2

/-- `pth_ctrl (PTH_CTRL_GETTHREADS)`. -/
def getThreads : ℤ :=
  (s.queue .nq).qNum + (s.queue .rq).qNum + 1 + (s.queue .wq).qNum + (s.queue .sq).qNum +
    (s.queue .dq).qNum

/-- The end of `pth_join`. -/
def reap (t : Tid) : Option (Sched Tid) := do
  let s ← s.delete .dq t
  some (s.free t)

/-- The thread to be joined: the one given, or one that is dead. -/
def joined (tid : Option Tid) : Option Tid := tid <|> (s.queue .dq).qHead

/-- `pth_join`, behind `pth_wait`. -/
def joinEnd (tid : Option Tid) : Option (Sched Tid) :=
  match s.joined tid with
  | none => some s
  | some t =>
      if t ∉ s.live then none
      else if (s.status t).state = .dead then s.reap t
      else some s

/-- `pth_join`, up to `pth_wait` if it is called. -/
def join (cur : Tid) (tid : Option Tid) : Option (Sched Tid) :=
  if tid = some cur then some s
  else if ∃ t ∈ tid, t ∉ s.live then none
  else if ∃ t ∈ tid, (s.status t).joinable = false then some s
  else if s.getThreads = 1 then some s
  else
    match s.joined tid with
    | none => some (s.wait cur)
    | some t => if (s.status t).state = .dead then s.reap t else some (s.wait cur)

/-- The calls. -/
inductive Call (Tid : Type) where
  | spawn (t : Tid) (attr : Option Attr) (now : ℚ)
  | yield (favoured : Option Tid)
  | wait
  | exit
  | suspend (t : Tid)
  | resume (t : Tid)
  | cancel (t : Tid)
  | cancelEnd
  | join (tid : Option Tid)
  | joinEnd (tid : Option Tid)
  /-- `pth_attr_set (attr, PTH_ATTR_PRIO, prio)` for the attributes of a thread. -/
  | attrSetPrio (t : Tid) (prio : ℤ)
  /-- `pth_cancel_state`. -/
  | cancelState (enable async : Bool)
  | cleanupPush
  | cleanupPop
  /-- `pth_ctrl (PTH_CTRL_FAVOURNEW, favournew)`. -/
  | ctrlFavournew (favournew : Bool)

/-- A call of the running thread. -/
def call (cur : Tid) : Call Tid → Option (Sched Tid)
  | .spawn t attr now => s.spawn t attr now
  | .yield favoured => s.yield cur favoured
  | .wait => some (s.wait cur)
  | .exit => s.exit cur
  | .suspend t => s.suspend cur t
  | .resume t => s.resume cur t
  | .cancel t => s.cancel cur t
  | .cancelEnd => s.cancelEnd cur
  | .join tid => s.join cur tid
  | .joinEnd tid => s.joinEnd tid
  | .attrSetPrio t prio =>
      if t ∉ s.live then none
      else some { s with heap := Function.update s.heap t { s.heap t with prio := prio } }
  | .cancelState enable async =>
      some (s.modifyStatus cur fun b => { b with cancelEnable := enable, cancelAsync := async })
  | .cleanupPush => some (s.modifyStatus cur fun b => { b with cleanups := b.cleanups + 1 })
  | .cleanupPop => some (s.modifyStatus cur fun b => { b with cleanups := b.cleanups - 1 })
  | .ctrlFavournew favournew => some { s with favournew := favournew }

/-! ## The loop of the scheduler -/

/-- The loop that moves the new threads to the ready queue. -/
def admitLoop : ℕ → Sched Tid → Option (Sched Tid)
  | rounds, s =>
      match pqueueTail s.heap (s.queue .nq) with
      | none => some s
      | some t =>
          match rounds with
          | 0 => none
          | rounds + 1 => do
              let s ← s.delete .nq t
              let s := s.setState t .ready
              let prio := if s.favournew then pqueueFavoritePrio s.heap (s.queue .rq) else prioStd
              let s ← s.insert .rq prio t
              admitLoop rounds s

/-- Targets, tickets and the draw, with `rand` the value of `rand ()`. -/
def draw (rand : ℕ) : Option (Sched Tid) := do
  let h ← pqueueCalcTarget s.live.card s.heap (s.queue .rq)
  let (h, q) ← pqueueIssueTk s.live.card h (s.queue .rq)
  let (h, q, t) ← drawThread s.live.card h q rand
  let t ← t
  some { s with heap := h, queue := Function.update s.queue .rq q, control := .running t }

/-- The last loop of `pth_sched_eventmanager`: the threads for which an event has occurred, and
those that are to be cancelled, go to the ready queue. -/
def eventLoop (occurred : Tid → Bool) : ℕ → Sched Tid → Option Tid → Option (Sched Tid)
  | _, s, none => some s
  | 0, _, some _ => none
  | rounds + 1, s, some t =>
      let next := pqueueWalk s.heap (s.queue .wq) t .next
      if occurred t || (s.status t).cancelreq then do
        let s ← s.delete .wq t
        let s := s.setState t .ready
        let s ← s.insert .rq ((s.heap t).prio + 1) t
        eventLoop occurred rounds s next
      else eventLoop occurred rounds s next

/-- A pass of `pth_sched_eventmanager`. -/
def eventmanager (occurred : Tid → Bool) : Option (Sched Tid) :=
  eventLoop occurred s.live.card s (s.queue .wq).qHead

/-- What the scheduler is told when it gets control back: the time, how long the thread has run,
whether its stack has overflown, and which events have occurred in the passes of the event
manager. -/
structure Report (Tid : Type) where
  now : ℚ
  ran : ℚ
  overflow : Bool
  occurred : Tid → Bool
  repeats : List (Tid → Bool)

/-- The usages when the thread has come back. -/
def account (cur : Tid) (r : Report Tid) : Option (Sched Tid) := do
  let h := Function.update s.heap cur
    { s.heap cur with running := (s.heap cur).running + r.ran }
  let h ← pqueueUpdateART s.live.card r.now h (s.queue .rq)
  some { s with heap := h }

/-- The thread that has come back is put into the queue it belongs to. -/
def putBack (cur : Tid) : Option (Sched Tid) :=
  match (s.status cur).state with
  | .dead => if (s.status cur).joinable then s.insert .dq prioStd cur else some (s.free cur)
  | .waiting => s.insert .wq (s.heap cur).prio cur
  | _ => s.insert .rq (s.heap cur).prio cur

/-- The rest of the loop of the scheduler. -/
def back (cur : Tid) (r : Report Tid) : Option (Sched Tid) := do
  let s ← s.account cur r
  let s := if r.overflow then s.setState cur .dead else s
  let s ← s.putBack cur
  let s ← (r.occurred :: r.repeats).foldlM eventmanager s
  some (s.goto .top)

/-! ## Steps -/

/-- The steps. -/
inductive Event (Tid : Type) where
  | boot (now : ℚ)
  | ready
  | draw (rand : {r : ℕ // r ≤ randMax})
  | call (c : Call Tid)
  | back (r : Report Tid)

/-- The attributes of the main thread. -/
def mainAttr : Attr := ⟨prioStd, true, true, false⟩

/-- One step. -/
def step : Event Tid → Option (Sched Tid)
  | .boot now =>
      match s.control with
      | .start => (s.spawn s.main (some mainAttr) now).map (·.goto .top)
      | _ => none
  | .ready =>
      match s.control with
      | .top => (admitLoop s.live.card s).map (·.goto .drawing)
      | _ => none
  | .draw rand =>
      match s.control with
      | .drawing => s.draw rand
      | _ => none
  | .call c =>
      match s.control with
      | .running cur => s.call cur c
      | _ => none
  | .back r =>
      match s.control with
      | .back cur => s.back cur r
      | _ => none

end Sched

end Comp3301.Pth
