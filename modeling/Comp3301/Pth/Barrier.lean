import Comp3301.Pth.Rwlock

/-!
# Pth: barriers

Condition variables and barriers of `pth_sync.c`, for as many threads as the threshold says. As for
read-write locks, a call is cut at each `pth_wait`, and here also at the `pth_yield` of
`pth_cond_notify`.

* `Cond` and `Barrier` are the structures with their calls; `Cond.occurred` is what
  `pth_sched_eventmanager` does for the threads that wait for a condition.
* `BarrierSys` is a barrier with its threads. How many calls each has begun, and how many have
  returned with what results, is not stored by the code.
* `Ok` is the invariant: the threads go through the cycles together.
* `barrier_together`: no thread returns from a call before every thread has begun as many calls.
* `barrier_results`: no call returns `PTH_BARRIER_HEADLIGHT`, none fails, and there is one
  `PTH_BARRIER_TAILLIGHT` for each cycle.
* `barrier_missing`: when no step changes anything, those that wait are waiting for a thread that
  has not come.
-/

set_option linter.unusedSectionVars false

namespace Comp3301.Pth

open Comp3301.Lib

/-! ## Condition variables -/

/-- `pth_cond_t`; `cn_state` are the last three fields. -/
structure Cond where
  waiters : ℕ
  signaled : Bool
  broadcast : Bool
  handled : Bool

namespace Cond

variable (c : Cond)

/-- `pth_cond_init`. -/
def init : Cond := ⟨0, false, false, false⟩

/-- The signal is taken. -/
def clear : Cond := { c with signaled := false, broadcast := false, handled := false }

/-- The short-circuit wait of `pth_cond_await`. -/
def shortCircuit : Cond := if c.signaled = true ∧ c.broadcast = false then c.clear else c

/-- `pth_cond_notify` up to `pth_yield`, when there are waiters. -/
def notify (broadcast : Bool) : Cond :=
  { c with signaled := true, broadcast := broadcast, handled := false }

/-- The events of which threads `pth_sched_eventmanager` finds occurred, in the order of the waiting
queue. -/
def occurred {Tid : Type} (c : Cond) : List Tid → List Tid × Cond
  | [] => ([], c)
  | t :: ts =>
      if c.signaled = true then
        if c.broadcast = true then
          let r := occurred c ts
          (t :: r.1, r.2)
        else if c.handled = false then
          let r := occurred { c with handled := true } ts
          (t :: r.1, r.2)
        else occurred c ts
      else occurred c ts

variable {c}

lemma occurred_of_not_signaled {Tid : Type} (h : c.signaled = false) (ts : List Tid) :
    c.occurred ts = ([], c) := by
  induction ts with
  | nil => rfl
  | cons t ts ih => simp [occurred, h, ih]

lemma occurred_of_broadcast {Tid : Type} (hsignaled : c.signaled = true)
    (hbroadcast : c.broadcast = true) (ts : List Tid) : c.occurred ts = (ts, c) := by
  induction ts with
  | nil => rfl
  | cons t ts ih => simp [occurred, hsignaled, hbroadcast, ih]

lemma shortCircuit_eq (h : c.signaled = true → c.broadcast = true) : c.shortCircuit = c := by
  refine if_neg ?_
  rintro ⟨hsignaled, hbroadcast⟩
  rw [h hsignaled] at hbroadcast
  cases hbroadcast

end Cond

/-! ## Barriers -/

/-- What `pth_barrier_reach` returns. -/
inductive ReachResult where
  | failed
  | passed
  | headlight
  | taillight
  deriving DecidableEq

/-- Where a thread is. `await`, `signaled` and `relock` are in `pth_cond_await`, with the value of
`cycle`: at its `pth_wait`, behind it, and waiting for `br_mutex` again. -/
inductive BarrierPlace where
  | out
  | enter
  | yielding
  | await (cycle : Bool)
  | signaled (cycle : Bool)
  | relock (cycle : Bool)
  deriving DecidableEq

/-- How far a call comes. -/
inductive Stop where
  | stays (p : BarrierPlace)
  | returns (r : ReachResult)

/-- `pth_barrier_t`. -/
structure Barrier (Tid : Type) where
  threshold : ℤ
  count : ℤ
  cycle : Bool
  cond : Cond
  mutex : Mutex Tid

namespace Barrier

variable {Tid : Type} [DecidableEq Tid] (b : Barrier Tid)

/-- `pth_barrier_init`. -/
def init (threshold : ℤ) : Barrier Tid := ⟨threshold, threshold, false, Cond.init, Mutex.init⟩

/-- The end of `pth_barrier_reach`. -/
def unlock (t : Tid) : Barrier Tid := { b with mutex := (b.mutex.release t).2 }

/-- The loop of `pth_barrier_reach`. A short-circuit wait takes the signal, so the next round of the
loop waits. -/
def waitLoop (t : Tid) (cycle : Bool) (rv : ReachResult) : Stop × Barrier Tid :=
  if cycle = b.cycle then
    let cond := b.cond.shortCircuit
    (.stays (.await cycle), { b with cond := { cond with waiters := cond.waiters + 1 } }.unlock t)
  else (.returns rv, b.unlock t)

/-- `pth_barrier_reach` of a thread that has `br_mutex`. -/
def arrive (t : Tid) : Stop × Barrier Tid :=
  let cycle := b.cycle
  let b := { b with count := b.count - 1 }
  if b.count = 0 then
    let b := { b with cycle := !b.cycle, count := b.threshold }
    if b.cond.waiters > 0 then (.stays .yielding, { b with cond := b.cond.notify true })
    else (.returns .taillight, b.unlock t)
  else b.waitLoop t cycle (if b.threshold = b.count then .headlight else .passed)

/-- `pth_barrier_reach`. -/
def reach (t : Tid) : Stop × Barrier Tid :=
  match b.mutex.acquire t false with
  | (.acquired, m) => { b with mutex := m }.arrive t
  | (.failed _, m) => (.returns .failed, { b with mutex := m })
  | (.wait, m) => (.stays .enter, { b with mutex := m })

/-- The end of `pth_cond_await`, and the next round of the loop. -/
def awaited (t : Tid) (cycle : Bool) : Stop × Barrier Tid :=
  { b with cond := { b.cond with waiters := b.cond.waiters - 1 } }.waitLoop t cycle .passed

/-- What a call does behind the place where it was kept. Threads at `await` are woken by the event
manager. -/
def resume (t : Tid) : BarrierPlace → Stop × Barrier Tid
  | .out => (.stays .out, b)
  | .enter =>
      match b.mutex.woken t false with
      | (.acquired, m) => { b with mutex := m }.arrive t
      | (.failed _, m) => (.returns .failed, { b with mutex := m })
      | (.wait, m) => (.stays .enter, { b with mutex := m })
  | .yielding => (.returns .taillight, b.unlock t)
  | .await cycle => (.stays (.await cycle), b)
  | .signaled cycle =>
      -- whether the mutex could be acquired is not asked
      match b.mutex.acquire t false with
      | (.wait, m) => (.stays (.relock cycle), { b with mutex := m })
      | (_, m) => { b with mutex := m }.awaited t cycle
  | .relock cycle =>
      match b.mutex.woken t false with
      | (.wait, m) => (.stays (.relock cycle), { b with mutex := m })
      | (_, m) => { b with mutex := m }.awaited t cycle

end Barrier

/-! ## Threads -/

/-- A barrier and its threads. -/
structure BarrierSys (Tid : Type) where
  barrier : Barrier Tid
  place : Tid → BarrierPlace
  begun : Tid → ℕ
  returned : Tid → ℕ
  results : List ReachResult

/-- The steps; `order` are the threads at `await` in the order of the waiting queue. -/
inductive BarrierCall (Tid : Type) where
  | reach (t : Tid)
  | resume (t : Tid)
  | events (order : List Tid)

/-- The event of a thread has occurred. -/
def BarrierPlace.wake : BarrierPlace → BarrierPlace
  | .await cycle => .signaled cycle
  | p => p

/-- The value of `cycle` with which a thread is in `pth_cond_await`. -/
def BarrierPlace.waitsFor : BarrierPlace → Option Bool
  | .await cycle => some cycle
  | .signaled cycle => some cycle
  | .relock cycle => some cycle
  | _ => none

namespace BarrierSys

variable {Tid : Type} [DecidableEq Tid]

/-- A call of `t` comes to `r`. -/
def settle (s : BarrierSys Tid) (t : Tid) (r : Stop × Barrier Tid) : BarrierSys Tid :=
  match r.1 with
  | .stays p => { s with barrier := r.2, place := Function.update s.place t p }
  | .returns result =>
      { s with
        barrier := r.2
        place := Function.update s.place t .out
        returned := Function.update s.returned t (s.returned t + 1)
        results := result :: s.results }

/-- The condition variable in `pth_sched_eventmanager`. -/
def events (s : BarrierSys Tid) (order : List Tid) : BarrierSys Tid :=
  let r := s.barrier.cond.occurred order
  { s with
    barrier := { s.barrier with cond := if r.1 = [] then r.2 else r.2.clear }
    place := fun t => if t ∈ r.1 then (s.place t).wake else s.place t }

/-- A step. -/
def step (s : BarrierSys Tid) : BarrierCall Tid → BarrierSys Tid
  | .reach t =>
      { s with begun := Function.update s.begun t (s.begun t + 1) }.settle t (s.barrier.reach t)
  | .resume t => s.settle t (s.barrier.resume t (s.place t))
  | .events order => s.events order

/-- A barrier that has just been initialized. -/
def start (threshold : ℤ) : BarrierSys Tid :=
  ⟨Barrier.init threshold, fun _ => .out, fun _ => 0, fun _ => 0, []⟩

/-- A thread can go on: it is outside, or in a call and not at `await`. -/
def Promise (s : BarrierSys Tid) : BarrierCall Tid → Prop
  | .reach t => s.place t = .out
  | .resume t => s.place t ≠ .out ∧ ∀ cycle, s.place t ≠ .await cycle
  | .events order => ∀ t, t ∈ order ↔ ∃ cycle, s.place t = .await cycle

/-- The barrier is in a run of as many threads as its threshold, which have gone through `rounds`
cycles: `arrived` have arrived in the current one, `waiting` are in `pth_cond_await`, and `owner`
has `br_mutex` while it yields. -/
structure Ok [Fintype Tid] (s : BarrierSys Tid) (rounds : ℕ) (arrived waiting : Finset Tid)
    (owner : Option Tid) : Prop where
  threshold : s.barrier.threshold = Fintype.card Tid
  count : s.barrier.count + arrived.card = Fintype.card Tid
  pos : 0 < s.barrier.count
  mutex : s.barrier.mutex = Mutex.heldBy owner
  yielding : ∀ t, s.place t = .yielding ↔ owner = some t
  mem_arrived : ∀ t, t ∈ arrived ↔ (s.place t).waitsFor = some s.barrier.cycle
  mem_waiting : ∀ t, t ∈ waiting ↔ (s.place t).waitsFor ≠ none
  waiters : s.barrier.cond.waiters = waiting.card
  pending : ∀ t cycle, s.place t = .await cycle → cycle ≠ s.barrier.cycle →
    s.barrier.cond.signaled = true
  broadcast : s.barrier.cond.signaled = true → s.barrier.cond.broadcast = true
  begun : ∀ t, s.begun t = rounds + if s.place t = .enter ∨ t ∈ arrived then 1 else 0
  returned : ∀ t, s.returned t + (if s.place t = .out then 0 else 1) = s.begun t
  results : ∀ r ∈ s.results, r = .passed ∨ r = .taillight
  tails : s.results.count .taillight + (if owner = none then 0 else 1) = rounds


end BarrierSys

/-! ## Steps -/

section

variable {Tid : Type} [DecidableEq Tid] [Fintype Tid] {s s' : BarrierSys Tid} {rounds : ℕ}
  {arrived waiting : Finset Tid} {owner : Option Tid} {t : Tid}

namespace BarrierPlace

lemma waitsFor_wake (p : BarrierPlace) : p.wake.waitsFor = p.waitsFor := by
  cases p <;> rfl

lemma wake_ne_await (p : BarrierPlace) (cycle : Bool) : p.wake ≠ .await cycle := by
  cases p <;> exact fun hp => by cases hp

lemma wake_eq_self {p : BarrierPlace} (h : ∀ cycle, p ≠ .await cycle) : p.wake = p := by
  cases p with
  | await cycle => exact absurd rfl (h cycle)
  | _ => rfl

/-- A place outside of `pth_cond_await`. -/
lemma wake_eq_iff {p q : BarrierPlace} (h : q.waitsFor = none) : p.wake = q ↔ p = q := by
  cases p with
  | await cycle =>
    refine iff_of_false ?_ ?_
    · rintro rfl
      cases h
    · rintro rfl
      cases h
  | _ => exact Iff.rfl

end BarrierPlace

namespace BarrierSys.Ok

/-- A step of `t` to the place `p`, within a cycle. -/
lemma moved (h : s.Ok rounds arrived waiting owner) {p : BarrierPlace} {b r : ℕ}
    {arrived' waiting' : Finset Tid} {owner' : Option Tid}
    (hplace : s'.place = Function.update s.place t p)
    (hbegun : s'.begun = Function.update s.begun t b)
    (hreturned : s'.returned = Function.update s.returned t r)
    (hthreshold : s'.barrier.threshold = s.barrier.threshold)
    (hcycle : s'.barrier.cycle = s.barrier.cycle)
    (hsignaled : s'.barrier.cond.signaled = s.barrier.cond.signaled)
    (hbroadcast : s'.barrier.cond.broadcast = s.barrier.cond.broadcast)
    (hcount : s'.barrier.count + arrived'.card = Fintype.card Tid) (hpos : 0 < s'.barrier.count)
    (hmutex : s'.barrier.mutex = Mutex.heldBy owner')
    (hwaiters : s'.barrier.cond.waiters = waiting'.card)
    (hyielding : p = .yielding ↔ owner' = some t)
    (harrived : t ∈ arrived' ↔ p.waitsFor = some s.barrier.cycle)
    (hwaiting : t ∈ waiting' ↔ p.waitsFor ≠ none)
    (hpending : ∀ cycle, p = .await cycle → cycle = s.barrier.cycle)
    (hbegun' : b = rounds + if p = .enter ∨ t ∈ arrived' then 1 else 0)
    (hreturned' : r + (if p = .out then 0 else 1) = b)
    (hresults : ∀ r ∈ s'.results, r = .passed ∨ r = .taillight)
    (htails : s'.results.count .taillight + (if owner' = none then 0 else 1) = rounds)
    (hothers : ∀ u, u ≠ t → (owner' = some u ↔ owner = some u) ∧ (u ∈ arrived' ↔ u ∈ arrived) ∧
      (u ∈ waiting' ↔ u ∈ waiting)) : s'.Ok rounds arrived' waiting' owner' := by
  refine ⟨hthreshold.trans h.threshold, hcount, hpos, hmutex, fun u => ?_, fun u => ?_, fun u => ?_,
    hwaiters, fun u cycle => ?_, ?_, fun u => ?_, fun u => ?_, hresults, htails⟩
  · rw [hplace, Function.update_apply]
    split_ifs with hu
    · rw [hu, hyielding]
    · rw [h.yielding, (hothers u hu).1]
  · rw [hplace, hcycle, Function.update_apply]
    split_ifs with hu
    · rw [hu, harrived]
    · rw [(hothers u hu).2.1, h.mem_arrived]
  · rw [hplace, Function.update_apply]
    split_ifs with hu
    · rw [hu, hwaiting]
    · rw [(hothers u hu).2.2, h.mem_waiting]
  · rw [hplace, hcycle, hsignaled, Function.update_apply]
    split_ifs with hu
    · exact fun hp hne => absurd (hpending cycle hp) hne
    · exact h.pending u cycle
  · rw [hsignaled, hbroadcast]
    exact h.broadcast
  · rw [hbegun, hplace, Function.update_apply, Function.update_apply]
    rcases eq_or_ne u t with rfl | hu
    · rw [if_pos rfl, if_pos rfl, hbegun']
    · simp only [if_neg hu, h.begun, (hothers u hu).2.1]
  · rw [hbegun, hplace, hreturned, Function.update_apply, Function.update_apply,
      Function.update_apply]
    rcases eq_or_ne u t with rfl | hu
    · rw [if_pos rfl, if_pos rfl, if_pos rfl, hreturned']
    · rw [if_neg hu, if_neg hu, if_neg hu, h.returned]

/-- A thread that is not in `pth_cond_await`. -/
lemma not_mem_arrived (h : s.Ok rounds arrived waiting owner) (ht : (s.place t).waitsFor = none) :
    t ∉ arrived := by
  rw [h.mem_arrived, ht]
  exact fun hn => by cases hn

lemma not_mem_waiting (h : s.Ok rounds arrived waiting owner) (ht : (s.place t).waitsFor = none) :
    t ∉ waiting := by
  rw [h.mem_waiting, ht]
  exact fun hn => hn rfl

/-- A call begins. -/
lemma enter (h : s.Ok rounds arrived waiting owner) (ht : s.place t = .out) :
    Ok { s with begun := Function.update s.begun t (s.begun t + 1)
                place := Function.update s.place t .enter } rounds arrived waiting owner := by
  have hnone : (s.place t).waitsFor = none := by rw [ht]; rfl
  have harrived := h.not_mem_arrived hnone
  have hwaiting := h.not_mem_waiting hnone
  have howner : owner ≠ some t := by
    rw [Ne, ← h.yielding, ht]
    exact fun hn => by cases hn
  have hbegun : s.begun t = rounds := by
    rw [h.begun, if_neg]
    · rfl
    · rintro (hn | hn)
      · rw [ht] at hn
        cases hn
      · exact harrived hn
  have hreturned : s.returned t = s.begun t := by
    rw [← h.returned, ht, if_pos rfl]
    rfl
  exact h.moved (p := .enter) (r := s.returned t) rfl rfl (Function.update_eq_self t _).symm
    rfl rfl rfl rfl h.count h.pos h.mutex h.waiters (by simp [howner])
    (by simp [harrived, BarrierPlace.waitsFor]) (by simp [hwaiting, BarrierPlace.waitsFor])
    (fun cycle hp => by cases hp) (by simp [hbegun]) (by simp [hreturned]) h.results
    h.tails fun u hu => ⟨Iff.rfl, Iff.rfl, Iff.rfl⟩

/-- The end of the wait of a thread that has `br_mutex`: it waits again if its cycle is not over. -/
lemma awaited (h : s.Ok rounds arrived waiting none) {cycle : Bool}
    (ht : (s.place t).waitsFor = some cycle) :
    ∃ arrived' waiting', (s.settle t
      ({ s.barrier with mutex := Mutex.heldBy (some t) }.awaited t cycle)).Ok rounds arrived'
        waiting' none := by
  have hwaiting : t ∈ waiting := by
    rw [h.mem_waiting, ht]
    exact Option.some_ne_none cycle
  have hcard := Finset.card_pos.mpr ⟨t, hwaiting⟩
  have hout : s.place t ≠ .out := fun hp => by rw [hp] at ht; cases ht
  have henter : s.place t ≠ .enter := fun hp => by rw [hp] at ht; cases ht
  have hreturned := h.returned t
  rw [if_neg hout] at hreturned
  have hbegun := h.begun t
  unfold Barrier.awaited Barrier.waitLoop
  by_cases hcycle : cycle = s.barrier.cycle
  · subst hcycle
    have harrived : t ∈ arrived := by rw [h.mem_arrived, ht]
    rw [if_pos (Or.inr harrived)] at hbegun
    have hcond : Cond.shortCircuit { s.barrier.cond with waiters := s.barrier.cond.waiters - 1 } =
        { s.barrier.cond with waiters := s.barrier.cond.waiters - 1 } :=
      Cond.shortCircuit_eq h.broadcast
    simp only [if_true, hcond]
    refine ⟨arrived, waiting, h.moved (p := .await s.barrier.cycle) (b := s.begun t)
      (r := s.returned t) rfl (Function.update_eq_self t _).symm
      (Function.update_eq_self t _).symm rfl rfl rfl rfl h.count h.pos ?_ ?_ ?_ ?_ ?_ ?_ ?_ ?_ ?_
      h.tails ?_⟩
    · exact congrArg Prod.snd (Mutex.release_self t)
    · simp only [settle, Barrier.unlock]
      rw [h.waiters]
      omega
    · simp
    · simp [harrived, BarrierPlace.waitsFor]
    · simp [hwaiting, BarrierPlace.waitsFor]
    · exact fun cycle hp => (BarrierPlace.await.inj hp).symm
    · simpa [harrived] using hbegun
    · simpa using hreturned
    · exact h.results
    · exact fun u _ => ⟨Iff.rfl, Iff.rfl, Iff.rfl⟩
  · have harrived : t ∉ arrived := by
      rw [h.mem_arrived, ht]
      exact fun heq => hcycle (Option.some.inj heq)
    simp only [if_neg hcycle]
    rw [if_neg (by simp [henter, harrived])] at hbegun
    refine ⟨arrived, waiting.erase t, h.moved (p := .out) (b := s.begun t) rfl
      (Function.update_eq_self t _).symm rfl rfl rfl rfl rfl h.count h.pos ?_ ?_ ?_ ?_ ?_ ?_ ?_ ?_
      ?_ ?_ ?_⟩
    · exact congrArg Prod.snd (Mutex.release_self t)
    · simp [settle, Barrier.unlock, h.waiters, Finset.card_erase_of_mem hwaiting]
    · simp
    · simp [harrived, BarrierPlace.waitsFor]
    · simp [BarrierPlace.waitsFor]
    · exact fun cycle hp => by cases hp
    · simpa [harrived] using hbegun
    · simpa using hreturned
    · simpa [settle] using h.results
    · simpa [settle] using h.tails
    · exact fun u hu => ⟨Iff.rfl, Iff.rfl, by rw [Finset.mem_erase]; exact and_iff_right hu⟩

/-- The last thread arrives, and the next cycle begins. -/
lemma turned (h : s.Ok rounds arrived waiting none) (ht : s.place t = .enter)
    (hall : ∀ u, u ≠ t → u ∈ arrived) {p : BarrierPlace} {returned : ℕ} {owner' : Option Tid}
    (hp : p = .yielding ∧ owner' = some t ∧ returned = s.returned t ∨
      p = .out ∧ owner' = none ∧ returned = s.returned t + 1)
    (hplace : s'.place = Function.update s.place t p) (hbegun : s'.begun = s.begun)
    (hreturned : s'.returned = Function.update s.returned t returned)
    (hthreshold : s'.barrier.threshold = s.barrier.threshold)
    (hcount : s'.barrier.count = s.barrier.threshold)
    (hcycle : s'.barrier.cycle = !s.barrier.cycle)
    (hmutex : s'.barrier.mutex = Mutex.heldBy owner')
    (hwaiters : s'.barrier.cond.waiters = s.barrier.cond.waiters)
    (hsignaled : waiting = ∅ ∨ s'.barrier.cond.signaled = true)
    (hbroadcast : s'.barrier.cond.signaled = true → s'.barrier.cond.broadcast = true)
    (hresults : ∀ r ∈ s'.results, r = .passed ∨ r = .taillight)
    (htails : s'.results.count .taillight + (if owner' = none then 0 else 1) = rounds + 1) :
    s'.Ok (rounds + 1) ∅ waiting owner' := by
  have hcurrent : ∀ u, u ≠ t → (s.place u).waitsFor = some s.barrier.cycle := fun u hu =>
    (h.mem_arrived u).mp (hall u hu)
  have hpwait : p.waitsFor = none := by rcases hp with ⟨rfl, -⟩ | ⟨rfl, -⟩ <;> rfl
  refine ⟨hthreshold.trans h.threshold, ?_, ?_, hmutex, fun u => ?_, fun u => ?_, fun u => ?_,
    hwaiters.trans h.waiters, fun u cycle => ?_, hbroadcast, fun u => ?_, fun u => ?_, hresults,
    htails⟩
  · rw [hcount, h.threshold, Finset.card_empty]
    simp
  · rw [hcount, h.threshold]
    exact_mod_cast Fintype.card_pos_iff.mpr ⟨t⟩
  · rw [hplace, Function.update_apply]
    split_ifs with hu
    · subst hu
      rcases hp with ⟨rfl, rfl, -⟩ | ⟨rfl, rfl, -⟩ <;> simp
    · have hne : s.place u ≠ .yielding := fun hy => by
        simpa [hy, BarrierPlace.waitsFor] using hcurrent u hu
      rcases hp with ⟨-, rfl, -⟩ | ⟨-, rfl, -⟩ <;> simp [hne, Ne.symm hu]
  · rw [hplace, hcycle, Function.update_apply]
    split_ifs with hu
    · simp [hpwait]
    · simp [hcurrent u hu]
  · rw [hplace, Function.update_apply, h.mem_waiting]
    split_ifs with hu
    · rw [hpwait, hu, ht]
      rfl
    · rfl
  · rw [hplace, hcycle, Function.update_apply]
    split_ifs with hu
    · intro heq
      rw [heq] at hpwait
      cases hpwait
    · intro heq _
      refine hsignaled.resolve_left fun hempty => ?_
      have hmem : u ∈ waiting := by
        rw [h.mem_waiting, hcurrent u hu]
        exact Option.some_ne_none _
      rw [hempty] at hmem
      exact Finset.notMem_empty u hmem
  · rw [hbegun, h.begun, hplace, Function.update_apply]
    rcases eq_or_ne u t with rfl | hu
    · rcases hp with ⟨rfl, -⟩ | ⟨rfl, -⟩ <;> simp [ht]
    · have hne : s.place u ≠ .enter := fun he => by
        simpa [he, BarrierPlace.waitsFor] using hcurrent u hu
      simp [hu, hne, hall u hu]
  · rw [hbegun, hreturned, hplace, Function.update_apply, Function.update_apply]
    have hu' := h.returned u
    rcases eq_or_ne u t with rfl | hu
    · rw [ht] at hu'
      rcases hp with ⟨rfl, -, rfl⟩ | ⟨rfl, -, rfl⟩ <;> simpa using hu'
    · simpa [hu] using hu'

/-- A thread that has `br_mutex` arrives. -/
lemma arrive (h : s.Ok rounds arrived waiting none) (ht : s.place t = .enter) :
    ∃ rounds' arrived' waiting' owner', (s.settle t
      ({ s.barrier with mutex := Mutex.heldBy (some t) }.arrive t)).Ok rounds' arrived' waiting'
        owner' := by
  have hnone : (s.place t).waitsFor = none := by rw [ht]; rfl
  have harrived := h.not_mem_arrived hnone
  have hwaiting := h.not_mem_waiting hnone
  unfold Barrier.arrive
  by_cases hlast : s.barrier.count - 1 = 0
  · have hcard : (insert t arrived).card = Fintype.card Tid := by
      rw [Finset.card_insert_of_notMem harrived]
      have hcount := h.count
      omega
    have hall : ∀ u, u ≠ t → u ∈ arrived := by
      intro u hu
      have hmem : u ∈ insert t arrived := by
        rw [(Finset.card_eq_iff_eq_univ _).mp hcard]
        exact Finset.mem_univ u
      exact (Finset.mem_insert.mp hmem).resolve_left hu
    have htails : s.results.count .taillight = rounds := h.tails
    simp only [hlast, if_true]
    by_cases hwaiters : s.barrier.cond.waiters > 0
    · simp only [if_pos hwaiters]
      refine ⟨rounds + 1, ∅, waiting, some t, h.turned ht hall (Or.inl ⟨rfl, rfl, rfl⟩) rfl rfl
        (Function.update_eq_self t _).symm rfl rfl rfl rfl rfl (Or.inr rfl) (fun _ => rfl)
        h.results (congrArg (· + 1) htails)⟩
    · simp only [if_neg hwaiters]
      have hempty : waiting = ∅ := by
        rw [← Finset.card_eq_zero, ← h.waiters]
        omega
      refine ⟨rounds + 1, ∅, waiting, none, h.turned ht hall (Or.inr ⟨rfl, rfl, rfl⟩) rfl rfl rfl
        rfl rfl rfl ?_ rfl (Or.inl hempty) h.broadcast ?_ ?_⟩
      · exact congrArg Prod.snd (Mutex.release_self t)
      · simpa [settle] using h.results
      · simp [settle, htails]
  · simp only [if_neg hlast, Barrier.waitLoop, if_true,
      Cond.shortCircuit_eq h.broadcast]
    have hbegun := h.begun t
    rw [if_pos (Or.inl ht)] at hbegun
    have hreturned := h.returned t
    rw [ht] at hreturned
    refine ⟨rounds, insert t arrived, insert t waiting, none,
      h.moved (p := .await s.barrier.cycle) (b := s.begun t)
      (r := s.returned t) rfl (Function.update_eq_self t _).symm
      (Function.update_eq_self t _).symm rfl rfl rfl rfl ?_ ?_ ?_ ?_ ?_ ?_ ?_ ?_ ?_ ?_ h.results
      h.tails ?_⟩
    · have hcount := h.count
      rw [Finset.card_insert_of_notMem harrived]
      simp only [settle, Barrier.unlock]
      push_cast
      omega
    · have hpos := h.pos
      simp only [settle, Barrier.unlock]
      omega
    · exact congrArg Prod.snd (Mutex.release_self t)
    · rw [Finset.card_insert_of_notMem hwaiting, ← h.waiters]
      rfl
    · simp
    · simp [BarrierPlace.waitsFor]
    · simp [BarrierPlace.waitsFor]
    · exact fun cycle hp => (BarrierPlace.await.inj hp).symm
    · simpa using hbegun
    · simpa using hreturned
    · exact fun u hu => ⟨Iff.rfl, by simp [hu], by simp [hu]⟩

/-- A thread that waits for `br_mutex` is not its owner. -/
lemma owner_ne (h : s.Ok rounds arrived waiting owner) (ht : s.place t ≠ .yielding) :
    owner ≠ some t := by
  rwa [Ne, ← h.yielding]

/-- Nothing happens. -/
lemma stays (h : s.Ok rounds arrived waiting owner) :
    (s.settle t (.stays (s.place t), { s.barrier with mutex := Mutex.heldBy owner })).Ok rounds
      arrived waiting owner := by
  have hsame : s.settle t (.stays (s.place t), { s.barrier with mutex := Mutex.heldBy owner }) =
      s := by
    simp only [settle, ← h.mutex, Function.update_eq_self]
  rwa [hsame]

/-- The mutex is held when a thread has been woken. -/
lemma relock (h : s.Ok rounds arrived waiting owner) {cycle : Bool}
    (ht : (s.place t).waitsFor = some cycle) :
    (s.settle t (.stays (.relock cycle), { s.barrier with mutex := Mutex.heldBy owner })).Ok rounds
      arrived waiting owner := by
  have hout : s.place t ≠ .out := fun hp => by rw [hp] at ht; cases ht
  have henter : s.place t ≠ .enter := fun hp => by rw [hp] at ht; cases ht
  have howner := h.owner_ne (t := t) fun hp => by rw [hp] at ht; cases ht
  have hreturned := h.returned t
  rw [if_neg hout] at hreturned
  have hbegun := h.begun t
  refine h.moved (p := .relock cycle) (b := s.begun t) (r := s.returned t) rfl
    (Function.update_eq_self t _).symm (Function.update_eq_self t _).symm rfl rfl rfl rfl h.count
    h.pos rfl h.waiters ?_ ?_ ?_ ?_ ?_ ?_ h.results h.tails fun u _ => ⟨Iff.rfl, Iff.rfl, Iff.rfl⟩
  · simp [howner]
  · rw [h.mem_arrived, ht]
    rfl
  · rw [h.mem_waiting, ht]
    rfl
  · exact fun _ hp => by cases hp
  · simpa [henter] using hbegun
  · simpa using hreturned

/-- The last thread of a cycle leaves. -/
lemma yielded (h : s.Ok rounds arrived waiting owner) (ht : s.place t = .yielding) :
    (s.settle t (.returns .taillight, s.barrier.unlock t)).Ok rounds arrived waiting none := by
  obtain rfl : owner = some t := (h.yielding t).mp ht
  have hnone : (s.place t).waitsFor = none := by rw [ht]; rfl
  have harrived := h.not_mem_arrived hnone
  have hwaiting := h.not_mem_waiting hnone
  have hreturned := h.returned t
  have hbegun := h.begun t
  rw [ht] at hreturned hbegun
  refine h.moved (p := .out) (b := s.begun t) rfl (Function.update_eq_self t _).symm rfl rfl
    rfl rfl rfl h.count h.pos ?_ h.waiters ?_ ?_ ?_ ?_ ?_ ?_ ?_ ?_ ?_
  · simp only [settle, Barrier.unlock, h.mutex, Mutex.release_self]
  · simp
  · simp [harrived, BarrierPlace.waitsFor]
  · simp [hwaiting, BarrierPlace.waitsFor]
  · exact fun _ hp => by cases hp
  · simpa [harrived] using hbegun
  · simpa using hreturned
  · simpa [settle] using h.results
  · simpa [settle] using h.tails
  · exact fun u hu => ⟨by simp [Ne.symm hu], Iff.rfl, Iff.rfl⟩

/-- `pth_barrier_reach` up to where it is kept. -/
lemma reach (h : s.Ok rounds arrived waiting owner) (ht : s.place t = .out) :
    ∃ rounds' arrived' waiting' owner',
      (s.step (.reach t)).Ok rounds' arrived' waiting' owner' := by
  have howner := h.owner_ne (t := t) fun hp => by rw [ht] at hp; cases hp
  have hentered := h.enter ht
  rcases owner with _ | o
  · obtain ⟨rounds', arrived', waiting', owner', hok⟩ :=
      hentered.arrive (Function.update_self t _ _)
    refine ⟨rounds', arrived', waiting', owner', ?_⟩
    have hreach : s.barrier.reach t =
        { s.barrier with mutex := Mutex.heldBy (some t) }.arrive t := by
      simp only [Barrier.reach, h.mutex, Mutex.acquire_none]
    simp only [step, hreach]
    unfold settle at hok ⊢
    simpa only [Function.update_idem] using hok
  · have hne : o ≠ t := fun heq => howner (congrArg some heq)
    refine ⟨rounds, arrived, waiting, some o, ?_⟩
    have hreach : s.barrier.reach t = (.stays .enter, s.barrier) := by
      simp only [Barrier.reach, h.mutex, Mutex.acquire_other hne]
      simp [← h.mutex]
    simpa only [step, hreach, settle] using hentered

/-- A call goes on. -/
lemma resume (h : s.Ok rounds arrived waiting owner) (hout : s.place t ≠ .out)
    (hawait : ∀ cycle, s.place t ≠ .await cycle) :
    ∃ rounds' arrived' waiting' owner',
      (s.step (.resume t)).Ok rounds' arrived' waiting' owner' := by
  change ∃ rounds' arrived' waiting' owner',
    (s.settle t (s.barrier.resume t (s.place t))).Ok rounds' arrived' waiting' owner'
  rcases hplace : s.place t with _ | _ | _ | cycle | cycle | cycle
  · exact absurd hplace hout
  · have hstays := h.stays (t := t)
    rw [hplace] at hstays
    rcases owner with _ | o
    · simp only [Barrier.resume, h.mutex, Mutex.woken_none]
      exact h.arrive hplace
    · simp only [Barrier.resume, h.mutex, Mutex.woken_some]
      exact ⟨rounds, arrived, waiting, some o, hstays⟩
  · simp only [Barrier.resume]
    exact ⟨rounds, arrived, waiting, none, h.yielded hplace⟩
  · exact absurd hplace (hawait cycle)
  · have ht : (s.place t).waitsFor = some cycle := by rw [hplace]; rfl
    rcases owner with _ | o
    · simp only [Barrier.resume, h.mutex, Mutex.acquire_none]
      obtain ⟨arrived', waiting', hok⟩ := h.awaited ht
      exact ⟨rounds, arrived', waiting', none, hok⟩
    · have howner := h.owner_ne (t := t) fun hp => by rw [hplace] at hp; cases hp
      have hne : o ≠ t := fun heq => howner (congrArg some heq)
      simp only [Barrier.resume, h.mutex, Mutex.acquire_other hne]
      exact ⟨rounds, arrived, waiting, some o, h.relock ht⟩
  · have ht : (s.place t).waitsFor = some cycle := by rw [hplace]; rfl
    rcases owner with _ | o
    · simp only [Barrier.resume, h.mutex, Mutex.woken_none]
      obtain ⟨arrived', waiting', hok⟩ := h.awaited ht
      exact ⟨rounds, arrived', waiting', none, hok⟩
    · simp only [Barrier.resume, h.mutex, Mutex.woken_some]
      exact ⟨rounds, arrived, waiting, some o, h.relock ht⟩

/-- The event manager wakes all that wait, if the condition is signaled. -/
lemma events (h : s.Ok rounds arrived waiting owner) {order : List Tid}
    (horder : ∀ t, t ∈ order ↔ ∃ cycle, s.place t = .await cycle) :
    (s.step (.events order)).Ok rounds arrived waiting owner := by
  unfold BarrierSys.step BarrierSys.events
  cases hsignaled : s.barrier.cond.signaled with
  | false =>
    simp only [Cond.occurred_of_not_signaled hsignaled, if_true, List.not_mem_nil, if_false]
    exact h
  | true =>
    have hwake : ∀ u, (if u ∈ order then (s.place u).wake else s.place u) = (s.place u).wake := by
      intro u
      split_ifs with hu
      · rfl
      · rw [horder] at hu
        exact (BarrierPlace.wake_eq_self fun cycle hp => hu ⟨cycle, hp⟩).symm
    simp only [Cond.occurred_of_broadcast hsignaled (h.broadcast hsignaled), hwake]
    refine ⟨h.threshold, h.count, h.pos, h.mutex, fun u => ?_, fun u => ?_, fun u => ?_, ?_,
      fun u cycle hp => absurd hp ((s.place u).wake_ne_await cycle), ?_, fun u => ?_, fun u => ?_,
      h.results, h.tails⟩
    · rw [BarrierPlace.wake_eq_iff rfl]
      exact h.yielding u
    · rw [BarrierPlace.waitsFor_wake]
      exact h.mem_arrived u
    · rw [BarrierPlace.waitsFor_wake]
      exact h.mem_waiting u
    · rw [← h.waiters]
      split_ifs <;> rfl
    · split_ifs
      · exact fun _ => h.broadcast hsignaled
      · exact fun hn => by cases hn
    · simp only [BarrierPlace.wake_eq_iff (q := .enter) rfl]
      exact h.begun u
    · simp only [BarrierPlace.wake_eq_iff (q := .out) rfl]
      exact h.returned u

/-- A step keeps the invariant. -/
lemma step (h : s.Ok rounds arrived waiting owner) {call : BarrierCall Tid}
    (hpromise : s.Promise call) :
    ∃ rounds' arrived' waiting' owner', (s.step call).Ok rounds' arrived' waiting' owner' := by
  cases call with
  | reach t => exact h.reach hpromise
  | resume t => exact h.resume hpromise.1 hpromise.2
  | events order => exact ⟨rounds, arrived, waiting, owner, h.events hpromise⟩

/-- How many cycles a thread has been through. -/
lemma returned_le (h : s.Ok rounds arrived waiting owner) (t : Tid) : s.returned t ≤ rounds := by
  have hbegun := h.begun t
  have hreturned := h.returned t
  by_cases hout : s.place t = .out
  · have hnot : t ∉ arrived := h.not_mem_arrived (by rw [hout]; rfl)
    rw [hout, if_neg (by simp [hnot])] at hbegun
    omega
  · rw [if_neg hout] at hreturned
    split_ifs at hbegun <;> omega

lemma le_begun (h : s.Ok rounds arrived waiting owner) (t : Tid) : rounds ≤ s.begun t := by
  rw [h.begun]
  exact Nat.le_add_right _ _

/-- A thread outside has been through all of the cycles. -/
lemma begun_of_out (h : s.Ok rounds arrived waiting owner) (ht : s.place t = .out) :
    s.begun t = rounds := by
  have hreturned := h.returned t
  rw [if_pos ht] at hreturned
  exact le_antisymm (hreturned ▸ h.returned_le t) (h.le_begun t)

end BarrierSys.Ok

end

/-! ## Runs -/

namespace BarrierSys

variable {Tid : Type} [DecidableEq Tid] [Fintype Tid] {s : BarrierSys Tid}

def Next (s : BarrierSys Tid) (call : BarrierCall Tid) (s' : BarrierSys Tid) : Prop :=
  s' = s.step call

/-- The states that as many threads as the threshold reach. -/
def Reached (s : BarrierSys Tid) : Prop :=
  Reach (start (Fintype.card Tid)) Next (fun s call => s.Promise call) s

lemma Reached.step (h : s.Reached) {call : BarrierCall Tid} (hpromise : s.Promise call) :
    (s.step call).Reached :=
  Reach.step h hpromise rfl

lemma ok_start [Nonempty Tid] : (start (Fintype.card Tid) : BarrierSys Tid).Ok 0 ∅ ∅ none where
  threshold := rfl
  count := add_zero _
  pos := Int.natCast_pos.mpr Fintype.card_pos
  mutex := rfl
  yielding _ := iff_of_false (fun h => by cases h) fun h => by cases h
  mem_arrived _ := iff_of_false (Finset.notMem_empty _) fun h => by cases h
  mem_waiting _ := iff_of_false (Finset.notMem_empty _) fun h => h rfl
  waiters := rfl
  pending _ _ h := by cases h
  broadcast h := by cases h
  begun _ := rfl
  returned _ := rfl
  results _ h := absurd h List.not_mem_nil
  tails := rfl

/-- In every run, the threads go through the cycles together. -/
lemma Reached.ok [Nonempty Tid] (h : s.Reached) :
    ∃ rounds arrived waiting owner, s.Ok rounds arrived waiting owner := by
  refine Reach.invariant
    (P := fun s => ∃ rounds arrived waiting owner, s.Ok rounds arrived waiting owner)
    ⟨0, ∅, ∅, none, ok_start⟩ ?_ h
  rintro s call s' - ⟨rounds, arrived, waiting, owner, hs⟩ hpromise rfl
  exact hs.step hpromise

/-- **No thread goes ahead**: it returns from a call only when every thread has begun as many. -/
theorem barrier_together (h : s.Reached) (t u : Tid) : s.returned t ≤ s.begun u := by
  have : Nonempty Tid := ⟨t⟩
  obtain ⟨rounds, arrived, waiting, owner, hs⟩ := h.ok
  exact (hs.returned_le t).trans (hs.le_begun u)

/-- A thread waits for the other one. -/
def oneWaits : BarrierSys Bool := (start (Fintype.card Bool)).step (.reach false)

/-- Two threads have met. -/
def bothPassed : BarrierSys Bool :=
  ((((oneWaits.step (.reach true)).step (.events [false])).step (.resume true)).step
    (.resume false))

lemma reached_oneWaits : oneWaits.Reached := by
  have h : (start (Fintype.card Bool) : BarrierSys Bool).Reached := Reach.init
  exact h.step rfl

lemma reached_bothPassed : bothPassed.Reached := by
  have h : (oneWaits.step (.reach true)).Reached := reached_oneWaits.step rfl
  have h' : ((oneWaits.step (.reach true)).step (.events [false])).Reached := by
    refine h.step fun t => ?_
    revert t
    decide
  have h'' : (((oneWaits.step (.reach true)).step (.events [false])).step (.resume true)).Reached :=
    h'.step ⟨by decide, by decide⟩
  exact h''.step ⟨by decide, by decide⟩

theorem barrier_together_met : bothPassed.returned false ≤ bothPassed.begun true :=
  barrier_together reached_bothPassed false true

/-- The results of the calls: no call fails or returns `PTH_BARRIER_HEADLIGHT`, and there is one
`PTH_BARRIER_TAILLIGHT` for each cycle. -/
theorem barrier_results [Nonempty Tid] (h : s.Reached) :
    (∀ r ∈ s.results, r = .passed ∨ r = .taillight) ∧
      ∀ t, s.place t = .out → (∀ u, s.place u ≠ .yielding) →
        s.returned t = s.results.count .taillight := by
  obtain ⟨rounds, arrived, waiting, owner, hs⟩ := h.ok
  refine ⟨hs.results, fun t ht hyielding => ?_⟩
  have howner : owner = none := by
    rcases owner with _ | o
    · rfl
    · exact absurd ((hs.yielding o).mpr rfl) (hyielding o)
  have htails := hs.tails
  rw [if_pos howner, add_zero] at htails
  have hreturned := hs.returned t
  rw [if_pos ht, add_zero] at hreturned
  rw [hreturned, hs.begun_of_out ht, htails]

theorem barrier_results_met :
    (∀ r ∈ bothPassed.results, r = .passed ∨ r = .taillight) ∧
      ∀ t, bothPassed.place t = .out → (∀ u, bothPassed.place u ≠ .yielding) →
        bothPassed.returned t = bothPassed.results.count .taillight :=
  barrier_results reached_bothPassed

/-! A thread that can go on does. -/

lemma waitLoop_place (s : BarrierSys Tid) (b : Barrier Tid) (t : Tid) (cycle : Bool)
    (rv : ReachResult) :
    (s.settle t (b.waitLoop t cycle rv)).place t = .out ∨
      ∃ c, (s.settle t (b.waitLoop t cycle rv)).place t = .await c := by
  unfold Barrier.waitLoop
  split_ifs
  · exact Or.inr ⟨cycle, Function.update_self t _ _⟩
  · exact Or.inl (Function.update_self t _ _)

lemma arrive_place (s : BarrierSys Tid) (b : Barrier Tid) (t : Tid) :
    (s.settle t (b.arrive t)).place t ≠ .enter := by
  unfold Barrier.arrive
  by_cases hlast : b.count - 1 = 0
  · simp only [hlast, if_true]
    split_ifs
    · exact fun hp => by cases (Function.update_self t _ _).symm.trans hp
    · exact fun hp => by cases (Function.update_self t _ _).symm.trans hp
  · simp only [if_neg hlast]
    intro hp
    rcases waitLoop_place s { b with count := b.count - 1 } t b.cycle
      (if b.threshold = b.count - 1 then .headlight else .passed) with hout | ⟨c, hc⟩
    · cases hout.symm.trans hp
    · cases hc.symm.trans hp

/-- No step but a new call changes anything. -/
def Stuck (s : BarrierSys Tid) : Prop :=
  (∀ t, s.Promise (.resume t) → s.step (.resume t) = s) ∧
    ∀ order, s.Promise (.events order) → s.step (.events order) = s

variable {rounds : ℕ} {arrived waiting : Finset Tid} {owner : Option Tid}

lemma Stuck.owner_eq_none (h : s.Stuck) (hs : s.Ok rounds arrived waiting owner) :
    owner = none := by
  rcases owner with _ | o
  · rfl
  · have ho : s.place o = .yielding := (hs.yielding o).mpr rfl
    have hpromise : s.Promise (.resume o) := by
      refine ⟨?_, fun cycle => ?_⟩ <;> rw [ho] <;> exact fun hp => by cases hp
    have hsame := congrArg (fun s => s.place o) (h.1 o hpromise)
    simp only [step, ho, Barrier.resume, settle, Function.update_self] at hsame
    cases hsame

lemma Stuck.place (h : s.Stuck) (hs : s.Ok rounds arrived waiting owner) (t : Tid) :
    s.place t = .out ∨ ∃ cycle, s.place t = .await cycle := by
  obtain rfl := h.owner_eq_none hs
  by_contra hnot
  rw [not_or, not_exists] at hnot
  have hsame := congrArg (fun s => s.place t) (h.1 t hnot)
  simp only [step] at hsame
  rcases hplace : s.place t with _ | _ | _ | cycle | cycle | cycle
  · exact hnot.1 hplace
  · simp only [hplace, Barrier.resume, hs.mutex, Mutex.woken_none] at hsame
    exact arrive_place s _ t hsame
  · cases (hs.yielding t).mp hplace
  · exact hnot.2 cycle hplace
  · simp only [hplace, Barrier.resume, hs.mutex, Mutex.acquire_none, Barrier.awaited] at hsame
    rcases waitLoop_place s _ t cycle .passed with hout | ⟨c, hc⟩
    · cases hout.symm.trans hsame
    · cases hc.symm.trans hsame
  · simp only [hplace, Barrier.resume, hs.mutex, Mutex.woken_none, Barrier.awaited] at hsame
    rcases waitLoop_place s _ t cycle .passed with hout | ⟨c, hc⟩
    · cases hout.symm.trans hsame
    · cases hc.symm.trans hsame

/-- Those that wait are in the current cycle. -/
lemma Stuck.mem_arrived (h : s.Stuck) (hs : s.Ok rounds arrived waiting owner) {t : Tid}
    (ht : s.place t ≠ .out) : t ∈ arrived := by
  obtain ⟨cycle, hcycle⟩ := (h.place hs t).resolve_left ht
  rw [hs.mem_arrived, hcycle]
  refine congrArg some ?_
  by_contra hne
  have hsignaled := hs.pending t cycle hcycle hne
  -- the next pass of the event manager wakes it
  let order := (Finset.univ.filter fun u => (s.place u).wake ≠ s.place u).toList
  have horder : s.Promise (.events order) := by
    intro u
    rw [Finset.mem_toList, Finset.mem_filter]
    constructor
    · rintro ⟨-, hwake⟩
      by_contra hnot
      rw [not_exists] at hnot
      exact hwake (BarrierPlace.wake_eq_self hnot)
    · rintro ⟨c, hc⟩
      refine ⟨Finset.mem_univ u, ?_⟩
      rw [hc]
      exact fun hp => by cases hp
  have hsame := congrArg (fun s => s.place t) (h.2 order horder)
  have hmem : t ∈ order := (horder t).mpr ⟨cycle, hcycle⟩
  simp only [step, events, Cond.occurred_of_broadcast hsignaled (hs.broadcast hsignaled),
    if_pos hmem, hcycle] at hsame
  cases hsame

/-- **No thread is left behind**: when no step changes anything, a thread that waits is waiting for
one that has begun fewer calls and is not in a call. -/
theorem barrier_missing (h : s.Reached) (hstuck : s.Stuck) {t : Tid} (ht : s.place t ≠ .out) :
    ∃ u, s.place u = .out ∧ s.begun u < s.begun t := by
  have : Nonempty Tid := ⟨t⟩
  obtain ⟨rounds, arrived, waiting, owner, hs⟩ := h.ok
  have hmem := hstuck.mem_arrived hs ht
  have hlt : arrived.card < Fintype.card Tid := by
    have hcount := hs.count
    have hpos := hs.pos
    omega
  obtain ⟨u, hu⟩ : ∃ u, u ∉ arrived := by
    by_contra hall
    rw [not_exists_not] at hall
    rw [Finset.eq_univ_iff_forall.mpr hall, Finset.card_univ] at hlt
    exact lt_irrefl _ hlt
  have hout : s.place u = .out := by
    by_contra hne
    exact hu (hstuck.mem_arrived hs hne)
  refine ⟨u, hout, ?_⟩
  rw [hs.begun_of_out hout, hs.begun t, if_pos (Or.inr hmem)]
  exact Nat.lt_succ_self rounds

theorem barrier_missing_one :
    ∃ u, oneWaits.place u = .out ∧ oneWaits.begun u < oneWaits.begun false := by
  have hstuck : oneWaits.Stuck := by
    refine ⟨fun t ⟨hout, hawait⟩ => ?_, fun order _ => ?_⟩
    · cases t with
      | false => exact absurd rfl (hawait false)
      | true => exact absurd rfl hout
    · have hsignaled : oneWaits.barrier.cond.signaled = false := rfl
      simp only [step, events, Cond.occurred_of_not_signaled hsignaled, if_true, List.not_mem_nil,
        if_false]
  exact barrier_missing reached_oneWaits hstuck (by decide)

/-- A third thread at a barrier for two. Before thread 0 is back from its wait, the next cycle is
over too; it finds the old value of `br_cycle`, and waits again in a cycle nobody has come to. -/
example :
    let s : BarrierSys (Fin 3) := (((((((((start 2).step (.reach 0)).step (.reach 1)).step
      (.events [0])).step (.resume 1)).step (.reach 1)).step (.reach 2)).step
      (.events [1])).step (.resume 2)).step (.resume 0)
    s.place 0 = .await s.barrier.cycle ∧ s.barrier.count = s.barrier.threshold := by
  decide

end BarrierSys

end Comp3301.Pth
