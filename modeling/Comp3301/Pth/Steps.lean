import Comp3301.Pth.Places

/-!
# Pth: what a step does to the queues

* `WF s l`: every thread is in one of the queues, or is the current one, or is a victim of a
  cancellation whose cleanup handlers are running; `l` gives the threads of the queues.
* `Harmless s e`: the step leaves the total priority of the ready queue right. The steps that do not
  are those that take a thread out of the ready queue with `pth_pqueue_delete`, and changes of the
  priority of a thread in it.
* `step_spec`: a step from a state that is well formed leads to one; and if it is harmless and the
  total is right, the total is right again. There is one lemma for each call.
-/

set_option linter.unusedSectionVars false

namespace Comp3301.Pth

open Comp3301.Lib

variable {Tid : Type} [DecidableEq Tid]

/-! ## Well-formed states -/

/-- The threads whose cleanup handlers are run by their cancellers. -/
def Sched.victims (s : Sched Tid) : List Tid := s.cancels.map Prod.snd

/-- The threads in no queue. -/
def Sched.outside (s : Sched Tid) : Set Tid := {t | t ∈ s.control.current ∨ t ∈ s.victims}

/-- The state of the current thread. -/
def Control.Fits (status : Tid → Status) : Control Tid → Prop
  | .running t => (status t).state = .ready
  | .back t => (status t).state ≠ .new
  | _ => True

lemma Control.Fits.congr {control : Control Tid} {status status' : Tid → Status}
    (hfits : control.Fits status)
    (hsame : ∀ t ∈ control.current, (status' t).state = (status t).state) :
    control.Fits status' := by
  cases control with
  | running t => exact (hsame t rfl).trans hfits
  | back t => exact fun hnew => hfits ((hsame t rfl).symm.trans hnew)
  | _ => trivial

/-- A well-formed state, with the threads of the queues. -/
structure WF (s : Sched Tid) (l : QueueName → List Tid) : Prop where
  inv : Inv s l s.outside
  nodup : s.victims.Nodup
  apart : ∀ t ∈ s.control.current, t ∉ s.victims
  alive : ∀ t ∈ s.victims, (s.status t).state ≠ .dead
  fits : s.control.Fits s.status

/-- `s'` is well formed, and its total is right if that of `s` was and `p` holds. -/
def Fine (s : Sched Tid) (l : QueueName → List Tid) (p : Prop) (s' : Sched Tid) : Prop :=
  ∃ l', WF s' l' ∧ (p → Total s l → Total s' l')

section wf

variable {s s' : Sched Tid} {l l' : QueueName → List Tid} {p : Prop} {cur t : Tid}

lemma WF.fine (hwf : WF s l) : Fine s l p s := ⟨l, hwf, fun _ => id⟩

/-- Threads have been moved between queues. -/
lemma WF.moved (hwf : WF s l) (hinv : Inv s' l' s.outside) (hmoved : Moved s.outside s s') :
    WF s' l' := by
  have hvictims : s'.victims = s.victims := congrArg (List.map Prod.snd) hmoved.cancels
  have hout : s'.outside = s.outside := by
    unfold Sched.outside
    rw [hmoved.control, hvictims]
  refine ⟨hout ▸ hinv, hvictims ▸ hwf.nodup, ?_, ?_, ?_⟩
  · rw [hmoved.control, hvictims]
    exact hwf.apart
  · intro t ht
    rw [hvictims] at ht
    rw [hmoved.status t (Or.inr ht)]
    exact hwf.alive t ht
  · rw [hmoved.control]
    apply hwf.fits.congr
    exact fun t ht => congrArg Status.state (hmoved.status t (Or.inl ht))

/-- Control is passed on, with the same current thread. -/
lemma WF.goto (hwf : WF s l) {control : Control Tid} (hsame : control.current = s.control.current)
    (hfits : control.Fits s.status) : WF (s.goto control) l := by
  have hout : (s.goto control).outside = s.outside := by
    unfold Sched.outside
    rw [← hsame]
    rfl
  refine ⟨?_, hwf.nodup, ?_, hwf.alive, hfits⟩
  · rw [hout]
    exact hwf.inv.of_eq rfl rfl rfl fun _ _ _ => rfl
  · intro t ht
    exact hwf.apart t (hsame.symm.trans ht)

/-- The running thread switches to the scheduler. -/
lemma WF.goBack (hwf : WF s l) (hcur : s.control = .running cur) :
    WF (s.goto (.back cur)) l := by
  have hready := hwf.fits
  rw [hcur] at hready
  apply hwf.goto
  · rw [hcur]
    rfl
  · exact fun hnew => State.noConfusion (hready.symm.trans hnew)

/-- The thread that has come back gets another state. -/
lemma WF.setBack (hwf : WF s l) (hback : s.control = .back cur) {state : State}
    (hstate : state ≠ .new) : WF (s.setState cur state) l := by
  have hmem : cur ∈ s.control.current := by
    rw [hback]
    rfl
  have hvictim : ∀ t ∈ s.victims, t ≠ cur := fun t ht htc => hwf.apart cur hmem (htc ▸ ht)
  refine ⟨hwf.inv.setState (Or.inl hmem) state, hwf.nodup, hwf.apart, ?_, ?_⟩
  · intro t ht
    have hsame : (s.setState cur state).status t = s.status t :=
      Function.update_of_ne (hvictim t ht) _ _
    rw [hsame]
    exact hwf.alive t ht
  · have hset : (s.setState cur state).control = .back cur := hback
    rw [hset]
    change (Function.update s.status cur _ cur).state ≠ .new
    rw [Function.update_self]
    exact hstate

/-- The running thread switches to the scheduler, in another state. -/
lemma WF.switch (hwf : WF s l) (hcur : s.control = .running cur) {state : State}
    (hstate : state ≠ .new) : WF ((s.setState cur state).goto (.back cur)) l :=
  (hwf.goBack hcur).setBack rfl hstate

end wf

/-! ## Calls -/

section calls

variable {s s' : Sched Tid} {l : QueueName → List Tid} {cur t : Tid}

/-- Control blocks change in what queues do not depend on. -/
lemma WF.modifyStatus (hwf : WF s l) (t : Tid) (f : Status → Status) :
    WF (s.modifyStatus t f) l := by
  have hstate : ∀ c, ((s.modifyStatus t f).status c).state = (s.status c).state := by
    intro c
    change (Function.update s.status t _ c).state = _
    by_cases hct : c = t
    · subst hct
      rw [Function.update_self]
    · rw [Function.update_of_ne hct]
  refine ⟨hwf.inv.of_eq rfl rfl rfl fun _ c _ => hstate c, hwf.nodup, hwf.apart, ?_, ?_⟩
  · intro c hc
    rw [hstate]
    exact hwf.alive c hc
  · exact hwf.fits.congr fun c _ => hstate c

/-- `pth_yield`. -/
lemma yield_spec (hwf : WF s l) (hcur : s.control = .running cur) {favoured : Option Tid}
    (hrun : s.yield cur favoured = some s') :
    Fine s l (∀ t ∈ favoured, s.contains .rq t = some true →
      (s.queue .rq).qNum = 1 ∨ (s.heap t).prio = -1) s' := by
  rcases favoured with _ | t
  · cases hrun
    exact ⟨l, hwf.goBack hcur, fun _ h₀ => h₀⟩
  · unfold Sched.yield at hrun
    simp only at hrun
    split_ifs at hrun with hlive
    rcases hfav : Sched.favouredIn (s.status t).state with _ | n
    · rw [hfav] at hrun
      cases hrun
      exact hwf.fine
    · rw [hfav] at hrun
      simp only [hwf.inv.contains_eq, Option.bind_eq_bind, Option.bind_some] at hrun
      split_ifs at hrun with hin
      · have ht : t ∈ l n := of_decide_eq_true hin
        obtain ⟨s₁, l₁, hop, hinv₁, hkept, htotal⟩ := hwf.inv.favoured ht
        rw [hop, Option.bind_some] at hrun
        cases hrun
        have hwf₁ : WF s₁ l₁ := hwf.moved hinv₁ (hkept.moved _)
        refine ⟨l₁, hwf₁.goBack (hkept.control.trans hcur), fun hprio h₀ => htotal ?_ h₀⟩
        rintro rfl
        exact hprio t rfl (hwf.inv.contains_of_mem ht)
      · cases hrun
        exact hwf.fine

/-- A thread that is moved between queues by a call. -/
lemma WF.transferred (hwf : WF s l) {n m : QueueName} (ht : t ∈ l n)
    (hadm : m.Admits (s.status t).state) (prio : ℤ) :
    ∃ s₁, s.delete n t = some s₁ ∧ s₁.status = s.status ∧ ∃ s', s₁.insert m prio t = some s' ∧
      Fine s l (n = .rq → (s.heap t).prio = -1) s' := by
  obtain ⟨pre, post, hl⟩ := List.append_of_mem ht
  obtain ⟨s₁, hdel, hinv₁, hkept₁, htotal₁⟩ := hwf.inv.deleted hl
  have hadm₁ : m.Admits (s₁.status t).state := by
    rw [hkept₁.status]
    exact hadm
  obtain ⟨s', l', hins, hinv', hkept', -, htotal'⟩ := hinv₁.inserted (Or.inr rfl) hadm₁ prio
  rw [hwf.inv.out_again ht] at hinv'
  exact ⟨s₁, hdel, hkept₁.status, s', hins, l',
    hwf.moved hinv' ((hkept₁.moved _).trans (hkept'.moved _)),
    fun hprio h₀ => htotal' (htotal₁ hprio h₀)⟩

lemma not_dead_of_queueOf {state : State} {n : QueueName} (h : Sched.queueOf state = some n) :
    state ≠ .dead ∧ n.Admits state := by
  cases state with
  | dead => cases h
  | _ =>
      obtain rfl := Option.some.inj h
      exact ⟨State.noConfusion, rfl⟩

/-- `pth_suspend`. -/
lemma suspend_spec (hwf : WF s l) (hrun : s.suspend cur t = some s') :
    Fine s l (s.contains .rq t = some true → (s.heap t).prio = -1) s' := by
  unfold Sched.suspend at hrun
  split_ifs at hrun with hlive hcur
  · cases hrun
    exact hwf.fine
  · rcases hq : Sched.queueOf (s.status t).state with _ | n
    · rw [hq] at hrun
      cases hrun
      exact hwf.fine
    · rw [hq] at hrun
      simp only [hwf.inv.contains_eq, Option.bind_eq_bind, Option.bind_some] at hrun
      split_ifs at hrun with hin
      · have ht : t ∈ l n := of_decide_eq_true hin
        have hadm : QueueName.sq.Admits (s.status t).state := (not_dead_of_queueOf hq).1
        obtain ⟨s₁, hdel, -, s₂, hins, l', hwf', htotal⟩ := hwf.transferred ht hadm prioStd
        rw [hdel, Option.bind_some, hins] at hrun
        cases hrun
        refine ⟨l', hwf', fun hprio => htotal ?_⟩
        rintro rfl
        exact hprio (hwf.inv.contains_of_mem ht)
      · cases hrun
        exact hwf.fine

/-- `pth_resume`. -/
lemma resume_spec (hwf : WF s l) (hrun : s.resume cur t = some s') : Fine s l True s' := by
  unfold Sched.resume at hrun
  split_ifs at hrun with hlive hcur
  · cases hrun
    exact hwf.fine
  · simp only [hwf.inv.contains_eq, Option.bind_eq_bind, Option.bind_some] at hrun
    split_ifs at hrun with hin
    · have ht : t ∈ l .sq := of_decide_eq_true hin
      have hdead : (s.status t).state ≠ .dead := hwf.inv.states .sq t ht
      obtain ⟨n, hq⟩ : ∃ n, Sched.queueOf (s.status t).state = some n := by
        cases hstate : (s.status t).state with
        | dead => exact absurd hstate hdead
        | _ => exact ⟨_, rfl⟩
      obtain ⟨s₁, hdel, hstatus, s₂, hins, l', hwf', htotal⟩ :=
        hwf.transferred ht (not_dead_of_queueOf hq).2 prioStd
      rw [hdel, Option.bind_some, hstatus, hq] at hrun
      simp only at hrun
      rw [hins] at hrun
      cases hrun
      exact ⟨l', hwf', fun _ => htotal (by simp)⟩
    · cases hrun
      exact hwf.fine

/-- The end of `pth_cancel` for a thread in no queue. -/
lemma Inv.cancelled {out : Set Tid} (hinv : Inv s l out) (ht : t ∈ out)
    (hrun : s.finishCancel t = some s') :
    ∃ l', Inv s' l' (out \ {t}) ∧ Moved (out \ {t}) s s' ∧ (Total s l → Total s' l') := by
  have hnot : t ∉ out \ {t} := fun h => h.2 rfl
  unfold Sched.finishCancel at hrun
  split_ifs at hrun with hjoin
  · have hadm : QueueName.dq.Admits ((s.setState t .dead).status t).state := by
      change (Function.update s.status t _ t).state = .dead
      rw [Function.update_self]
    obtain ⟨s₁, l', hins, hinv', hkept, -, htotal⟩ :=
      (hinv.setState ht .dead).inserted ht hadm prioStd
    rw [hins] at hrun
    cases hrun
    exact ⟨l', hinv', (moved_setState hnot .dead).trans (hkept.moved _), htotal⟩
  · cases hrun
    exact ⟨l, hinv.free ht, ⟨fun _ _ => rfl, rfl, rfl, rfl⟩, id⟩

/-- A thread that has been taken out of its queue becomes a victim. -/
lemma WF.victimise (hwf : WF s l) {s₁ : Sched Tid} {l₁ : QueueName → List Tid} {n : QueueName}
    (ht : t ∈ l n) (halive : (s.status t).state ≠ .dead) (hinv₁ : Inv s₁ l₁ (s.outside ∪ {t}))
    (hkept : Kept s s₁) (cur : Tid) : WF { s₁ with cancels := (cur, t) :: s₁.cancels } l₁ := by
  have hout : t ∉ s.outside := hwf.inv.apart n t ht
  have hvictims : ({ s₁ with cancels := (cur, t) :: s₁.cancels } : Sched Tid).victims =
      t :: s.victims := by
    unfold Sched.victims
    rw [List.map_cons, hkept.cancels]
  have houtside : ({ s₁ with cancels := (cur, t) :: s₁.cancels } : Sched Tid).outside =
      s.outside ∪ {t} := by
    ext c
    change c ∈ s₁.control.current ∨ c ∈ Sched.victims _ ↔
      (c ∈ s.control.current ∨ c ∈ s.victims) ∨ c = t
    rw [hvictims, hkept.control, List.mem_cons]
    tauto
  refine ⟨?_, ?_, ?_, ?_, ?_⟩
  · rw [houtside]
    exact hinv₁.of_eq rfl rfl rfl fun _ _ _ => rfl
  · rw [hvictims, List.nodup_cons]
    exact ⟨fun hmem => hout (Or.inr hmem), hwf.nodup⟩
  · intro c hc
    have hc : c ∈ s.control.current := by
      rw [← hkept.control]
      exact hc
    rw [hvictims, List.mem_cons, not_or]
    exact ⟨fun hct => hout (hct ▸ Or.inl hc), hwf.apart c hc⟩
  · intro c hc
    rw [hvictims] at hc
    change (s₁.status c).state ≠ .dead
    rw [hkept.status]
    rcases List.mem_cons.mp hc with rfl | hc
    · exact halive
    · exact hwf.alive c hc
  · change s₁.control.Fits s₁.status
    rw [hkept.control, hkept.status]
    exact hwf.fits

/-- `pth_cancel` takes a thread out of its queue. -/
lemma withdraw_spec (hwf : WF s l) {n : QueueName} (ht : t ∈ l n)
    (halive : (s.status t).state ≠ .dead)
    (hrun : (s.delete n t).bind (fun s₁ =>
      if (s₁.status t).cleanups = 0 then s₁.finishCancel t
      else some { s₁ with cancels := (cur, t) :: s₁.cancels }) = some s') :
    Fine s l (n = .rq → (s.heap t).prio = -1) s' := by
  obtain ⟨pre, post, hl⟩ := List.append_of_mem ht
  obtain ⟨s₁, hdel, hinv₁, hkept₁, htotal₁⟩ := hwf.inv.deleted hl
  rw [hdel, Option.bind_some] at hrun
  split_ifs at hrun with hclean
  · obtain ⟨l', hinv', hmoved', htotal'⟩ := hinv₁.cancelled (Or.inr rfl) hrun
    rw [hwf.inv.out_again ht] at hinv' hmoved'
    exact ⟨l', hwf.moved hinv' ((hkept₁.moved _).trans hmoved'),
      fun hprio h₀ => htotal' (htotal₁ hprio h₀)⟩
  · cases hrun
    exact ⟨_, hwf.victimise ht halive hinv₁ hkept₁ cur, fun hprio h₀ => htotal₁ hprio h₀⟩

/-- `pth_cancel`, up to the cleanup handlers. -/
lemma cancel_spec (hwf : WF s l) (hrun : s.cancel cur t = some s') :
    Fine s l (s.contains .rq t = some true →
      ((s.status t).cancelEnable && (s.status t).cancelAsync) = true →
        (s.heap t).prio = -1) s' := by
  let s₀ := s.modifyStatus t fun b => { b with cancelreq := true }
  have hwf₀ : WF s₀ l := hwf.modifyStatus t _
  have hstatus : s₀.status t = { s.status t with cancelreq := true } :=
    Function.update_self _ _ _
  -- the request is noted, and nothing else is done
  have hnoted : ∀ p, Fine s l p s₀ := fun p => ⟨l, hwf₀, fun _ h₀ => h₀⟩
  unfold Sched.cancel at hrun
  split_ifs at hrun with hlive htc hdead
  · cases hrun
    exact hwf.fine
  · cases hrun
    exact hwf.fine
  · simp only [show s.modifyStatus t (fun b => { b with cancelreq := true }) = s₀ from rfl] at hrun
    split_ifs at hrun with hasync
    · rcases hq : Sched.queueOf (s₀.status t).state with _ | n
      · rw [hq] at hrun
        rw [← Option.some.inj hrun]
        exact hnoted _
      · rw [hq] at hrun
        simp only [hwf₀.inv.contains_eq, Option.bind_eq_bind, Option.bind_some] at hrun
        split_ifs at hrun with hin
        · have ht : t ∈ l n := of_decide_eq_true hin
          obtain ⟨l', hwf', htotal'⟩ := withdraw_spec hwf₀ ht (not_dead_of_queueOf hq).1 hrun
          refine ⟨l', hwf', fun hprio => htotal' ?_⟩
          -- the thread was in the ready queue
          rintro rfl
          apply hprio (hwf.inv.contains_of_mem ht)
          rw [hstatus] at hasync
          exact hasync
        · rw [← Option.some.inj hrun]
          exact hnoted _
    · rw [← Option.some.inj hrun]
      exact hnoted _

/-- A victim is done with. -/
lemma WF.relieve (hwf : WF s l) {p : Tid × Tid} (hp : p ∈ s.cancels) {l' : QueueName → List Tid}
    (hinv : Inv s' l' (s.outside \ {p.2}))
    (hmoved : Moved (s.outside \ {p.2}) { s with cancels := s.cancels.erase p } s') : WF s' l' := by
  have hcancels : s'.cancels = s.cancels.erase p := hmoved.cancels
  have hcontrol : s'.control = s.control := hmoved.control
  have hperm : s.victims.Perm (p.2 :: s'.victims) := by
    unfold Sched.victims
    rw [hcancels]
    exact (List.perm_cons_erase hp).map Prod.snd
  obtain ⟨hnot, hnodup⟩ := List.nodup_cons.mp (hperm.nodup_iff.mp hwf.nodup)
  have hvictim : ∀ c ∈ s'.victims, c ∈ s.outside \ {p.2} := by
    intro c hc
    exact ⟨Or.inr (hperm.mem_iff.mpr (List.mem_cons_of_mem _ hc)), fun hcp => hnot (hcp ▸ hc)⟩
  have hcurrent : ∀ c ∈ s.control.current, c ∈ s.outside \ {p.2} := by
    intro c hc
    refine ⟨Or.inl hc, fun hcp => hwf.apart c hc ?_⟩
    exact hperm.mem_iff.mpr (List.mem_cons.mpr (Or.inl hcp))
  have hout : s'.outside = s.outside \ {p.2} := by
    ext c
    constructor
    · rintro (hc | hc)
      · rw [hcontrol] at hc
        exact hcurrent c hc
      · exact hvictim c hc
    · rintro ⟨hc | hc, hcp⟩
      · left
        rw [hcontrol]
        exact hc
      · right
        exact (List.mem_cons.mp (hperm.mem_iff.mp hc)).resolve_left hcp
  refine ⟨hout ▸ hinv, hnodup, ?_, ?_, ?_⟩
  · intro c hc hcv
    rw [hcontrol] at hc
    exact hwf.apart c hc (hperm.mem_iff.mpr (List.mem_cons_of_mem _ hcv))
  · intro c hc
    rw [hmoved.status c (hvictim c hc)]
    exact hwf.alive c (hperm.mem_iff.mpr (List.mem_cons_of_mem _ hc))
  · rw [hcontrol]
    apply hwf.fits.congr
    exact fun c hc => congrArg Status.state (hmoved.status c (hcurrent c hc))

/-- `pth_cancel`, behind the cleanup handlers. -/
lemma cancelEnd_spec (hwf : WF s l) (hrun : s.cancelEnd cur = some s') : Fine s l True s' := by
  unfold Sched.cancelEnd at hrun
  rcases hfind : s.cancels.find? (·.1 = cur) with _ | p
  · rw [hfind] at hrun
    cases hrun
  · rw [hfind] at hrun
    have hp : p ∈ s.cancels := List.mem_of_find?_eq_some hfind
    have hout : p.2 ∈ s.outside := Or.inr (List.mem_map_of_mem hp)
    have hinv : Inv { s with cancels := s.cancels.erase p } l s.outside :=
      hwf.inv.of_eq rfl rfl rfl fun _ _ _ => rfl
    obtain ⟨l', hinv', hmoved', htotal'⟩ := hinv.cancelled hout hrun
    exact ⟨l', hwf.relieve hp hinv' hmoved', fun _ h₀ => htotal' h₀⟩

/-- A thread that is dead is in the dead queue. -/
lemma WF.mem_dq (hwf : WF s l) (hcur : s.control = .running cur) (hlive : t ∈ s.live)
    (hdead : (s.status t).state = .dead) : t ∈ l .dq := by
  rcases (hwf.inv.live t).mp hlive with ⟨n, hn⟩ | hc | hv
  · have hadm := hwf.inv.states n t hn
    rw [hdead] at hadm
    cases n with
    | dq => exact hn
    | sq => exact absurd rfl hadm
    | _ => cases hadm
  · have hready := hwf.fits
    rw [hcur] at hc hready
    obtain rfl : cur = t := Option.some.inj hc
    cases hready.symm.trans hdead
  · exact absurd hdead (hwf.alive t hv)

/-- The end of `pth_join`. -/
lemma reap_spec (hwf : WF s l) (ht : t ∈ l .dq) (hrun : s.reap t = some s') :
    Fine s l True s' := by
  obtain ⟨pre, post, hl⟩ := List.append_of_mem ht
  obtain ⟨s₁, hdel, hinv₁, hkept₁, htotal₁⟩ := hwf.inv.deleted hl
  unfold Sched.reap at hrun
  rw [hdel, Option.bind_eq_bind, Option.bind_some] at hrun
  cases hrun
  have hinv' := hinv₁.free (Or.inr rfl : t ∈ s.outside ∪ {t})
  rw [hwf.inv.out_again ht] at hinv'
  refine ⟨_, hwf.moved hinv' ((hkept₁.moved _).trans ⟨fun _ _ => rfl, rfl, rfl, rfl⟩), ?_⟩
  exact fun _ h₀ => htotal₁ (by simp) h₀

/-- The head of the dead queue. -/
lemma WF.joined_mem (hwf : WF s l) (hcur : s.control = .running cur) {tid : Option Tid}
    (hlive : ∀ c ∈ tid, c ∈ s.live) (hjoined : s.joined tid = some t)
    (hdead : (s.status t).state = .dead) : t ∈ l .dq := by
  rcases tid with _ | c
  · have hhead : (l .dq).head? = some t := (hwf.inv.holds .dq).head.symm.trans hjoined
    exact List.mem_of_head? hhead
  · obtain rfl : c = t := Option.some.inj hjoined
    exact hwf.mem_dq hcur (hlive c rfl) hdead

/-- `pth_join`, behind `pth_wait`. -/
lemma joinEnd_spec (hwf : WF s l) (hcur : s.control = .running cur) {tid : Option Tid}
    (hrun : s.joinEnd tid = some s') : Fine s l True s' := by
  unfold Sched.joinEnd at hrun
  rcases hjoined : s.joined tid with _ | t
  · rw [hjoined] at hrun
    cases hrun
    exact hwf.fine
  · rw [hjoined] at hrun
    simp only at hrun
    split_ifs at hrun with hlive hdead
    · exact reap_spec hwf (hwf.mem_dq hcur hlive hdead) hrun
    · cases hrun
      exact hwf.fine

/-- `pth_join`, up to `pth_wait`. -/
lemma join_spec (hwf : WF s l) (hcur : s.control = .running cur) {tid : Option Tid}
    (hrun : s.join cur tid = some s') : Fine s l True s' := by
  have hwait : Fine s l True (s.wait cur) :=
    ⟨l, hwf.switch hcur State.noConfusion, fun _ h₀ => h₀⟩
  unfold Sched.join at hrun
  split_ifs at hrun with hself hlive hjoin hcount
  · cases hrun
    exact hwf.fine
  · cases hrun
    exact hwf.fine
  · cases hrun
    exact hwf.fine
  · rcases hjoined : s.joined tid with _ | t
    · rw [hjoined] at hrun
      cases hrun
      exact hwait
    · rw [hjoined] at hrun
      simp only at hrun
      split_ifs at hrun with hdead
      · have hlive' : ∀ c ∈ tid, c ∈ s.live := by
          intro c hc
          by_contra hnot
          exact hlive ⟨c, hc, hnot⟩
        exact reap_spec hwf (hwf.joined_mem hcur hlive' hjoined hdead) hrun
      · cases hrun
        exact hwait

/-- A new control block. -/
lemma Inv.spawned {out : Set Tid} (hinv : Inv s l out) (ht : t ∉ s.live) (b : Tcb Tid)
    (status : Status) : Inv (s.newThread t b status) l (out ∪ {t}) := by
  have hne : ∀ n, ∀ c ∈ l n, c ≠ t := fun n c hc hct => ht (hct ▸ hinv.mem_live hc)
  have hheap : Inv { s with heap := Function.update s.heap t b } l out := by
    apply hinv.setHeap
    intro n c hc
    rw [Function.update_of_ne (hne n c hc)]
    exact ⟨rfl, rfl⟩
  refine ⟨hheap.holds, hinv.uniq, ?_, ?_, ?_⟩
  · intro c
    change c ∈ insert t s.live ↔ _
    rw [Finset.mem_insert, hinv.live c, Set.mem_union, Set.mem_singleton_iff]
    tauto
  · rintro n c hc (hout | hct)
    · exact hinv.apart n c hc hout
    · exact hne n c hc hct
  · intro n c hc
    change n.Admits (Function.update s.status t status c).state
    rw [Function.update_of_ne (hne n c hc)]
    exact hinv.states n c hc

/-- A new thread goes to the new queue. -/
lemma newThread_spec (hwf : WF s l) (hlive : t ∉ s.live) {b : Tcb Tid} {status : Status}
    (hnew : status.state = .new) {prio : ℤ}
    (hrun : (s.newThread t b status).insert .nq prio t = some s') : Fine s l True s' := by
  have hout : t ∉ s.outside := fun hmem => hlive ((hwf.inv.live t).mpr (Or.inr hmem))
  have hadm : QueueName.nq.Admits ((s.newThread t b status).status t).state := by
    change (Function.update s.status t status t).state = .new
    rw [Function.update_self, hnew]
  obtain ⟨s₂, l', hins, hinv', hkept', -, htotal'⟩ :=
    (hwf.inv.spawned hlive b status).inserted (Or.inr rfl) hadm prio
  rw [Set.union_sdiff_right, Set.sdiff_singleton_eq_self hout] at hinv'
  rw [hins] at hrun
  cases hrun
  have hmoved : Moved s.outside s (s.newThread t b status) := by
    refine ⟨?_, rfl, rfl, rfl⟩
    intro c hc
    have hct : c ≠ t := fun hct => hout (hct ▸ hc)
    exact Function.update_of_ne hct _ _
  refine ⟨l', hwf.moved hinv' (hmoved.trans (hkept'.moved _)), fun _ h₀ => htotal' ?_⟩
  have hsum : prioSum (Function.update s.heap t b) (l .rq) = prioSum s.heap (l .rq) := by
    apply prioSum_congr
    intro c hc
    have hct : c ≠ t := fun hct => hlive (hct ▸ hwf.inv.mem_live hc)
    rw [Function.update_of_ne hct]
  exact Eq.trans h₀ (congrArg (unsigned 64) hsum.symm)

/-- `pth_spawn`. -/
lemma spawn_spec (hwf : WF s l) {attr : Option Attr} {now : ℚ}
    (hrun : s.spawn t attr now = some s') : Fine s l True s' := by
  unfold Sched.spawn at hrun
  split_ifs at hrun with hlive
  exact newThread_spec hwf hlive rfl hrun

/-- `pth_attr_set (attr, PTH_ATTR_PRIO, prio)`. -/
lemma attrSetPrio_spec (hwf : WF s l) (t : Tid) (prio : ℤ) :
    Fine s l (s.contains .rq t = some true → (s.heap t).prio = prio)
      { s with heap := Function.update s.heap t { s.heap t with prio := prio } } := by
  have hinv : Inv { s with heap := Function.update s.heap t { s.heap t with prio := prio } } l
      s.outside := by
    apply hwf.inv.setHeap
    intro n c _
    exact ⟨field_update Tcb.qNext (by rfl) c, field_update Tcb.qPrev (by rfl) c⟩
  refine ⟨l, hwf.moved hinv ⟨fun _ _ => rfl, rfl, rfl, rfl⟩, fun hsame h₀ => ?_⟩
  have hsum : prioSum (Function.update s.heap t { s.heap t with prio := prio }) (l .rq) =
      prioSum s.heap (l .rq) := by
    apply prioSum_congr
    intro c hc
    by_cases hct : c = t
    · subst hct
      rw [Function.update_self]
      exact (hsame (hwf.inv.contains_of_mem hc)).symm
    · rw [Function.update_of_ne hct]
  exact Eq.trans h₀ (congrArg (unsigned 64) hsum.symm)

end calls

/-! ## Steps -/

/-- The step leaves the total priority of the ready queue right. -/
def Sched.Harmless (s : Sched Tid) : Sched.Event Tid → Prop
  | .call (.yield (some t)) =>
      s.contains .rq t = some true → (s.queue .rq).qNum = 1 ∨ (s.heap t).prio = -1
  | .call (.suspend t) => s.contains .rq t = some true → (s.heap t).prio = -1
  | .call (.cancel t) =>
      s.contains .rq t = some true →
        ((s.status t).cancelEnable && (s.status t).cancelAsync) = true → (s.heap t).prio = -1
  | .call (.attrSetPrio t prio) => s.contains .rq t = some true → (s.heap t).prio = prio
  | _ => True

section steps

variable {s s' : Sched Tid} {l : QueueName → List Tid} {cur : Tid}

lemma Fine.weaken {p p' : Prop} (hfine : Fine s l p s') (hp : p' → p) : Fine s l p' s' := by
  obtain ⟨l', hwf, htotal⟩ := hfine
  exact ⟨l', hwf, fun h => htotal (hp h)⟩

/-- A call of the running thread. -/
lemma call_spec (hwf : WF s l) (hcur : s.control = .running cur) {c : Sched.Call Tid}
    (hrun : s.call cur c = some s') : Fine s l (s.Harmless (.call c)) s' := by
  cases c with
  | spawn t attr now => exact (spawn_spec hwf hrun).weaken fun _ => trivial
  | yield favoured =>
      apply (yield_spec hwf hcur hrun).weaken
      rintro hprio t rfl
      exact hprio
  | wait =>
      cases hrun
      exact ⟨l, hwf.switch hcur State.noConfusion, fun _ h₀ => h₀⟩
  | exit =>
      simp only [Sched.call, Sched.exit] at hrun
      split_ifs at hrun
      cases hrun
      exact ⟨l, hwf.switch hcur State.noConfusion, fun _ h₀ => h₀⟩
  | suspend t => exact suspend_spec hwf hrun
  | resume t => exact resume_spec hwf hrun
  | cancel t => exact cancel_spec hwf hrun
  | cancelEnd => exact cancelEnd_spec hwf hrun
  | join tid => exact join_spec hwf hcur hrun
  | joinEnd tid => exact joinEnd_spec hwf hcur hrun
  | attrSetPrio t prio =>
      simp only [Sched.call] at hrun
      split_ifs at hrun
      cases hrun
      exact attrSetPrio_spec hwf t prio
  | cancelState enable async =>
      cases hrun
      exact ⟨l, hwf.modifyStatus _ _, fun _ h₀ => h₀⟩
  | cleanupPush =>
      cases hrun
      exact ⟨l, hwf.modifyStatus _ _, fun _ h₀ => h₀⟩
  | cleanupPop =>
      cases hrun
      exact ⟨l, hwf.modifyStatus _ _, fun _ h₀ => h₀⟩
  | ctrlFavournew favournew =>
      cases hrun
      exact ⟨l, hwf.moved (hwf.inv.of_eq rfl rfl rfl fun _ _ _ => rfl)
        ⟨fun _ _ => rfl, rfl, rfl, rfl⟩, fun _ h₀ => h₀⟩

/-- Usages are computed. -/
lemma account_spec (hwf : WF s l) (cur : Tid) (r : Sched.Report Tid) :
    ∃ s₁, s.account cur r = some s₁ ∧ WF s₁ l ∧ s₁.control = s.control ∧
      (Total s l → Total s₁ l) := by
  let h₁ : Heap Tid := Function.update s.heap cur
    { s.heap cur with running := (s.heap cur).running + r.ran }
  have hprio₁ : ∀ c, (h₁ c).prio = (s.heap c).prio := fun c => field_update Tcb.prio (by rfl) c
  have hinv₁ : Inv { s with heap := h₁ } l s.outside := by
    apply hwf.inv.setHeap
    intro n c _
    exact ⟨field_update Tcb.qNext (by rfl) c, field_update Tcb.qPrev (by rfl) c⟩
  obtain ⟨h₂, hupdate, hholds₂, hframe₂⟩ :=
    updateART_spec (hinv₁.holds .rq) (hinv₁.length_le .rq) r.now
  have hprio₂ : ∀ c ∈ l .rq, (h₂ c).prio = (s.heap c).prio := fun c _ =>
    (hframe₂.prio c).trans (hprio₁ c)
  refine ⟨{ s with heap := h₂ }, ?_, ?_, rfl, ?_⟩
  · have hupdate : pqueueUpdateART s.live.card r.now h₁ (s.queue .rq) = some h₂ := hupdate
    change (pqueueUpdateART s.live.card r.now h₁ (s.queue .rq)).bind _ = _
    rw [hupdate]
    rfl
  · exact hwf.moved (hinv₁.recount hholds₂ hframe₂) ⟨fun _ _ => rfl, rfl, rfl, rfl⟩
  · intro h₀
    exact Eq.trans h₀ (congrArg (unsigned 64) (prioSum_congr hprio₂).symm)

/-- The thread that has come back goes to its queue, or is freed. -/
lemma putBack_spec (hwf : WF s l) (hback : s.control = .back cur)
    (hrun : s.putBack cur = some s') :
    ∃ l', Inv s' l' (s.outside \ {cur}) ∧ Moved (s.outside \ {cur}) s s' ∧
      (Total s l → Total s' l') := by
  have hcur : cur ∈ s.outside := by
    left
    rw [hback]
    rfl
  have hnew : (s.status cur).state ≠ .new := by
    have hfits := hwf.fits
    rw [hback] at hfits
    exact hfits
  -- into queue `n`, whose threads are in the state of the thread
  have hput : ∀ (n : QueueName) {prio : ℤ}, n.Admits (s.status cur).state →
      s.insert n prio cur = some s' → ∃ l', Inv s' l' (s.outside \ {cur}) ∧
        Moved (s.outside \ {cur}) s s' ∧ (Total s l → Total s' l') := by
    intro n prio hadm hins
    obtain ⟨s₁, l', hins', hinv', hkept', -, htotal'⟩ := hwf.inv.inserted hcur hadm prio
    obtain rfl : s₁ = s' := Option.some.inj (hins'.symm.trans hins)
    exact ⟨l', hinv', hkept'.moved _, htotal'⟩
  unfold Sched.putBack at hrun
  cases hstate : (s.status cur).state with
  | new => exact absurd hstate hnew
  | ready =>
      rw [hstate] at hrun
      exact hput .rq hstate hrun
  | waiting =>
      rw [hstate] at hrun
      exact hput .wq hstate hrun
  | dead =>
      rw [hstate] at hrun
      simp only at hrun
      split_ifs at hrun with hjoin
      · exact hput .dq hstate hrun
      · cases hrun
        exact ⟨l, hwf.inv.free hcur, ⟨fun _ _ => rfl, rfl, rfl, rfl⟩, id⟩

/-- The current thread has left, and the scheduler is at the top of its loop. -/
lemma WF.toTop (hwf : WF s l) (hback : s.control = .back cur) {l' : QueueName → List Tid}
    (hinv : Inv s' l' (s.outside \ {cur})) (hmoved : Moved (s.outside \ {cur}) s s') :
    WF (s'.goto .top) l' := by
  have hcur : cur ∉ s.victims := by
    apply hwf.apart cur
    rw [hback]
    rfl
  have hvictims : (s'.goto .top).victims = s.victims := congrArg (List.map Prod.snd) hmoved.cancels
  have hout : (s'.goto .top).outside = s.outside \ {cur} := by
    ext c
    constructor
    · rintro (hc | hc)
      · cases hc
      · rw [hvictims] at hc
        exact ⟨Or.inr hc, fun hcc => hcur (hcc ▸ hc)⟩
    · rintro ⟨hc | hc, hcc⟩
      · rw [hback] at hc
        exact absurd (Option.some.inj hc).symm hcc
      · right
        rw [hvictims]
        exact hc
  refine ⟨?_, hvictims ▸ hwf.nodup, ?_, ?_, trivial⟩
  · rw [hout]
    exact hinv.of_eq rfl rfl rfl fun _ _ _ => rfl
  · intro c hc
    cases hc
  · intro c hc
    rw [hvictims] at hc
    have hsame : (s'.goto .top).status c = s.status c :=
      hmoved.status c ⟨Or.inr hc, fun hcc => hcur (hcc ▸ hc)⟩
    rw [hsame]
    exact hwf.alive c hc

/-- The loop of the scheduler from the switch on. -/
lemma back_spec (hwf : WF s l) (hback : s.control = .back cur) {r : Sched.Report Tid}
    (hrun : s.back cur r = some s') : Fine s l True s' := by
  obtain ⟨s₁, haccount, hwf₁, hcontrol₁, htotal₁⟩ := account_spec hwf cur r
  have hback₁ : s₁.control = .back cur := hcontrol₁.trans hback
  obtain ⟨s₂, hs₂, hwf₂, hback₂, htotal₂⟩ :
      ∃ s₂, (if r.overflow then s₁.setState cur .dead else s₁) = s₂ ∧ WF s₂ l ∧
        s₂.control = .back cur ∧ (Total s₁ l → Total s₂ l) := by
    split_ifs
    · exact ⟨_, rfl, hwf₁.setBack hback₁ State.noConfusion, hback₁, id⟩
    · exact ⟨_, rfl, hwf₁, hback₁, id⟩
  unfold Sched.back at hrun
  simp only [haccount, Option.bind_eq_bind, Option.bind_some, hs₂] at hrun
  rcases hput : s₂.putBack cur with _ | s₃
  · rw [hput] at hrun
    cases hrun
  · obtain ⟨l₃, hinv₃, hmoved₃, htotal₃⟩ := putBack_spec hwf₂ hback₂ hput
    obtain ⟨s₄, l₄, hmanage, hinv₄, hmoved₄, htotal₄⟩ := hinv₃.managed (r.occurred :: r.repeats)
    rw [hput, Option.bind_some, hmanage, Option.bind_some] at hrun
    cases hrun
    refine ⟨l₄, hwf₂.toTop hback₂ hinv₄ (hmoved₃.trans hmoved₄), fun _ h₀ => ?_⟩
    exact htotal₄ (htotal₃ (htotal₂ (htotal₁ h₀)))

lemma spawn_control {t : Tid} {attr : Option Attr} {now : ℚ}
    (hrun : s.spawn t attr now = some s') : s'.control = s.control := by
  unfold Sched.spawn Sched.insert at hrun
  split_ifs at hrun
  simp only [Option.bind_eq_bind, Option.bind_eq_some_iff] at hrun
  obtain ⟨_, -, heq⟩ := hrun
  cases heq
  rfl

/-- A thread of the ready queue is running now. -/
lemma WF.dispatch (hwf : WF s l) (hnone : s.control.current = none) {t : Tid} (ht : t ∈ l .rq)
    {l' : QueueName → List Tid} (hinv : Inv s' l' (s.outside ∪ {t}))
    (hcontrol : s'.control = .running t) (hstatus : s'.status = s.status)
    (hcancels : s'.cancels = s.cancels) : WF s' l' := by
  have hvictims : s'.victims = s.victims := congrArg (List.map Prod.snd) hcancels
  have hout : s'.outside = s.outside ∪ {t} := by
    ext c
    change c ∈ s'.control.current ∨ c ∈ s'.victims ↔
      (c ∈ s.control.current ∨ c ∈ s.victims) ∨ c = t
    rw [hvictims, hcontrol, hnone]
    change some t = some c ∨ _ ↔ (none = some c ∨ _) ∨ c = t
    rw [Option.some.injEq, eq_comm]
    tauto
  refine ⟨hout ▸ hinv, hvictims ▸ hwf.nodup, ?_, ?_, ?_⟩
  · intro c hc hcv
    rw [hcontrol] at hc
    obtain rfl : t = c := Option.some.inj hc
    rw [hvictims] at hcv
    exact hwf.inv.apart .rq t ht (Or.inr hcv)
  · rw [hvictims, hstatus]
    exact hwf.alive
  · rw [hcontrol, hstatus]
    exact hwf.inv.states .rq t ht

/-- **What a step does.** -/
theorem step_spec (hwf : WF s l) {e : Sched.Event Tid} (hstep : s.step e = some s') :
    Fine s l (s.Harmless e) s' := by
  cases hcontrol : s.control with
  | start =>
      cases e with
      | boot now =>
          simp only [Sched.step, hcontrol, Option.map_eq_some_iff] at hstep
          obtain ⟨s₁, hspawn, rfl⟩ := hstep
          obtain ⟨l₁, hwf₁, htotal₁⟩ := spawn_spec hwf hspawn
          refine ⟨l₁, hwf₁.goto ?_ trivial, fun _ h₀ => htotal₁ trivial h₀⟩
          rw [spawn_control hspawn, hcontrol]
          rfl
      | _ => simp [Sched.step, hcontrol] at hstep
  | top =>
      cases e with
      | ready =>
          simp only [Sched.step, hcontrol, Option.map_eq_some_iff] at hstep
          obtain ⟨s₁, hmove, rfl⟩ := hstep
          obtain ⟨s₂, l₂, hmove', hinv₂, hmoved₂, htotal₂⟩ :=
            hwf.inv.admitted (hwf.inv.length_le .nq)
          obtain rfl : s₂ = s₁ := Option.some.inj (hmove'.symm.trans hmove)
          have hwf₂ : WF s₂ l₂ := hwf.moved hinv₂ hmoved₂
          refine ⟨l₂, hwf₂.goto ?_ trivial, fun _ h₀ => htotal₂ h₀⟩
          rw [hmoved₂.control, hcontrol]
          rfl
      | _ => simp [Sched.step, hcontrol] at hstep
  | drawing =>
      cases e with
      | draw rand =>
          simp only [Sched.step, hcontrol] at hstep
          have hnone : s.control.current = none := by
            rw [hcontrol]
            rfl
          obtain ⟨_, _, _, -, -, hdrawn⟩ := hwf.inv.drawn rand.2
          rcases hdrawn with ⟨-, hnot⟩ | ⟨-, s₁, l₁, t, hdraw, ht, hinv₁, hc₁, hs₁, hk₁, htotal₁⟩
          · cases hnot.symm.trans hstep
          · obtain rfl : s₁ = s' := Option.some.inj (hdraw.symm.trans hstep)
            exact ⟨l₁, hwf.dispatch hnone ht hinv₁ hc₁ hs₁ hk₁, fun _ h₀ => htotal₁ h₀⟩
      | _ => simp [Sched.step, hcontrol] at hstep
  | running cur =>
      cases e with
      | call c =>
          simp only [Sched.step, hcontrol] at hstep
          exact call_spec hwf hcontrol hstep
      | _ => simp [Sched.step, hcontrol] at hstep
  | back cur =>
      cases e with
      | back r =>
          simp only [Sched.step, hcontrol] at hstep
          exact (back_spec hwf hcontrol hstep).weaken fun _ => trivial
      | _ => simp [Sched.step, hcontrol] at hstep

end steps

end Comp3301.Pth
