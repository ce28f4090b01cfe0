import Comp3301.Pth.Pqueue
import Comp3301.Lib.Tiling

/-!
# Pth: the lottery

* `Queue h q l` says that the threads of the queue are linked in a ring and are those of `l`, from
  the head on. Round such a ring the loops of the source are folds over `l`.
* `pth_pqueue_issue_tk` lays the tickets of the threads end to end (`issued_spec`), so that every
  number below `total_tk` is the ticket of exactly one thread; `pth_pqueue_deltk` finds this thread
  in its own walk and takes it out of the ring (`lottery_exact`).
* The draw of the scheduler is defined exactly if some thread is at least a fifth of a percent below
  its target (`draw_defined_iff`): otherwise no tickets are issued and `rand () % total_tk` divides
  by zero.
-/

set_option linter.unusedSectionVars false

namespace Comp3301.Pth

open Comp3301.Lib

variable {Tid : Type} [DecidableEq Tid]

/-! ## Queues as rings -/

/-- The threads of the queue, from the head on. -/
structure Queue (h : Heap Tid) (q : Pqueue Tid) (l : List Tid) : Prop where
  head : q.qHead = l.head?
  ring : IsRing (fun c => (h c).qNext) (fun c => (h c).qPrev) l

section queue

variable {h h' : Heap Tid} {q q' : Pqueue Tid} {l : List Tid} {rounds : ℕ}

/-- Only the links matter. -/
lemma Queue.congr (hq : Queue h q l) (hhead : q'.qHead = q.qHead)
    (hnext : ∀ c, (h' c).qNext = (h c).qNext) (hprev : ∀ c, (h' c).qPrev = (h c).qPrev) :
    Queue h' q' l where
  head := hhead.trans hq.head
  ring := by
    rw [show (fun c => (h' c).qNext) = fun c => (h c).qNext from funext hnext,
      show (fun c => (h' c).qPrev) = fun c => (h c).qPrev from funext hprev]
    exact hq.ring

/-- `pth_pqueue_walk` goes through the queue once. -/
lemma Queue.steps (hq : Queue h q l) : Steps (fun c => pqueueWalk h q c .next) l := by
  have hsteps := hq.ring.steps
  rw [← hq.head] at hsteps
  exact hsteps

/-- In a queue of at least two threads the head is not linked to itself. -/
lemma Queue.next_head_ne {a b : Tid} {m : List Tid} (hq : Queue h q (a :: b :: m)) :
    (h a).qNext ≠ some a := by
  intro hself
  have hstep : pqueueWalk h q a .next = some b := hq.steps.1
  have hend : pqueueWalk h q a .next = none := if_pos (hself.trans hq.head.symm)
  rw [hstep] at hend
  cases hend

/-- The same, when the queue has a thread besides `c`. -/
lemma Queue.exists_head {pre post : List Tid} {c : Tid} (hq : Queue h q (pre ++ c :: post))
    (hne : pre ++ post ≠ []) : ∃ a, q.qHead = some a ∧ (h a).qNext ≠ some a := by
  obtain ⟨a, b, m, hl⟩ : ∃ a b m, pre ++ c :: post = a :: b :: m := by
    rcases pre with _ | ⟨a, _ | ⟨b, pre⟩⟩
    · obtain ⟨b, m, hpost⟩ := List.exists_cons_of_ne_nil hne
      exact ⟨c, b, m, congrArg (List.cons c) hpost⟩
    · exact ⟨a, c, post, rfl⟩
    · exact ⟨a, b, pre ++ c :: post, rfl⟩
  rw [hl] at hq
  exact ⟨a, hq.head, hq.next_head_ne⟩

/-- Replacing a control block by one with the same value of a field. -/
lemma field_update {β : Type} (f : Tcb Tid → β) {a : Tid} {b : Tcb Tid} (hb : f b = f (h a))
    (c : Tid) : f (Function.update h a b c) = f (h c) := by
  by_cases hc : c = a
  · subst hc
    rw [Function.update_self, hb]
  · rw [Function.update_of_ne hc]

/-- Replacing the control blocks of a list of distinct threads. -/
lemma foldl_update (f : Tcb Tid → Tcb Tid) (hnodup : l.Nodup) (h : Heap Tid) :
    l.foldl (fun h c => Function.update h c (f (h c))) h =
      fun c => if c ∈ l then f (h c) else h c := by
  induction l generalizing h with
  | nil => simp
  | cons a l ih =>
      obtain ⟨ha, hl⟩ := List.nodup_cons.mp hnodup
      rw [List.foldl_cons, ih hl]
      funext c
      by_cases hca : c = a
      · subst hca
        simp [ha]
      · simp [hca, Function.update_of_ne]

/-- A loop that replaces control blocks and leaves the links alone. -/
lemma forThreads_eq (hq : Queue h q l) (hrounds : l.length ≤ rounds) {f : Tcb Tid → Tcb Tid}
    (hf : ∀ t, (f t).qNext = t.qNext) :
    forThreads rounds h q f = some fun c => if c ∈ l then f (h c) else h c := by
  unfold forThreads
  rw [hq.head, forWalk_eq_foldl ?_ hrounds hq.steps, foldl_update f hq.ring.nodup]
  intro g c
  funext x
  have hnext : (fun y => (Function.update g c (f (g c)) y).qNext) = fun y => (g y).qNext :=
    funext fun y => field_update Tcb.qNext (hf (g c)) y
  simp only [pqueueWalk, hnext]

end queue

/-! ### Assignments -/

section assignments

variable (h : Heap Tid) (t : Tid) (x : Option Tid) (prio : ℤ)

lemma next_setNext : (fun c => (setNext h t x c).qNext) =
    Function.update (fun c => (h c).qNext) t x := Function.comp_update Tcb.qNext h t _

lemma prev_setNext : (fun c => (setNext h t x c).qPrev) = fun c => (h c).qPrev :=
  funext (field_update Tcb.qPrev rfl)

lemma next_setPrev : (fun c => (setPrev h t x c).qNext) = fun c => (h c).qNext :=
  funext (field_update Tcb.qNext rfl)

lemma prev_setPrev : (fun c => (setPrev h t x c).qPrev) =
    Function.update (fun c => (h c).qPrev) t x := Function.comp_update Tcb.qPrev h t _

lemma next_setQPrio : (fun c => (setQPrio h t prio c).qNext) = fun c => (h c).qNext :=
  funext (field_update Tcb.qNext rfl)

lemma prev_setQPrio : (fun c => (setQPrio h t prio c).qPrev) = fun c => (h c).qPrev :=
  funext (field_update Tcb.qPrev rfl)

lemma qPrio_setNext : (fun c => (setNext h t x c).qPrio) = fun c => (h c).qPrio :=
  funext (field_update Tcb.qPrio rfl)

lemma qPrio_setPrev : (fun c => (setPrev h t x c).qPrio) = fun c => (h c).qPrio :=
  funext (field_update Tcb.qPrio rfl)

end assignments

/-! ## Issuing tickets -/

/-- The tickets that a thread deserves, in exact arithmetic. -/
def tickets (t : Tcb Tid) : ℕ :=
  if t.target - t.actual < 0 then 0 else ⌊(t.target - t.actual) * 5⌋₊ * ⌊(t.target - t.actual) * 5⌋₊

section issue

variable {h : Heap Tid} {q : Pqueue Tid} {l : List Tid} {rounds : ℕ}

lemma issueTo_links (o : ℤ) (t : Tcb Tid) :
    (issueTo o t).qNext = t.qNext ∧ (issueTo o t).qPrev = t.qPrev := by
  unfold issueTo
  simp only
  split_ifs <;> exact ⟨rfl, rfl⟩

/-- What a thread is given, as long as the tickets fit. -/
lemma issueTo_spec {t : Tcb Tid} (ht : tickets t < 2 ^ 64) (o : ℤ) :
    (issueTo o t).tkNum = tickets t ∧
      ((issueTo o t).offset = o ∨ (issueTo o t).offset = 0 ∧ (issueTo o t).tkNum = 0) := by
  unfold issueTo
  simp only
  by_cases herr : t.target - t.actual < 0
  · rw [if_pos herr]
    exact ⟨(if_pos herr).symm, Or.inr ⟨rfl, rfl⟩⟩
  · rw [if_neg herr]
    unfold tickets at ht ⊢
    rw [if_neg herr] at ht ⊢
    refine ⟨?_, Or.inl rfl⟩
    rw [← Nat.cast_mul]
    exact unsigned_natCast ht

lemma issueBody_links (s : Issuing Tid) (a c : Tid) :
    ((issueBody s a).heap c).qNext = (s.heap c).qNext ∧
      ((issueBody s a).heap c).qPrev = (s.heap c).qPrev :=
  ⟨field_update Tcb.qNext (issueTo_links s.offset (s.heap a)).1 c,
    field_update Tcb.qPrev (issueTo_links s.offset (s.heap a)).2 c⟩

/-- One round of the loop of `pth_pqueue_issue_tk`, which has issued `o` tickets so far. -/
lemma issueBody_spec {s : Issuing Tid} {o : ℕ} (hoffset : s.offset = o) (htotal : s.totalTk = o)
    {a : Tid} (hbound : o + tickets (s.heap a) < 2 ^ 63) :
    (issueBody s a).offset = ((o + tickets (s.heap a) : ℕ) : ℤ) ∧
      (issueBody s a).totalTk = o + tickets (s.heap a) := by
  obtain ⟨hnum, -⟩ := issueTo_spec (t := s.heap a) (by omega) s.offset
  unfold issueBody
  simp only
  rw [hnum, hoffset, htotal, ← Nat.cast_add]
  exact ⟨signed_natCast hbound, unsigned_natCast (by omega)⟩

/-- The state of the heap after tickets have been issued to the threads of `l`, from `o` on. -/
structure Issued (h h' : Heap Tid) (l : List Tid) (o : ℤ) : Prop where
  tkNum : ∀ c ∈ l, (h' c).tkNum = tickets (h c)
  tiles : Tiles (fun c => (h' c).offset) (fun c => (h' c).tkNum) l o
  next : ∀ c, (h' c).qNext = (h c).qNext
  prev : ∀ c, (h' c).qPrev = (h c).qPrev
  frame : ∀ c, c ∉ l → h' c = h c

/-- One round before the tickets of `l` are issued. -/
lemma Issued.cons {s : Issuing Tid} {h' : Heap Tid} {a : Tid} {o : ℕ} (hoffset : s.offset = o)
    (ha : a ∉ l) (hfits : tickets (s.heap a) < 2 ^ 64)
    (hissued : Issued (issueBody s a).heap h' l ((o + tickets (s.heap a) : ℕ) : ℤ)) :
    Issued s.heap h' (a :: l) o := by
  obtain ⟨hnum, hoff⟩ := issueTo_spec hfits s.offset
  have hheap : ∀ c, c ≠ a → (issueBody s a).heap c = s.heap c :=
    fun c hc => Function.update_of_ne hc _ _
  have hkept : h' a = issueTo s.offset (s.heap a) :=
    (hissued.frame a ha).trans (Function.update_self _ _ _)
  refine ⟨?_, ⟨?_, ?_⟩, ?_, ?_, ?_⟩
  · intro c hc
    rcases List.mem_cons.mp hc with rfl | hc
    · rw [hkept, hnum]
    · rw [hissued.tkNum c hc, hheap c fun hca => ha (hca ▸ hc)]
  · simp only [hkept]
    rw [← hoffset]
    exact hoff
  · have htiles := hissued.tiles
    simp only [hkept, hnum]
    rw [← Nat.cast_add]
    exact htiles
  · intro c
    rw [hissued.next c, (issueBody_links s a c).1]
  · intro c
    rw [hissued.prev c, (issueBody_links s a c).2]
  · intro c hc
    simp only [List.mem_cons, not_or] at hc
    rw [hissued.frame c hc.2, hheap c hc.1]

/-- The loop of `pth_pqueue_issue_tk`, from the ticket `o` on. -/
lemma foldl_issue (hnodup : l.Nodup) {s : Issuing Tid} {o : ℕ} (hoffset : s.offset = o)
    (htotal : s.totalTk = o)
    (hbound : o + (l.map fun c => tickets (s.heap c)).sum < 2 ^ 63) :
    (l.foldl issueBody s).totalTk = o + (l.map fun c => tickets (s.heap c)).sum ∧
      Issued s.heap (l.foldl issueBody s).heap l o := by
  induction l generalizing s o with
  | nil =>
      refine ⟨htotal, ?_, trivial, fun _ => rfl, fun _ => rfl, fun _ _ => rfl⟩
      intro c hc
      cases hc
  | cons a l ih =>
      obtain ⟨ha, hl⟩ := List.nodup_cons.mp hnodup
      rw [List.map_cons, List.sum_cons] at hbound ⊢
      obtain ⟨hoffset', htotal'⟩ := issueBody_spec hoffset htotal (a := a) (by omega)
      -- the tickets of the other threads are the same before and after the round
      have hrest : (l.map fun c => tickets ((issueBody s a).heap c)) =
          l.map fun c => tickets (s.heap c) := by
        apply List.map_congr_left
        intro c hc
        have hca : c ≠ a := fun hca => ha (hca ▸ hc)
        exact congrArg tickets (Function.update_of_ne hca _ _)
      obtain ⟨hsum, hissued⟩ := ih hl hoffset' htotal' (by rw [hrest]; omega)
      rw [List.foldl_cons]
      refine ⟨?_, hissued.cons hoffset ha (by omega)⟩
      rw [hsum, hrest, Nat.add_assoc]

/-- **What `pth_pqueue_issue_tk` does**, as long as the tickets fit a `long`. -/
theorem issued_spec (hq : Queue h q l) (hrounds : l.length ≤ rounds)
    (hbound : (l.map fun c => tickets (h c)).sum < 2 ^ 63) :
    ∃ h', pqueueIssueTk rounds h q =
        some (h', { q with totalTk := (l.map fun c => tickets (h c)).sum }) ∧
      Issued h h' l 0 := by
  have hbody : ∀ (s : Issuing Tid) (c : Tid),
      (fun x => pqueueWalk (issueBody s c).heap q x .next) =
        fun x => pqueueWalk s.heap q x .next := by
    intro s c
    funext x
    have hnext : (fun y => ((issueBody s c).heap y).qNext) = fun y => (s.heap y).qNext :=
      funext fun y => (issueBody_links s c y).1
    simp only [pqueueWalk, hnext]
  have hloop : forWalk (fun s x => pqueueWalk (Issuing.heap s) q x .next) issueBody rounds ⟨h, 0, 0⟩
      l.head? = some (l.foldl issueBody ⟨h, 0, 0⟩) :=
    forWalk_eq_foldl hbody hrounds hq.steps
  obtain ⟨hsum, hissued⟩ := foldl_issue hq.ring.nodup (s := ⟨h, 0, 0⟩) (o := 0) rfl rfl
    (by rw [Nat.zero_add]; exact hbound)
  refine ⟨_, ?_, hissued⟩
  unfold pqueueIssueTk
  rw [hq.head, hloop, Option.bind_eq_bind, Option.bind_some, hsum, Nat.zero_add]

end issue

/-! ## The winner -/

section winner

variable {h h' : Heap Tid} {q : Pqueue Tid} {l : List Tid} {rounds : ℕ} {r : ℤ}

/-- The assignments of `unlinkThread` for a thread between `p` and `n`. -/
lemma unlinkThread_eq {t p n : Tid} (hp : (h t).qPrev = some p) (hn : (h t).qNext = some n)
    (hpt : p ≠ t) :
    unlinkThread h t =
      some (setQPrio (setQPrio (setPrev (setNext h p (some n)) n (some p)) n
        ((setPrev (setNext h p (some n)) n (some p) t).qPrio -
          (setPrev (setNext h p (some n)) n (some p) n).qPrio)) t 0) := by
  unfold unlinkThread
  simp only [hp, hn, Option.bind_eq_bind, Option.bind_some, Function.update_of_ne hpt.symm]
  rfl

/-- Taking a thread out changes the links of its two neighbours. -/
lemma unlinkThread_spec {t p n : Tid} (hp : (h t).qPrev = some p) (hn : (h t).qNext = some n)
    (hpt : p ≠ t) :
    ∃ h', unlinkThread h t = some h' ∧
      (fun c => (h' c).qNext) = Function.update (fun c => (h c).qNext) p (some n) ∧
      (fun c => (h' c).qPrev) = Function.update (fun c => (h c).qPrev) n (some p) ∧
      (h' t).qNext = some n := by
  obtain ⟨h', hrun⟩ : ∃ h', unlinkThread h t = some h' := ⟨_, unlinkThread_eq hp hn hpt⟩
  have heq := Option.some.inj (hrun.symm.trans (unlinkThread_eq hp hn hpt))
  have hnext : (fun c => (h' c).qNext) = Function.update (fun c => (h c).qNext) p (some n) := by
    rw [heq, next_setQPrio, next_setQPrio, next_setPrev, next_setNext]
  refine ⟨h', hrun, hnext, ?_, ?_⟩
  · rw [heq, prev_setQPrio, prev_setQPrio, prev_setPrev, prev_setNext]
  · rw [congrFun hnext t, Function.update_of_ne hpt.symm, hn]

/-- **What `pth_pqueue_deltk` does** when one thread of at least two has the ticket: it is returned,
and the queue goes on without it. -/
theorem deltk_spec {pre post : List Tid} {c : Tid} (hq : Queue h q (pre ++ c :: post))
    (hne : pre ++ post ≠ []) (hrounds : (pre ++ c :: post).length ≤ rounds)
    (hwin : hasTicket (h c) (signed 32 r)) (honly : ∀ d ∈ pre, ¬ hasTicket (h d) (signed 32 r)) :
    ∃ h' q', pqueueDeltk rounds h q r = some (h', q', some c) ∧ Queue h' q' (pre ++ post) := by
  obtain ⟨p, n, hp, hn, hpc, hnc, hfirst, hring⟩ := hq.ring.unlink hne
  obtain ⟨h', hunlink, hnext, hprev, hct⟩ := unlinkThread_spec hp hn hpc
  have hfind : findWalk (fun c => pqueueWalk h q c .next)
      (fun c => hasTicket (h c) (signed 32 r)) rounds q.qHead = some (some c) := by
    rw [hq.head, findWalk_eq_find hrounds hq.steps, List.find?_append,
      List.find?_eq_none.mpr (by simpa using honly), Option.none_or,
      List.find?_cons_of_pos (by simpa using hwin)]
  obtain ⟨a, hhead, hmany⟩ := hq.exists_head hne
  let q' : Pqueue Tid :=
    { q with
      qHead := if q.qHead = some c then (h' c).qNext else q.qHead
      qNum := q.qNum - 1
      totalPrio := unsigned 64 (q.totalPrio - ((h' c).prio + 1)) }
  have hrun : pqueueDeltk rounds h q r = some (h', q', some c) := by
    unfold pqueueDeltk
    rw [hhead] at hfind ⊢
    simp only
    rw [if_neg hmany, hfind, Option.bind_eq_bind, Option.bind_some, Option.bind_eq_bind,
      Option.bind_some, hunlink, Option.bind_eq_bind, Option.bind_some]
    simp only [q', hhead]
  refine ⟨h', q', hrun, ?_, by rw [hnext, hprev]; exact hring⟩
  -- the head moves on if it is the thread taken out
  rcases pre with _ | ⟨b, pre⟩
  · have hac : q.qHead = some c := hq.head
    simp only [q', hac, if_true, List.nil_append]
    rw [hct, hfirst rfl]
  · have hbc : b ≠ c := by
      rintro rfl
      have hnodup := hq.ring.nodup
      simp at hnodup
    have hab : q.qHead = some b := hq.head
    simp only [q', hab, Option.some.injEq, hbc, if_false]
    rfl

/-- The test of `pth_pqueue_deltk` in exact arithmetic, for threads whose tickets were issued. -/
lemma hasTicket_iff (hissued : Issued h h' l 0) {total : ℕ}
    (htotal : (l.map fun c => (h' c).tkNum).sum = total) (hbound : total < 2 ^ 63) (hr : 0 ≤ r)
    (hr' : r < total) {c : Tid} (hc : c ∈ l) :
    hasTicket (h' c) r ↔ Covers (fun c => (h' c).offset) (fun c => (h' c).tkNum) c r := by
  obtain ⟨hlow, hhigh⟩ := hissued.tiles.bounds le_rfl hc
  rw [htotal] at hhigh
  have hlow : 0 ≤ (h' c).offset := hlow
  have hhigh : (h' c).offset + (h' c).tkNum ≤ 0 + (total : ℤ) := hhigh
  show _ ↔ (h' c).offset ≤ r ∧ r < (h' c).offset + (h' c).tkNum
  unfold hasTicket unsigned
  omega

/-- The tickets are laid out over the numbers below the total. -/
lemma Issued.existsUnique_winner (hissued : Issued h h' l 0) (hnodup : l.Nodup) {total : ℕ}
    (htotal : (l.map fun c => (h' c).tkNum).sum = total) (hr : 0 ≤ r) (hr' : r < total) :
    ∃! c, c ∈ l ∧ Covers (fun c => (h' c).offset) (fun c => (h' c).tkNum) c r :=
  hissued.tiles.existsUnique hnodup hr (by rw [htotal, zero_add]; exact hr')

lemma Issued.sum_tkNum (hissued : Issued h h' l 0) :
    (l.map fun c => (h' c).tkNum).sum = (l.map fun c => tickets (h c)).sum :=
  congrArg List.sum (List.map_congr_left hissued.tkNum)

/-- `pth_pqueue_deltk` removes and returns the thread that has the ticket, if the number is an
`int`. -/
lemma Issued.deltk (hissued : Issued h h' l 0) (hq : Queue h' q l) (hlen : 2 ≤ l.length)
    (hrounds : l.length ≤ rounds) {total : ℕ} (htotal : (l.map fun c => (h' c).tkNum).sum = total)
    (hbound : total < 2 ^ 63) (hr : 0 ≤ r) (hr' : r < total) (hint : r < 2 ^ 31) {c : Tid}
    (hc : c ∈ l) (hcov : Covers (fun c => (h' c).offset) (fun c => (h' c).tkNum) c r) :
    ∃ h'' q'', pqueueDeltk rounds h' q r = some (h'', q'', some c) ∧ Queue h'' q'' (l.erase c) := by
  have huniq := hissued.existsUnique_winner hq.ring.nodup htotal hr hr'
  have hsigned : signed 32 r = r := by
    obtain ⟨n, rfl⟩ := Int.eq_ofNat_of_zero_le hr
    exact signed_natCast (by exact_mod_cast hint)
  obtain ⟨pre, post, rfl⟩ := List.append_of_mem hc
  have hcpre : c ∉ pre := by
    intro hmem
    have hnodup := hq.ring.nodup
    rw [List.nodup_append] at hnodup
    exact hnodup.2.2 c hmem c List.mem_cons_self rfl
  rw [List.erase_append_right _ hcpre, List.erase_cons_head]
  refine deltk_spec hq ?_ hrounds ?_ ?_
  · intro hnil
    have := congrArg List.length hnil
    simp only [List.length_append, List.length_cons, List.length_nil] at this hlen
    omega
  · rw [hsigned]
    exact (hasTicket_iff hissued htotal hbound hr hr' hc).mpr hcov
  · intro d hd hwin
    rw [hsigned] at hwin
    have hdl : d ∈ pre ++ c :: post := List.mem_append_left _ hd
    have hdc : d = c := huniq.unique
      ⟨hdl, (hasTicket_iff hissued htotal hbound hr hr' hdl).mp hwin⟩ ⟨hc, hcov⟩
    exact hcpre (hdc ▸ hd)

/-- Among the numbers that are an `int`, a thread wins those that are its tickets. -/
lemma Issued.wins_iff (hissued : Issued h h' l 0) (hq : Queue h' q l) (hlen : 2 ≤ l.length)
    (hrounds : l.length ≤ rounds) {total : ℕ} (htotal : (l.map fun c => (h' c).tkNum).sum = total)
    (hbound : total < 2 ^ 63) (hr : 0 ≤ r) (hr' : r < total) (hint : r < 2 ^ 31) {c : Tid}
    (hc : c ∈ l) :
    Wins rounds h' q r c ↔ Covers (fun c => (h' c).offset) (fun c => (h' c).tkNum) c r := by
  obtain ⟨d, ⟨hd, hdcov⟩, huniq⟩ := hissued.existsUnique_winner hq.ring.nodup htotal hr hr'
  obtain ⟨h'', q'', hdeltk, -⟩ :=
    hissued.deltk hq hlen hrounds htotal hbound hr hr' hint hd hdcov
  unfold Wins
  rw [hdeltk, Option.map_some, Option.some.injEq, Option.some.injEq]
  constructor
  · rintro rfl
    exact hdcov
  · intro hcov
    exact (huniq c ⟨hc, hcov⟩).symm

/-- **Lottery exactness.** For every ring of at least two threads with any usages whose tickets fit
a `long`, after `pth_pqueue_issue_tk`: `total_tk` is the sum of the threads' tickets; every number
below it is the ticket of exactly one thread, which `pth_pqueue_deltk` takes out of the ring and
returns if the number is an `int`; every thread wins as many of the possible draws as it has
tickets, if they all are `int`s; and a thread that is over its target wins none. -/
theorem lottery_exact (hq : Queue h q l) (hlen : 2 ≤ l.length) (hrounds : l.length ≤ rounds)
    (hbound : (l.map fun c => tickets (h c)).sum < 2 ^ 63) :
    ∃ h' q', pqueueIssueTk rounds h q = some (h', q') ∧
      q'.totalTk = (l.map fun c => (h' c).tkNum).sum ∧
      (∀ r : ℤ, 0 ≤ r → r < q'.totalTk →
        ∃ c ∈ l, Covers (fun c => (h' c).offset) (fun c => (h' c).tkNum) c r ∧
          (∀ d ∈ l, Covers (fun c => (h' c).offset) (fun c => (h' c).tkNum) d r → d = c) ∧
          (r < 2 ^ 31 → ∃ h'' q'', pqueueDeltk rounds h' q' r = some (h'', q'', some c) ∧
            Queue h'' q'' (l.erase c))) ∧
      (q'.totalTk ≤ 2 ^ 31 → ∀ c ∈ l,
        ((Finset.range q'.totalTk).filter fun r : ℕ => Wins rounds h' q' r c).card =
          (h' c).tkNum) ∧
      ∀ c ∈ l, (h c).target < (h c).actual → (h' c).tkNum = 0 ∧
        ∀ r : ℤ, 0 ≤ r → r < q'.totalTk → r < 2 ^ 31 → ¬ Wins rounds h' q' r c := by
  obtain ⟨h', hissue, hissued⟩ := issued_spec hq hrounds hbound
  let q' : Pqueue Tid := { q with totalTk := (l.map fun c => tickets (h c)).sum }
  have htotal : (l.map fun c => (h' c).tkNum).sum = q'.totalTk := hissued.sum_tkNum
  have hq' : Queue h' q' l := hq.congr rfl hissued.next hissued.prev
  refine ⟨h', q', hissue, htotal.symm, ?_, ?_, ?_⟩
  · intro r hr hr'
    obtain ⟨c, ⟨hc, hcov⟩, huniq⟩ := hissued.existsUnique_winner hq.ring.nodup htotal hr hr'
    exact ⟨c, hc, hcov, fun d hd hdcov => huniq d ⟨hd, hdcov⟩,
      fun hint => hissued.deltk hq' hlen hrounds htotal hbound hr hr' hint hc hcov⟩
  · intro hall c hc
    rw [← hissued.tiles.card_covered hc, htotal]
    congr 1
    apply Finset.filter_congr
    intro r hr
    have hr' := Finset.mem_range.mp hr
    exact hissued.wins_iff hq' hlen hrounds htotal hbound (Nat.cast_nonneg r)
      (Nat.cast_lt.mpr hr') (by exact_mod_cast hr'.trans_le hall) hc
  · intro c hc hover
    have hnone : (h' c).tkNum = 0 := by
      rw [hissued.tkNum c hc]
      exact if_pos (by linarith)
    refine ⟨hnone, ?_⟩
    intro r hr hr' hint hwin
    obtain ⟨hlow, hhigh⟩ :=
      (hissued.wins_iff hq' hlen hrounds htotal hbound hr hr' hint hc).mp hwin
    simp only [hnone, Nat.cast_zero, add_zero] at hhigh
    exact absurd hlow (not_le.mpr hhigh)

end winner

/-! ### Two threads -/

/-- A control block linked to one other thread, with base priority 0. -/
def linkedTo (other : Bool) (target actual : ℚ) : Tcb Bool :=
  ⟨-1, 0, target, actual, some other, some other, 0, 0, 0, 0⟩

/-- Two threads with equal targets, of which the second has had more than its share. -/
def twoThreads : Heap Bool := fun c => linkedTo (!c) 50 (if c then 60 else 40)

lemma queue_twoThreads : Queue twoThreads ⟨some false, 2, 2, 0⟩ [false, true] where
  head := rfl
  ring := by
    refine ⟨by decide, ?_⟩
    rw [Cycle.chain_coe_cons]
    simp [Linked, twoThreads, linkedTo]

lemma tickets_twoThreads : tickets (twoThreads false) = 2500 ∧ tickets (twoThreads true) = 0 := by
  constructor
  · have hfloor : ⌊((50 : ℚ) - 40) * 5⌋₊ = 50 := by norm_num
    simp only [tickets, twoThreads, linkedTo, Bool.false_eq_true, if_false]
    rw [if_neg (by norm_num), hfloor]
  · simp only [tickets, twoThreads, linkedTo, if_true]
    exact if_pos (by norm_num)

/-- The first thread wins every draw. -/
theorem lottery_exact_twoThreads :
    ∃ h' q', pqueueIssueTk 2 twoThreads ⟨some false, 2, 2, 0⟩ = some (h', q') ∧
      q'.totalTk = (h' false).tkNum + (h' true).tkNum ∧ (h' true).tkNum = 0 := by
  obtain ⟨h', q', hissue, htotal, -, -, hover⟩ :=
    lottery_exact queue_twoThreads le_rfl (show [false, true].length ≤ 2 from le_rfl)
      (by simp [tickets_twoThreads])
  have hmore : (twoThreads true).target < (twoThreads true).actual := by
    simp only [twoThreads, linkedTo, if_true]
    norm_num
  exact ⟨h', q', hissue, by simpa using htotal, (hover true (by simp) hmore).1⟩

/-! ### Numbers that are not an `int` -/

/-- The threads `0, …, n` in a ring, none of which has run although its target is 100 percent. -/
def crowd (n : ℕ) : Heap ℕ := fun i =>
  ⟨-1, 0, 100, 0, some (if i = n then 0 else i + 1), some (if i = 0 then n else i - 1), 0, 0, 0, 0⟩

/-- Their queue. -/
def crowdQueue (n : ℕ) : Pqueue ℕ := ⟨some 0, n + 1, n + 1, 0⟩

lemma queue_crowd (n : ℕ) : Queue (crowd n) (crowdQueue n) (List.range (n + 1)) where
  head := by simp [crowdQueue, List.head?_range]
  ring := by
    refine ⟨List.nodup_range, (Cycle.chain_range_succ _ n).mpr ⟨?_, ?_⟩⟩
    · simp [Linked, crowd]
    · intro m hm
      simp [Linked, crowd, hm.ne]

lemma tickets_crowd (n i : ℕ) : tickets (crowd n i) = 250000 := by
  have hfloor : ⌊((100 : ℚ) - 0) * 5⌋₊ = 500 := by norm_num
  have herr : ¬ ((100 : ℚ) - 0 < 0) := by norm_num
  show (if (100 : ℚ) - 0 < 0 then 0 else ⌊((100 : ℚ) - 0) * 5⌋₊ * ⌊((100 : ℚ) - 0) * 5⌋₊) = 250000
  rw [if_neg herr, hfloor]

/-- Every number that is passed as `0` draws the first thread. -/
lemma crowd_spec {n : ℕ} (hn : 0 < n) (hbound : (n + 1) * 250000 < 2 ^ 63) :
    ∃ h' q', pqueueIssueTk (n + 1) (crowd n) (crowdQueue n) = some (h', q') ∧
      q'.totalTk = (n + 1) * 250000 ∧ (h' 0).offset = 0 ∧ (h' 0).tkNum = 250000 ∧
      ∀ r : ℤ, signed 32 r = 0 → Wins (n + 1) h' q' r 0 := by
  have hsum : ((List.range (n + 1)).map fun i => tickets (crowd n i)).sum = (n + 1) * 250000 := by
    simp [tickets_crowd]
  have hrounds : (List.range (n + 1)).length ≤ n + 1 := by rw [List.length_range]
  obtain ⟨h', hissue, hissued⟩ := issued_spec (queue_crowd n) hrounds (by rw [hsum]; exact hbound)
  have hrange : List.range (n + 1) = [] ++ 0 :: (List.range n).map Nat.succ :=
    List.range_succ_eq_map
  have hnum : (h' 0).tkNum = 250000 := by
    rw [hissued.tkNum 0 (by simp), tickets_crowd]
  have hoffset : (h' 0).offset = 0 := by
    have htiles := hissued.tiles
    rw [hrange] at htiles
    rcases htiles.1 with hoff | ⟨hoff, -⟩
    · exact hoff
    · exact hoff
  let q' : Pqueue ℕ := { crowdQueue n with
    totalTk := ((List.range (n + 1)).map fun i => tickets (crowd n i)).sum }
  have hq' : Queue h' q' (List.range (n + 1)) :=
    (queue_crowd n).congr rfl hissued.next hissued.prev
  refine ⟨h', q', hissue, hsum, hoffset, hnum, ?_⟩
  intro r hr
  rw [hrange] at hq' hrounds
  have hwin : hasTicket (h' 0) (signed 32 r) := by
    rw [hr, hasTicket, hoffset, hnum]
    decide
  obtain ⟨h'', q'', hdeltk, -⟩ := deltk_spec hq' (by simpa using hn.ne') hrounds hwin (by simp)
  unfold Wins
  rw [hdeltk, Option.map_some]

/-- With 20000 such threads the number `2 ^ 32` is passed as `0`, and the first thread is drawn,
whose ticket it is not. -/
theorem crowd_wins_truncated :
    Queue (crowd 19999) (crowdQueue 19999) (List.range 20000) ∧
    ∃ h' q', pqueueIssueTk 20000 (crowd 19999) (crowdQueue 19999) = some (h', q') ∧
      q'.totalTk = 5000000000 ∧ Wins 20000 h' q' (2 ^ 32) 0 ∧
      ¬ Covers (fun c => (h' c).offset) (fun c => (h' c).tkNum) 0 (2 ^ 32) := by
  obtain ⟨h', q', hissue, htotal, hoffset, hnum, hwins⟩ :=
    crowd_spec (n := 19999) (by norm_num) (by norm_num)
  refine ⟨queue_crowd 19999, h', q', hissue, htotal, hwins _ (by norm_num [signed]), ?_⟩
  rintro ⟨-, hhigh⟩
  simp only [hoffset, hnum] at hhigh
  norm_num at hhigh

/-! ## The draw of the scheduler -/

/-- A usage that `pth_pqueue_update_a_rt` can compute. -/
def Usage (actual : ℚ) : Prop :=
  ∃ running lifetime : ℚ, 0 ≤ running ∧ running ≤ lifetime ∧ 0 < lifetime ∧
    actual = running / lifetime * 100

lemma Usage.nonneg {actual : ℚ} (h : Usage actual) : 0 ≤ actual := by
  obtain ⟨running, lifetime, hrun, -, hlife, rfl⟩ := h
  positivity

lemma tickets_pos_iff {t : Tcb Tid} : 0 < tickets t ↔ 1 / 5 ≤ t.target - t.actual := by
  unfold tickets
  by_cases herr : t.target - t.actual < 0
  · rw [if_pos herr]
    exact iff_of_false (lt_irrefl 0) (by linarith)
  · rw [if_neg herr]
    constructor
    · intro hpos
      have hfloor : 0 < ⌊(t.target - t.actual) * 5⌋₊ := Nat.pos_of_mul_pos_left hpos
      linarith [Nat.floor_pos.mp hfloor]
    · intro hfifth
      have hfloor : 0 < ⌊(t.target - t.actual) * 5⌋₊ := Nat.floor_pos.mpr (by linarith)
      exact Nat.mul_pos hfloor hfloor

/-- A thread with the share `w` of the CPU has at most `250000 * w` tickets. -/
lemma tickets_le {t : Tcb Tid} {w : ℚ} (hw : 0 ≤ w) (hw' : w ≤ 1) (htarget : t.target = 100 * w)
    (hactual : 0 ≤ t.actual) : (tickets t : ℚ) ≤ 250000 * w := by
  unfold tickets
  by_cases herr : t.target - t.actual < 0
  · rw [if_pos herr, Nat.cast_zero]
    positivity
  · rw [if_neg herr, Nat.cast_mul]
    have hfloor : (⌊(t.target - t.actual) * 5⌋₊ : ℚ) ≤ 500 * w := by
      calc (⌊(t.target - t.actual) * 5⌋₊ : ℚ)
          ≤ (t.target - t.actual) * 5 := Nat.floor_le (by linarith)
        _ ≤ 500 * w := by linarith
    calc (⌊(t.target - t.actual) * 5⌋₊ : ℚ) * ⌊(t.target - t.actual) * 5⌋₊
        ≤ (500 * w) * (500 * w) := mul_le_mul hfloor hfloor (Nat.cast_nonneg _) (by positivity)
      _ = 250000 * w * w := by ring
      _ ≤ 250000 * w := mul_le_of_le_one_right (by positivity) hw'

section draw

variable {h : Heap Tid} {q : Pqueue Tid} {l : List Tid} {rounds : ℕ}

/-- After `pth_pqueue_update_a_rt` the usages of threads that have lived for some time are such. -/
theorem updateART_usage {now : ℚ} (hq : Queue h q l) (hrounds : l.length ≤ rounds)
    (hrun : ∀ c ∈ l, 0 ≤ (h c).running ∧ (h c).running ≤ now - (h c).spawned)
    (hlife : ∀ c ∈ l, 0 < now - (h c).spawned) :
    ∃ h', pqueueUpdateART rounds now h q = some h' ∧ ∀ c ∈ l, Usage (h' c).actual := by
  refine ⟨_, forThreads_eq hq hrounds ?_, ?_⟩
  · intro t
    unfold updateActual
    simp only
    split_ifs <;> rfl
  · intro c hc
    rw [if_pos hc]
    unfold updateActual
    simp only
    rw [if_pos (hlife c hc).ne']
    exact ⟨_, _, (hrun c hc).1, (hrun c hc).2, hlife c hc, rfl⟩

/-- With targets that add up to 100 percent there are at most 250000 tickets. -/
lemma sum_tickets_le {g : Heap Tid} {w : Tid → ℚ}
    (hw : ∀ c ∈ l, (tickets (g c) : ℚ) ≤ 250000 * w c) :
    ((l.map fun c => tickets (g c)).sum : ℚ) ≤ 250000 * (l.map w).sum := by
  induction l with
  | nil => simp
  | cons a l ih =>
      have ha := hw a List.mem_cons_self
      have hl := ih fun c hc => hw c (List.mem_cons_of_mem a hc)
      rw [List.map_cons, List.sum_cons, List.map_cons, List.sum_cons, Nat.cast_add]
      linarith

/-- The share of a thread. -/
def share (totalPrio : ℕ) (prio : ℤ) : ℚ := (prio + 1) / totalPrio

lemma targetOf_eq (totalPrio : ℕ) (prio : ℤ) :
    targetOf totalPrio prio = 100 * share totalPrio prio := by
  unfold targetOf share
  ring

/-- The total priority is what `pth_pqueue_insert` and the deletions keep. -/
structure PrioOk (h : Heap Tid) (q : Pqueue Tid) (l : List Tid) : Prop where
  nonneg : ∀ c ∈ l, 0 ≤ (h c).prio
  total : (q.totalPrio : ℤ) = (l.map fun c => (h c).prio + 1).sum

/-- What the shares add up to. -/
lemma sum_share_eq (totalPrio : ℕ) (h : Heap Tid) (l : List Tid) :
    (l.map fun c => share totalPrio (h c).prio).sum =
      ((l.map fun c => (h c).prio + 1).sum : ℤ) / (totalPrio : ℚ) := by
  induction l with
  | nil => simp
  | cons a l ih =>
      rw [List.map_cons, List.sum_cons, ih, List.map_cons, List.sum_cons, share]
      push_cast
      ring

/-- The shares add up to one. -/
lemma PrioOk.sum_share (hp : PrioOk h q l) (hne : l ≠ []) :
    (l.map fun c => share q.totalPrio (h c).prio).sum = 1 := by
  have hpos : (0 : ℤ) < q.totalPrio := by
    rw [hp.total]
    refine List.sum_pos _ ?_ (by simpa using hne)
    intro x hx
    obtain ⟨c, hc, rfl⟩ := List.mem_map.mp hx
    have := hp.nonneg c hc
    omega
  rw [sum_share_eq, ← hp.total, Int.cast_natCast]
  exact div_self (by exact_mod_cast hpos.ne')

/-- A share lies between zero and one. -/
lemma PrioOk.share_bounds (hp : PrioOk h q l) {c : Tid} (hc : c ∈ l) :
    0 ≤ share q.totalPrio (h c).prio ∧ share q.totalPrio (h c).prio ≤ 1 := by
  have hnonneg : ∀ d ∈ l, 0 ≤ share q.totalPrio (h d).prio := by
    intro d hd
    have : (0 : ℚ) ≤ (h d).prio := by exact_mod_cast hp.nonneg d hd
    unfold share
    positivity
  refine ⟨hnonneg c hc, ?_⟩
  rw [← hp.sum_share (List.ne_nil_of_mem hc)]
  refine List.single_le_sum ?_ _ (List.mem_map.mpr ⟨c, hc, rfl⟩)
  intro x hx
  obtain ⟨d, hd, rfl⟩ := List.mem_map.mp hx
  exact hnonneg d hd

/-- The only thread of a queue is drawn whatever the number is. -/
lemma deltk_singleton {a : Tid} (hq : Queue h q [a]) (rounds : ℕ) (r : ℤ) :
    ∃ h' q', pqueueDeltk rounds h q r = some (h', q', some a) := by
  have hhead : q.qHead = some a := hq.head
  have hself : (h a).qNext = some a := ((Cycle.chain_singleton _ a).mp hq.ring.chain).1
  unfold pqueueDeltk
  rw [hhead]
  simp only
  rw [if_pos hself]
  exact ⟨_, _, rfl⟩

/-- The draw of the scheduler is defined: after `pth_pqueue_calc_target` and `pth_pqueue_issue_tk`
there are tickets, and for every value of `rand ()` a thread of the queue is drawn. -/
def DrawDefined (rounds : ℕ) (h : Heap Tid) (q : Pqueue Tid) (l : List Tid) : Prop :=
  ∃ h₁ h₂ q₂, pqueueCalcTarget rounds h q = some h₁ ∧ pqueueIssueTk rounds h₁ q = some (h₂, q₂) ∧
    0 < q₂.totalTk ∧ ∀ rand ≤ randMax, ∃ h₃ q₃, ∃ t ∈ l,
      drawThread rounds h₂ q₂ rand = some (h₃, q₃, some t)

/-- A draw with tickets issued. -/
lemma drawThread_spec {h' : Heap Tid} (hissued : Issued h h' l 0) (hq : Queue h' q l)
    (hrounds : l.length ≤ rounds) (htotal : (l.map fun c => (h' c).tkNum).sum = q.totalTk)
    (hbound : q.totalTk < 2 ^ 63) (hpos : 0 < q.totalTk) {rand : ℕ} (hrand : rand ≤ randMax) :
    ∃ h₃ q₃, ∃ t ∈ l, drawThread rounds h' q rand = some (h₃, q₃, some t) := by
  have hmod : rand % q.totalTk < q.totalTk := Nat.mod_lt _ hpos
  have hint : rand % q.totalTk < 2 ^ 31 := by
    have hle : rand % q.totalTk ≤ rand := Nat.mod_le _ _
    unfold randMax at hrand
    omega
  have hltr : signed 32 ((rand % q.totalTk : ℕ) : ℤ) = (rand % q.totalTk : ℕ) :=
    signed_natCast hint
  unfold drawThread
  simp only
  rw [if_neg hpos.ne', hltr]
  obtain ⟨c, ⟨hc, hcov⟩, -⟩ := hissued.existsUnique_winner hq.ring.nodup htotal
    (Nat.cast_nonneg (rand % q.totalTk)) (Nat.cast_lt.mpr hmod)
  rcases Nat.lt_or_ge l.length 2 with hone | hmany
  · obtain ⟨a, rfl⟩ : ∃ a, l = [a] := by
      apply List.length_eq_one_iff.mp
      have := List.length_pos_of_mem hc
      omega
    obtain ⟨h₃, q₃, hdel⟩ := deltk_singleton hq rounds ((rand % q.totalTk : ℕ) : ℤ)
    exact ⟨h₃, q₃, a, List.mem_singleton_self a, hdel⟩
  · obtain ⟨h₃, q₃, hdel, -⟩ := hissued.deltk hq hmany hrounds htotal hbound (Nat.cast_nonneg _)
      (Nat.cast_lt.mpr hmod) (by exact_mod_cast hint) hc hcov
    exact ⟨h₃, q₃, c, hc, hdel⟩

/-- The heap after `pth_pqueue_calc_target`. -/
def withTargets (h : Heap Tid) (q : Pqueue Tid) (l : List Tid) : Heap Tid := fun c =>
  if c ∈ l then { h c with target := targetOf q.totalPrio (h c).prio } else h c

/-- `pth_pqueue_calc_target` leaves the links alone. -/
lemma Queue.withTargets (hq : Queue h q l) : Queue (withTargets h q l) q l := by
  apply hq.congr rfl
  · intro c
    unfold Pth.withTargets
    split_ifs <;> rfl
  · intro c
    unfold Pth.withTargets
    split_ifs <;> rfl

/-- With such targets there are at most 250000 tickets. -/
lemma PrioOk.sum_tickets_lt (hp : PrioOk h q l) (hne : l ≠ [])
    (husage : ∀ c ∈ l, Usage (h c).actual) :
    (l.map fun c => tickets (withTargets h q l c)).sum < 2 ^ 63 := by
  have hle : ((l.map fun c => tickets (withTargets h q l c)).sum : ℚ) ≤ 250000 := by
    rw [← mul_one (250000 : ℚ), ← hp.sum_share hne]
    apply sum_tickets_le
    intro c hc
    obtain ⟨hlow, hhigh⟩ := hp.share_bounds hc
    apply tickets_le hlow hhigh
    · unfold withTargets
      rw [if_pos hc]
      exact targetOf_eq q.totalPrio (h c).prio
    · unfold withTargets
      rw [if_pos hc]
      exact (husage c hc).nonneg
  have hnat : (l.map fun c => tickets (withTargets h q l c)).sum ≤ 250000 := by exact_mod_cast hle
  omega

/-- There are tickets exactly if some thread is far enough below its target. -/
lemma sum_tickets_pos_iff :
    0 < (l.map fun c => tickets (withTargets h q l c)).sum ↔
      ∃ c ∈ l, 1 / 5 ≤ 100 * (((h c).prio : ℚ) + 1) / q.totalPrio - (h c).actual := by
  have hthread : ∀ c ∈ l, (0 < tickets (withTargets h q l c) ↔
      1 / 5 ≤ 100 * (((h c).prio : ℚ) + 1) / q.totalPrio - (h c).actual) := by
    intro c hc
    rw [tickets_pos_iff]
    unfold withTargets
    rw [if_pos hc]
    simp only [targetOf]
    rw [div_mul_eq_mul_div]
  constructor
  · intro hpos
    by_contra hnone
    refine hpos.ne' (List.sum_eq_zero ?_)
    intro n hn
    obtain ⟨c, hc, rfl⟩ := List.mem_map.mp hn
    apply Nat.eq_zero_of_not_pos
    intro htk
    exact hnone ⟨c, hc, (hthread c hc).mp htk⟩
  · rintro ⟨c, hc, hfifth⟩
    refine ((hthread c hc).mpr hfifth).trans_le ?_
    exact List.single_le_sum (fun _ _ => Nat.zero_le _) _ (List.mem_map.mpr ⟨c, hc, rfl⟩)

/-- What the scheduler does before the draw. -/
lemma targets_and_tickets (hq : Queue h q l) (hne : l ≠ []) (hp : PrioOk h q l)
    (husage : ∀ c ∈ l, Usage (h c).actual) (hrounds : l.length ≤ rounds) :
    ∃ h₂, pqueueCalcTarget rounds h q = some (withTargets h q l) ∧
      pqueueIssueTk rounds (withTargets h q l) q =
        some (h₂, { q with totalTk := (l.map fun c => tickets (withTargets h q l c)).sum }) ∧
      Issued (withTargets h q l) h₂ l 0 := by
  obtain ⟨h₂, hissue, hissued⟩ :=
    issued_spec hq.withTargets hrounds (hp.sum_tickets_lt hne husage)
  exact ⟨h₂, forThreads_eq hq hrounds fun _ => rfl, hissue, hissued⟩

/-- **When the draw is defined.** For every non-empty ready queue whose total priority is the sum of
the threads' `prio + 1`, with usages that `pth_pqueue_update_a_rt` computes: the draw is defined
exactly if some thread is at least a fifth of a percent below its target. -/
theorem draw_defined_iff (hq : Queue h q l) (hne : l ≠ []) (hp : PrioOk h q l)
    (husage : ∀ c ∈ l, Usage (h c).actual) (hrounds : l.length ≤ rounds) :
    DrawDefined rounds h q l ↔
      ∃ c ∈ l, 1 / 5 ≤ 100 * (((h c).prio : ℚ) + 1) / q.totalPrio - (h c).actual := by
  obtain ⟨h₂, hcalc, hissue, hissued⟩ := targets_and_tickets hq hne hp husage hrounds
  rw [← sum_tickets_pos_iff]
  constructor
  · rintro ⟨h₁', h₂', q₂', hcalc', hissue', htk, -⟩
    rw [hcalc] at hcalc'
    cases hcalc'
    rw [hissue] at hissue'
    cases hissue'
    exact htk
  · intro htk
    let q₂ : Pqueue Tid :=
      { q with totalTk := (l.map fun c => tickets (withTargets h q l c)).sum }
    have hq₂ : Queue h₂ q₂ l := hq.withTargets.congr rfl hissued.next hissued.prev
    refine ⟨_, h₂, q₂, hcalc, hissue, htk, ?_⟩
    intro rand hrand
    exact drawThread_spec hissued hq₂ hrounds hissued.sum_tkNum (hp.sum_tickets_lt hne husage) htk
      hrand

end draw

/-! ### One thread -/

/-- A thread of base priority 0 that has run for so many of the 1000 seconds of its life. -/
def lone (running : ℚ) : Heap Unit := fun _ =>
  ⟨-1, 0, 0, running / 1000 * 100, some (), some (), 0, 0, 0, running⟩

/-- Its queue. -/
def loneQueue : Pqueue Unit := ⟨some (), 1, 1, 0⟩

lemma queue_lone (running : ℚ) : Queue (lone running) loneQueue [()] where
  head := rfl
  ring := ⟨List.nodup_singleton (), (Cycle.chain_singleton _ ()).mpr ⟨rfl, rfl⟩⟩

lemma prioOk_lone (running : ℚ) : PrioOk (lone running) loneQueue [()] where
  nonneg := fun _ _ => le_rfl
  total := rfl

lemma usage_lone {running : ℚ} (hrun : 0 ≤ running) (hlife : running ≤ 1000) :
    ∀ c ∈ [()], Usage (lone running c).actual :=
  fun _ _ => ⟨running, 1000, hrun, hlife, by norm_num, rfl⟩

/-- A thread that has run for half of its life is drawn. -/
theorem draw_defined_lone : DrawDefined 1 (lone 500) loneQueue [()] := by
  refine (draw_defined_iff (queue_lone 500) (List.cons_ne_nil _ _) (prioOk_lone 500)
    (usage_lone (by norm_num) (by norm_num)) le_rfl).mpr ⟨(), List.mem_singleton_self _, ?_⟩
  simp only [lone, loneQueue]
  norm_num

/-- With a thread that has run for all but a thousandth of its life, the division is by zero. -/
theorem draw_undefined_lone :
    Queue (lone 999) loneQueue [()] ∧ PrioOk (lone 999) loneQueue [()] ∧
    (∀ c ∈ [()], Usage (lone 999 c).actual) ∧
    ∃ h₁ h₂ q₂, pqueueCalcTarget 1 (lone 999) loneQueue = some h₁ ∧
      pqueueIssueTk 1 h₁ loneQueue = some (h₂, q₂) ∧ q₂.totalTk = 0 ∧
      ∀ rand, drawThread 1 h₂ q₂ rand = none := by
  have husage : ∀ c ∈ [()], Usage (lone 999 c).actual := usage_lone (by norm_num) (by norm_num)
  obtain ⟨h₂, hcalc, hissue, -⟩ := targets_and_tickets (queue_lone 999) (List.cons_ne_nil _ _)
    (prioOk_lone 999) husage (show [()].length ≤ 1 from le_rfl)
  have hnone : ([()].map fun c => tickets (withTargets (lone 999) loneQueue [()] c)).sum = 0 := by
    apply Nat.eq_zero_of_not_pos
    rw [sum_tickets_pos_iff]
    rintro ⟨c, -, hfifth⟩
    simp only [lone, loneQueue] at hfifth
    norm_num at hfifth
  exact ⟨queue_lone 999, prioOk_lone 999, husage, _, h₂, _, hcalc, hissue, hnone,
    fun _ => if_pos hnone⟩

end Comp3301.Pth
