import Comp3301.Pth.Queues

/-!
# Pth: queue priorities under the lottery

The head of a priority queue has its absolute priority in `q_prio`, every other thread the
difference to the thread before it. `decode` are the absolute priorities.

`pth_pqueue_deltk` repairs the field of the thread behind the one it takes out as if that one were
the head. `deltk_keeps_prios_iff` says which threads can be taken out like this: the head; a thread
inside the queue if the next one has the same priority as it; the last one if its difference is
twice the priority of the head, whose field is the one that is overwritten.
-/

set_option linter.unusedSectionVars false

namespace Comp3301.Pth

open Comp3301.Lib

variable {Tid : Type} [DecidableEq Tid]

/-! ## Differences along a list -/

/-- The absolute values behind a value `p`, where `d` are the differences. -/
def decodeFrom (d : Tid → ℤ) : ℤ → List Tid → List ℤ
  | _, [] => []
  | p, c :: l => (p - d c) :: decodeFrom d (p - d c) l

/-- The absolute values, where `d` is the value of the first element and the differences of the
others. -/
def decode (d : Tid → ℤ) : List Tid → List ℤ
  | [] => []
  | a :: l => d a :: decodeFrom d (d a) l

section decode

variable {d d' : Tid → ℤ} {l : List Tid}

@[simp] lemma length_decodeFrom (p : ℤ) (l : List Tid) : (decodeFrom d p l).length = l.length := by
  induction l generalizing p with
  | nil => rfl
  | cons c l ih => rw [decodeFrom, List.length_cons, ih, List.length_cons]

lemma decodeFrom_congr (h : ∀ c ∈ l, d' c = d c) (p : ℤ) :
    decodeFrom d' p l = decodeFrom d p l := by
  induction l generalizing p with
  | nil => rfl
  | cons c l ih =>
      rw [decodeFrom, decodeFrom, h c List.mem_cons_self,
        ih fun x hx => h x (List.mem_cons_of_mem c hx)]

lemma decodeFrom_append (p : ℤ) (l m : List Tid) :
    decodeFrom d p (l ++ m) = decodeFrom d p l ++ decodeFrom d (p - (l.map d).sum) m := by
  induction l generalizing p with
  | nil => rw [List.map_nil, List.sum_nil, sub_zero]; rfl
  | cons c l ih =>
      rw [List.cons_append, decodeFrom, ih, decodeFrom, List.cons_append, List.map_cons,
        List.sum_cons, sub_sub]

/-- Leaving out an element in the middle. -/
lemma eraseIdx_middle {α : Type} (xs ys : List α) (y : α) :
    (xs ++ y :: ys).eraseIdx xs.length = xs ++ ys := by
  rw [List.eraseIdx_append_of_length_le le_rfl, Nat.sub_self, List.eraseIdx_cons_zero]

end decode

/-! ## Taking out one element -/

/-- Overwriting the field behind `c` by the difference of the fields is what the fields of `pre` and
`post` need. -/
def FieldFits (d : Tid → ℤ) (pre : List Tid) (c : Tid) (post : List Tid) : Prop :=
  match pre, post with
  | [], _ => True
  | _ :: _, n :: _ => d n = 0
  | a :: _, [] => d c = 2 * d a

/-- The field of `n`, the element behind `c`, has been overwritten; the other fields are kept. -/
structure Overwritten (d d' : Tid → ℤ) (c n : Tid) : Prop where
  next : d' n = d c - d n
  others : ∀ x, x ≠ c → x ≠ n → d' x = d x

section takeOut

variable {d d' : Tid → ℤ} {a c n : Tid} {pre post : List Tid}

/-- The first element is taken out. -/
lemma Overwritten.decode_head (h : Overwritten d d' c n) (hnodup : (c :: n :: post).Nodup) :
    decode d' (n :: post) = (decode d (c :: n :: post)).eraseIdx 0 := by
  simp only [List.nodup_cons, List.mem_cons, not_or] at hnodup
  obtain ⟨⟨-, hc⟩, hn, -⟩ := hnodup
  have hrest : ∀ x ∈ post, d' x = d x :=
    fun x hx => h.others x (fun hxc => hc (hxc ▸ hx)) fun hxn => hn (hxn ▸ hx)
  rw [decode, decodeFrom_congr hrest, h.next]
  rfl

/-- An element inside the list is taken out. -/
lemma Overwritten.decode_inner_iff (h : Overwritten d d' c n)
    (hnodup : (a :: pre ++ c :: n :: post).Nodup) :
    decode d' (a :: pre ++ n :: post) =
        (decode d (a :: pre ++ c :: n :: post)).eraseIdx (a :: pre).length ↔ d n = 0 := by
  obtain ⟨-, htail, hdisj⟩ := List.nodup_append.mp hnodup
  simp only [List.nodup_cons, List.mem_cons, not_or] at htail
  obtain ⟨⟨-, hc⟩, hn, -⟩ := htail
  have hbefore : ∀ x ∈ a :: pre, d' x = d x :=
    fun x hx => h.others x (hdisj x hx c (by simp)) (hdisj x hx n (by simp))
  have hbehind : ∀ x ∈ post, d' x = d x :=
    fun x hx => h.others x (fun hxc => hc (hxc ▸ hx)) fun hxn => hn (hxn ▸ hx)
  -- the value before the gap, from which the two decodings go on
  let p := d a - (pre.map d).sum
  let front := d a :: decodeFrom d (d a) pre
  have hfront : front.length = (a :: pre).length := by simp [front]
  have hafter : decode d' (a :: pre ++ n :: post) =
      front ++ (p - d' n) :: decodeFrom d (p - d' n) post := by
    rw [List.cons_append, decode, hbefore a List.mem_cons_self, decodeFrom_append,
      decodeFrom_congr fun x hx => hbefore x (List.mem_cons_of_mem a hx),
      List.map_congr_left fun x hx => hbefore x (List.mem_cons_of_mem a hx), decodeFrom,
      decodeFrom_congr hbehind]
    rfl
  have herased : (decode d (a :: pre ++ c :: n :: post)).eraseIdx (a :: pre).length =
      front ++ (p - d c - d n) :: decodeFrom d (p - d c - d n) post := by
    rw [List.cons_append, decode, decodeFrom_append, decodeFrom, decodeFrom, ← hfront]
    exact eraseIdx_middle front _ _
  rw [hafter, herased, List.append_right_inj]
  constructor
  · intro heq
    have hvalue := (List.cons.inj heq).1
    rw [h.next] at hvalue
    omega
  · intro hzero
    rw [h.next, hzero, sub_zero, sub_zero]

/-- The last element is taken out, and the first one is the one behind it. -/
lemma Overwritten.decode_last_iff (h : Overwritten d d' c a) (hnodup : (a :: pre ++ [c]).Nodup) :
    decode d' (a :: pre) = (decode d (a :: pre ++ [c])).eraseIdx (a :: pre).length ↔
      d c = 2 * d a := by
  obtain ⟨hfirst, -, hdisj⟩ := List.nodup_append.mp hnodup
  have ha : a ∉ pre := (List.nodup_cons.mp hfirst).1
  have hinner : ∀ x ∈ pre, d' x = d x := fun x hx =>
    h.others x (hdisj x (List.mem_cons_of_mem a hx) c (by simp)) fun hxa => ha (hxa ▸ hx)
  let front := d a :: decodeFrom d (d a) pre
  have hfront : front.length = (a :: pre).length := by simp [front]
  have herased : (decode d (a :: pre ++ [c])).eraseIdx (a :: pre).length = front := by
    rw [List.cons_append, decode, decodeFrom_append, decodeFrom, ← hfront]
    exact (eraseIdx_middle front _ _).trans (List.append_nil front)
  rw [herased, decode, decodeFrom_congr hinner]
  constructor
  · intro heq
    have hvalue := (List.cons.inj heq).1
    rw [h.next] at hvalue
    omega
  · intro htwice
    rw [h.next, show d c - d a = d a by omega]

/-- The differences that are left are not negative, if the overwritten one is not. -/
lemma Overwritten.nonneg (h : Overwritten d d' c n) (hnodup : (pre ++ c :: post).Nodup)
    (hd : ∀ x ∈ (pre ++ c :: post).tail, 0 ≤ d x)
    (hn : n ∈ (pre ++ post).tail → 0 ≤ d c - d n) : ∀ x ∈ (pre ++ post).tail, 0 ≤ d' x := by
  intro x hx
  have hc : c ∉ pre ++ post :=
    (List.nodup_cons.mp (List.perm_middle.nodup_iff.mp hnodup)).1
  have hxc : x ≠ c := fun hxc => hc (hxc ▸ List.mem_of_mem_tail hx)
  by_cases hxn : x = n
  · subst hxn
    rw [h.next]
    exact hn hx
  · rw [h.others x hxc hxn]
    apply hd
    rcases pre with _ | ⟨a, pre⟩
    · exact List.mem_of_mem_tail hx
    · simp only [List.cons_append, List.tail_cons, List.mem_append] at hx ⊢
      exact hx.imp_right (List.mem_cons_of_mem c)

end takeOut

/-! ## The queue -/

/-- A well-formed priority queue: the threads of `l`, and no thread has a higher priority than the
one before it. -/
structure PrioQueue (h : Heap Tid) (q : Pqueue Tid) (l : List Tid) : Prop extends Holds h q l where
  nonneg : ∀ c ∈ l.tail, 0 ≤ (h c).qPrio

/-- The absolute priorities in the queue. -/
def prios (h : Heap Tid) (l : List Tid) : List ℤ := decode (fun c => (h c).qPrio) l

section deltk

variable {h h' : Heap Tid} {q q' : Pqueue Tid} {pre post : List Tid} {c n : Tid} {rounds : ℕ}
  {r : ℤ}

/-- What `pth_pqueue_deltk` does to `q_prio`. -/
lemma deltk_overwritten (hq : Queue h q (pre ++ c :: post)) (hne : pre ++ post ≠ [])
    (hn : (h c).qNext = some n) (hrun : pqueueDeltk rounds h q r = some (h', q', some c)) :
    Overwritten (fun x => (h x).qPrio) (fun x => (h' x).qPrio) c n := by
  obtain ⟨p, n', hp, hn', hpc, hnc, -⟩ := hq.ring.unlink hne
  obtain rfl : n' = n := Option.some.inj (hn'.symm.trans hn)
  have hunlink := (deltk_run hq hne hrun).1
  rw [unlinkThread_eq hp hn hpc] at hunlink
  have hheap := Option.some.inj hunlink
  have hlinks : ∀ x, (setPrev (setNext h p (some n')) n' (some p) x).qPrio = (h x).qPrio := by
    apply congrFun
    rw [qPrio_setPrev, qPrio_setNext]
  constructor
  · rw [← hheap]
    unfold setQPrio
    simp only
    rw [Function.update_of_ne hnc, Function.update_self]
    simp only
    rw [hlinks, hlinks]
  · intro x hxc hxn
    rw [← hheap]
    unfold setQPrio
    simp only
    rw [Function.update_of_ne hxc, Function.update_of_ne hxn]
    exact hlinks x

/-- **Queue priorities under the lottery.** For every well-formed priority queue of at least two
threads and every number for which `c` is the first thread with the ticket: `pth_pqueue_deltk`
returns `c` and leaves the other threads in order. The queue is well formed again, and the other
threads keep their absolute priorities, exactly if the fields fit. -/
theorem deltk_keeps_prios_iff (hq : PrioQueue h q (pre ++ c :: post)) (hne : pre ++ post ≠ [])
    (hrounds : (pre ++ c :: post).length ≤ rounds) (hwin : hasTicket (h c) (signed 32 r))
    (honly : ∀ d ∈ pre, ¬ hasTicket (h d) (signed 32 r)) :
    ∃ h' q', pqueueDeltk rounds h q r = some (h', q', some c) ∧ Holds h' q' (pre ++ post) ∧
      (PrioQueue h' q' (pre ++ post) ∧
          prios h' (pre ++ post) = (prios h (pre ++ c :: post)).eraseIdx pre.length ↔
        FieldFits (fun x => (h x).qPrio) pre c post) := by
  obtain ⟨h', q', hrun, hqueue⟩ := deltk_spec hq.toQueue hne hrounds hwin honly
  have hholds := deltk_holds hq.toHolds hne hrun hqueue
  have hnodup := hq.ring.nodup
  refine ⟨h', q', hrun, hholds, ?_⟩
  rcases pre with _ | ⟨a, pre⟩ <;> rcases post with _ | ⟨n, post⟩
  · exact absurd rfl hne
  · -- the head
    have hover := deltk_overwritten hq.toQueue hne hq.next_inner.1 hrun
    refine iff_of_true ⟨⟨hholds, hover.nonneg hnodup hq.nonneg fun hn => ?_⟩,
      hover.decode_head hnodup⟩ trivial
    simp only [List.nil_append, List.tail_cons, List.nodup_cons] at hn hnodup
    exact absurd hn hnodup.2.1
  · -- the last one
    have hnext : (h c).qNext = some a := hq.next_last.trans hq.head
    have hover := deltk_overwritten hq.toQueue hne hnext hrun
    rw [List.append_nil] at hholds ⊢
    refine (and_iff_right ⟨hholds, ?_⟩).trans (hover.decode_last_iff hnodup)
    have hkept := hover.nonneg hnodup hq.nonneg fun ha => ?_
    · rwa [List.append_nil] at hkept
    · rw [List.append_nil, List.tail_cons] at ha
      exact absurd ha (List.nodup_cons.mp (List.nodup_append.mp hnodup).1).1
  · have hover := deltk_overwritten hq.toQueue hne hq.next_inner.1 hrun
    have hiff := hover.decode_inner_iff hnodup
    refine ⟨fun hkeeps => hiff.mp hkeeps.2, fun hzero => ⟨⟨hholds, ?_⟩, hiff.mpr hzero⟩⟩
    refine hover.nonneg hnodup hq.nonneg fun _ => ?_
    rw [show (h n).qPrio = 0 from hzero, sub_zero]
    exact hq.nonneg c (by simp)

end deltk

/-! ### Two threads -/

/-- A thread of priority 3 and one of priority 2, with one ticket each. -/
def graded : Heap Bool := fun c =>
  { linkedTo (!c) 0 0 with
    offset := if c then 1 else 0
    tkNum := 1
    qPrio := if c then 1 else 3 }

/-- Their queue. -/
def gradedQueue : Pqueue Bool := ⟨some false, 2, 2, 2⟩

lemma prioQueue_graded : PrioQueue graded gradedQueue [false, true] where
  head := rfl
  ring := by
    refine ⟨by simp, ?_⟩
    rw [Cycle.chain_coe_cons]
    simp [Linked, graded, linkedTo]
  num := rfl
  nonneg := by simp [graded]

/-- The head is drawn, and the other thread keeps its priority. -/
theorem deltk_keeps_prios_graded :
    ∃ h' q', pqueueDeltk 2 graded gradedQueue 0 = some (h', q', some false) ∧
      PrioQueue h' q' [true] ∧ prios graded [false, true] = [3, 2] ∧ prios h' [true] = [2] := by
  have hq : PrioQueue graded gradedQueue ([] ++ false :: [true]) := prioQueue_graded
  have hwin : hasTicket (graded false) (signed 32 0) := by decide
  obtain ⟨h', q', hrun, -, hiff⟩ :=
    deltk_keeps_prios_iff hq (List.cons_ne_nil true []) le_rfl hwin (by simp)
  obtain ⟨hqueue, hprios⟩ := hiff.mpr trivial
  exact ⟨h', q', hrun, hqueue, rfl, hprios⟩

/-- The other thread is drawn, and the head, which had the priority 3, is left with -2. -/
theorem deltk_loses_prio_graded :
    PrioQueue graded gradedQueue [false, true] ∧
    ∃ h' q', pqueueDeltk 2 graded gradedQueue 1 = some (h', q', some true) ∧
      prios graded [false, true] = [3, 2] ∧ prios h' [false] = [-2] := by
  have hrun : (pqueueDeltk 2 graded gradedQueue 1).map (fun res => (res.2.2, prios res.1 [false])) =
      some (some true, [-2]) := by decide
  obtain ⟨⟨h', q', t⟩, hrun, hres⟩ := Option.map_eq_some_iff.mp hrun
  obtain ⟨rfl, hprios⟩ := Prod.mk.inj hres
  exact ⟨prioQueue_graded, h', q', hrun, rfl, hprios⟩

end Comp3301.Pth
