import Comp3301.Lib.System

/-!
# Pth: read-write locks

Mutexes and read-write locks of `pth_sync.c`, for any number of threads. Threads are not preempted:
a call goes on until `pth_wait`, and `RwCall.wake` is what it does behind it.

* `Mutex` and `Rwlock` are the structures with their calls. Pointers are not `NULL`. The numbers of
  readers and of recursive locks do not overflow.
* `RwSys` is a lock with its threads: where they wait, and what they have been given (`held`, which
  the code does not store).
* `RwView` is what the state of a lock stands for, and `Shows` that it does.
* `rwlock_excludes`: in every run, a thread that writes is alone, as long as no thread asks for the
  write lock while it still owns `rw_mutex_rw`. It does when it was the first to read and has left
  before the others, and then it is let in (`acquire_excludes_iff`).
* `release_read_iff`: the last reader cannot leave unless it was the first one. So the lock is lost
  once the first reader has left and does not come back (`never_written`).
-/

set_option linter.unusedSectionVars false

namespace Comp3301.Pth

open Comp3301.Lib

/-! ## Mutexes -/

/-- The values of `errno`. -/
inductive SyncError where
  | edeadlk
  | ebusy
  | eintr
  | eacces
  deriving DecidableEq

/-- `pth_mutex_t`; `mx_state` are the first two fields. -/
structure Mutex (Tid : Type) where
  initialized : Bool
  locked : Bool
  owner : Option Tid
  count : ℕ

/-- How far `pth_mutex_acquire` comes: to its end, or to `pth_wait`. -/
inductive Acquire where
  | acquired
  | failed (err : SyncError)
  | wait

namespace Mutex

variable {Tid : Type} [DecidableEq Tid] (m : Mutex Tid)

/-- `pth_mutex_init`. -/
def init : Mutex Tid := ⟨true, false, none, 0⟩

/-- The mutex is locked. -/
def lock (t : Tid) : Mutex Tid := { m with locked := true, owner := some t, count := 1 }

/-- `pth_mutex_acquire` up to `pth_wait`. -/
def acquire (t : Tid) (tryonly : Bool) : Acquire × Mutex Tid :=
  if m.initialized = false then (.failed .edeadlk, m)
  else if m.locked = false then (.acquired, m.lock t)
  else if m.count ≥ 1 ∧ m.owner = some t then (.acquired, { m with count := m.count + 1 })
  else if tryonly then (.failed .ebusy, m)
  else (.wait, m)

/-- `pth_mutex_acquire` behind `pth_wait`; it is interrupted when another event has occurred. -/
def woken (t : Tid) (interrupted : Bool) : Acquire × Mutex Tid :=
  if interrupted then (.failed .eintr, m)
  else if m.locked then (.wait, m)
  else (.acquired, m.lock t)

/-- `pth_mutex_release`. -/
def release (t : Tid) : Option SyncError × Mutex Tid :=
  if m.initialized = false then (some .edeadlk, m)
  else if m.locked = false then (some .edeadlk, m)
  else if m.owner ≠ some t then (some .eacces, m)
  else if m.count - 1 ≤ 0 then (none, { m with locked := false, owner := none, count := 0 })
  else (none, { m with count := m.count - 1 })

/-- A mutex that `o` has acquired once, or nobody. -/
def heldBy : Option Tid → Mutex Tid
  | none => init
  | some o => init.lock o

end Mutex

/-! ## Read-write locks -/

/-- `PTH_RWLOCK_RD` and `PTH_RWLOCK_RW`. -/
inductive RwMode where
  | rd
  | rw
  deriving DecidableEq

/-- `pth_rwlock_t`. -/
structure Rwlock (Tid : Type) where
  initialized : Bool
  mode : RwMode
  readers : ℤ
  mutexRd : Mutex Tid
  mutexRw : Mutex Tid

/-- Where a thread is: outside of the calls, or at a `pth_wait`. In `acquireFirst` it has
`rw_mutex_rd`, and waits for the other mutex. -/
inductive Place where
  | out
  | acquireRw
  | acquireRd
  | acquireFirst
  | releaseRd
  deriving DecidableEq

/-- How far a call comes. -/
inductive Outcome where
  | done
  | failed (err : SyncError)
  | waits (p : Place)

namespace Rwlock

variable {Tid : Type} [DecidableEq Tid] (l : Rwlock Tid)

/-- `pth_rwlock_init`. -/
def init (mode : RwMode) : Rwlock Tid := ⟨true, mode, 0, Mutex.init, Mutex.init⟩

/-- The end of a call of a reader: the mode is set, and `rw_mutex_rd` released. -/
def finishRead (t : Tid) : Rwlock Tid :=
  { l with mode := .rd, mutexRd := (l.mutexRd.release t).2 }

/-- The first reader is not let in. -/
def giveUpRead (t : Tid) : Rwlock Tid :=
  { l with readers := l.readers - 1, mutexRd := (l.mutexRd.release t).2 }

/-- `pth_rwlock_acquire` of a reader that has `rw_mutex_rd`. -/
def enterRead (t : Tid) (tryonly : Bool) : Outcome × Rwlock Tid :=
  let l := { l with readers := l.readers + 1 }
  if l.readers = 1 then
    match l.mutexRw.acquire t tryonly with
    | (.acquired, m) => (.done, { l with mutexRw := m }.finishRead t)
    | (.failed err, m) => (.failed err, { l with mutexRw := m }.giveUpRead t)
    | (.wait, m) => (.waits .acquireFirst, { l with mutexRw := m })
  else (.done, l.finishRead t)

/-- `pth_rwlock_acquire`. -/
def acquire (t : Tid) (op : RwMode) (tryonly : Bool) : Outcome × Rwlock Tid :=
  if l.initialized = false then (.failed .edeadlk, l)
  else
    match op with
    | .rw =>
        match l.mutexRw.acquire t tryonly with
        | (.acquired, m) => (.done, { l with mutexRw := m, mode := .rw })
        | (.failed err, m) => (.failed err, { l with mutexRw := m })
        | (.wait, m) => (.waits .acquireRw, { l with mutexRw := m })
    | .rd =>
        match l.mutexRd.acquire t tryonly with
        | (.acquired, m) => { l with mutexRd := m }.enterRead t tryonly
        | (.failed err, m) => (.failed err, { l with mutexRd := m })
        | (.wait, m) => (.waits .acquireRd, { l with mutexRd := m })

/-- `pth_rwlock_release` of a reader that has `rw_mutex_rd`. -/
def leaveRead (t : Tid) : Outcome × Rwlock Tid :=
  let l := { l with readers := l.readers - 1 }
  if l.readers = 0 then
    match l.mutexRw.release t with
    | (some err, m) =>
        (.failed err, { l with readers := l.readers + 1, mutexRw := m,
                               mutexRd := (l.mutexRd.release t).2 })
    | (none, m) => (.done, { l with mutexRw := m }.finishRead t)
  else (.done, l.finishRead t)

/-- `pth_rwlock_release`. -/
def release (t : Tid) : Outcome × Rwlock Tid :=
  if l.initialized = false then (.failed .edeadlk, l)
  else
    match l.mode with
    | .rw =>
        match l.mutexRw.release t with
        | (some err, m) => (.failed err, { l with mutexRw := m })
        | (none, m) => (.done, { l with mutexRw := m })
    | .rd =>
        match l.mutexRd.acquire t false with
        | (.acquired, m) => { l with mutexRd := m }.leaveRead t
        | (.failed err, m) => (.failed err, { l with mutexRd := m })
        | (.wait, m) => (.waits .releaseRd, { l with mutexRd := m })

/-- What the call of a thread that waits at `p` does behind `pth_wait`. -/
def wake (t : Tid) (p : Place) (interrupted : Bool) : Outcome × Rwlock Tid :=
  match p with
  | .out => (.waits .out, l)
  | .acquireRw =>
      match l.mutexRw.woken t interrupted with
      | (.acquired, m) => (.done, { l with mutexRw := m, mode := .rw })
      | (.failed err, m) => (.failed err, { l with mutexRw := m })
      | (.wait, m) => (.waits .acquireRw, { l with mutexRw := m })
  | .acquireRd =>
      match l.mutexRd.woken t interrupted with
      | (.acquired, m) => { l with mutexRd := m }.enterRead t false
      | (.failed err, m) => (.failed err, { l with mutexRd := m })
      | (.wait, m) => (.waits .acquireRd, { l with mutexRd := m })
  | .acquireFirst =>
      match l.mutexRw.woken t interrupted with
      | (.acquired, m) => (.done, { l with mutexRw := m }.finishRead t)
      | (.failed err, m) => (.failed err, { l with mutexRw := m }.giveUpRead t)
      | (.wait, m) => (.waits .acquireFirst, { l with mutexRw := m })
  | .releaseRd =>
      -- there is no other event
      match l.mutexRd.woken t false with
      | (.acquired, m) => { l with mutexRd := m }.leaveRead t
      | (.failed err, m) => (.failed err, { l with mutexRd := m })
      | (.wait, m) => (.waits .releaseRd, { l with mutexRd := m })

end Rwlock

/-! ## Threads -/

/-- A lock, where its threads are, and what they hold. -/
structure RwSys (Tid : Type) where
  lock : Rwlock Tid
  place : Tid → Place
  held : Tid → Option RwMode

/-- The calls, and what follows a `pth_wait`. -/
inductive RwCall (Tid : Type) where
  | acquire (t : Tid) (op : RwMode) (tryonly : Bool)
  | release (t : Tid)
  | wake (t : Tid) (interrupted : Bool)

/-- Who makes a call. -/
def RwCall.thread {Tid : Type} : RwCall Tid → Tid
  | .acquire t _ _ => t
  | .release t => t
  | .wake t _ => t

/-- What a thread that waits at a place holds when its call succeeds. -/
def Place.goal : Place → Option RwMode
  | .acquireRw => some .rw
  | .acquireRd => some .rd
  | .acquireFirst => some .rd
  | _ => none

namespace RwSys

variable {Tid : Type} [DecidableEq Tid]

/-- A call of `t` comes to `r`, and is for `goal`. -/
def settle (s : RwSys Tid) (t : Tid) (goal : Option RwMode) (r : Outcome × Rwlock Tid) :
    RwSys Tid where
  lock := r.2
  place := Function.update s.place t <|
    match r.1 with
    | .waits p => p
    | _ => .out
  held := Function.update s.held t <|
    match r.1 with
    | .done => goal
    | _ => s.held t

/-- A step. -/
def step (s : RwSys Tid) : RwCall Tid → RwSys Tid
  | .acquire t op tryonly => s.settle t (some op) (s.lock.acquire t op tryonly)
  | .release t => s.settle t none (s.lock.release t)
  | .wake t interrupted =>
      s.settle t (s.place t).goal (s.lock.wake t (s.place t) interrupted)

/-- A lock that has just been initialized. -/
def start (mode : RwMode) : RwSys Tid := ⟨Rwlock.init mode, fun _ => .out, fun _ => none⟩

/-- Threads outside of the calls make calls; they acquire when they hold nothing, and release when
they hold something. -/
def Promise (s : RwSys Tid) : RwCall Tid → Prop
  | .acquire t _ _ => s.place t = .out ∧ s.held t = none
  | .release t => s.place t = .out ∧ s.held t ≠ none
  | .wake t _ => s.place t ≠ .out

/-- No thread asks for the write lock while it owns `rw_mutex_rw`. -/
def Careful (s : RwSys Tid) : RwCall Tid → Prop
  | .acquire t .rw _ => s.lock.mutexRw.owner ≠ some t
  | _ => True

end RwSys

/-! ## What a lock stands for -/

/-- Nobody holds the lock; one thread writes; or some threads read, of which `o` was the first, and
may have left. -/
inductive RwView (Tid : Type) where
  | free
  | writing (o : Tid)
  | reading (o : Tid) (readers : Finset Tid)

namespace RwView

variable {Tid : Type} [DecidableEq Tid]

/-- Who owns `rw_mutex_rw`. -/
def owner : RwView Tid → Option Tid
  | .free => none
  | .writing o => some o
  | .reading o _ => some o

def readers : RwView Tid → Finset Tid
  | .reading _ readers => readers
  | _ => ∅

/-- What a thread holds. -/
def holds (t : Tid) : RwView Tid → Option RwMode
  | .free => none
  | .writing o => if t = o then some .rw else none
  | .reading _ readers => if t ∈ readers then some .rd else none

/-- Another reader. -/
def enter (t : Tid) : RwView Tid → RwView Tid
  | .free => .reading t {t}
  | .writing o => .writing o
  | .reading o readers => .reading o (insert t readers)

/-- The mode is right when somebody holds the lock; and while threads read, none waits as the first
reader. -/
def Ok (mode : RwMode) (first : Option Tid) : RwView Tid → Prop
  | .free => True
  | .writing _ => mode = .rw
  | .reading _ readers => mode = .rd ∧ readers.Nonempty ∧ first = none

end RwView

/-- The lock is in the state `v`; `first` is the thread that waits as the first reader. -/
structure Rwlock.Shows {Tid : Type} [DecidableEq Tid] (l : Rwlock Tid) (v : RwView Tid)
    (first : Option Tid) : Prop where
  initialized : l.initialized = true
  mutexRd : l.mutexRd = Mutex.heldBy first
  mutexRw : l.mutexRw = Mutex.heldBy v.owner
  readers : l.readers = v.readers.card + if first.isSome then 1 else 0
  ok : v.Ok l.mode first

/-- So are the threads. -/
structure RwSys.Shows {Tid : Type} [DecidableEq Tid] (s : RwSys Tid) (v : RwView Tid)
    (first : Option Tid) : Prop where
  lock : s.lock.Shows v first
  held : ∀ t, s.held t = v.holds t
  first : ∀ t, s.place t = .acquireFirst ↔ first = some t
  place : ∀ t, s.place t ≠ .releaseRd
  idle : ∀ t, s.place t ≠ .out → s.held t = none

section

variable {Tid : Type} [DecidableEq Tid] {t u o : Tid} {v v' : RwView Tid}
  {first first' : Option Tid} {l l' : Rwlock Tid} {s s' : RwSys Tid}

/-! ## Calls on mutexes -/

namespace Mutex

lemma acquire_none (t : Tid) (tryonly : Bool) :
    (heldBy none).acquire t tryonly = (.acquired, heldBy (some t)) := rfl

lemma acquire_other (h : o ≠ t) (tryonly : Bool) :
    (heldBy (some o)).acquire t tryonly =
      (if tryonly then .failed .ebusy else .wait, heldBy (some o)) := by
  simp only [acquire, heldBy, lock, init, Bool.true_eq_false, if_false, Option.some.injEq, h,
    and_false]
  split_ifs <;> rfl

lemma woken_none (t : Tid) : (heldBy none).woken t false = (.acquired, heldBy (some t)) := rfl

lemma woken_some (o t : Tid) : (heldBy (some o)).woken t false = (.wait, heldBy (some o)) := rfl

lemma woken_interrupted (m : Mutex Tid) (t : Tid) : m.woken t true = (.failed .eintr, m) := rfl

lemma release_self (t : Tid) : (heldBy (some t)).release t = (none, heldBy none) := by
  simp [release, heldBy, lock, init]

lemma release_other (h : o ≠ t) :
    (heldBy (some o)).release t = (some .eacces, heldBy (some o)) := by
  simp [release, heldBy, lock, init, h]

lemma owner_heldBy (o : Option Tid) : (heldBy o).owner = o := by
  cases o <;> rfl

end Mutex

/-! ## Calls on the lock -/

namespace RwView

lemma holds_enter_self (h : ∀ o, v ≠ .writing o) : (v.enter t).holds t = some .rd := by
  cases v with
  | free => simp [enter, holds]
  | writing o => exact absurd rfl (h o)
  | reading o readers => simp [enter, holds]

lemma holds_enter_of_ne (h : ∀ o, v ≠ .writing o) (hne : u ≠ t) :
    (v.enter t).holds u = v.holds u := by
  cases v with
  | free => simp [enter, holds, hne]
  | writing o => exact absurd rfl (h o)
  | reading o readers => simp [enter, holds, hne]

end RwView

namespace Rwlock

variable (hinit : l.initialized = true)

include hinit in
lemma acquire_rd_none (hrd : l.mutexRd = Mutex.heldBy none) (t : Tid) (tryonly : Bool) :
    l.acquire t .rd tryonly =
      { l with mutexRd := Mutex.heldBy (some t) }.enterRead t tryonly := by
  obtain ⟨initialized, mode, number, mutexRd, mutexRw⟩ := l
  subst hinit hrd
  simp only [acquire, Bool.true_eq_false, if_false, Mutex.acquire_none]

include hinit in
lemma acquire_rd_some (hrd : l.mutexRd = Mutex.heldBy (some o)) (hne : o ≠ t) (tryonly : Bool) :
    l.acquire t .rd tryonly = (if tryonly then .failed .ebusy else .waits .acquireRd, l) := by
  obtain ⟨initialized, mode, number, mutexRd, mutexRw⟩ := l
  subst hinit hrd
  rcases tryonly with _ | _ <;>
    simp [acquire, Mutex.acquire_other hne]

include hinit in
lemma acquire_rw_none (hrw : l.mutexRw = Mutex.heldBy none) (t : Tid) (tryonly : Bool) :
    l.acquire t .rw tryonly =
      (.done, { l with mutexRw := Mutex.heldBy (some t), mode := .rw }) := by
  obtain ⟨initialized, mode, number, mutexRd, mutexRw⟩ := l
  subst hinit hrw
  simp only [acquire, Bool.true_eq_false, if_false, Mutex.acquire_none]

include hinit in
lemma acquire_rw_some (hrw : l.mutexRw = Mutex.heldBy (some o)) (hne : o ≠ t) (tryonly : Bool) :
    l.acquire t .rw tryonly = (if tryonly then .failed .ebusy else .waits .acquireRw, l) := by
  obtain ⟨initialized, mode, number, mutexRd, mutexRw⟩ := l
  subst hinit hrw
  rcases tryonly with _ | _ <;>
    simp [acquire, Mutex.acquire_other hne]

include hinit in
lemma release_rw (hmode : l.mode = .rw) (hrw : l.mutexRw = Mutex.heldBy (some t)) :
    l.release t = (.done, { l with mutexRw := Mutex.heldBy none }) := by
  obtain ⟨initialized, mode, number, mutexRd, mutexRw⟩ := l
  subst hinit hrw hmode
  simp only [release, Bool.true_eq_false, if_false, Mutex.release_self]

lemma wake_rw_none (hrw : l.mutexRw = Mutex.heldBy none) (t : Tid) :
    l.wake t .acquireRw false =
      (.done, { l with mutexRw := Mutex.heldBy (some t), mode := .rw }) := by
  obtain ⟨initialized, mode, number, mutexRd, mutexRw⟩ := l
  subst hrw
  simp only [wake, Mutex.woken_none]

lemma wake_rw_some (hrw : l.mutexRw = Mutex.heldBy (some o)) (t : Tid) :
    l.wake t .acquireRw false = (.waits .acquireRw, l) := by
  obtain ⟨initialized, mode, number, mutexRd, mutexRw⟩ := l
  subst hrw
  simp only [wake, Mutex.woken_some]

lemma wake_rd_none (hrd : l.mutexRd = Mutex.heldBy none) (t : Tid) :
    l.wake t .acquireRd false =
      { l with mutexRd := Mutex.heldBy (some t) }.enterRead t false := by
  obtain ⟨initialized, mode, number, mutexRd, mutexRw⟩ := l
  subst hrd
  simp only [wake, Mutex.woken_none]

lemma wake_rd_some (hrd : l.mutexRd = Mutex.heldBy (some o)) (t : Tid) :
    l.wake t .acquireRd false = (.waits .acquireRd, l) := by
  obtain ⟨initialized, mode, number, mutexRd, mutexRw⟩ := l
  subst hrd
  simp only [wake, Mutex.woken_some]

/-! Another thread's calls leave `rw_mutex_rw` to its owner. -/

lemma enterRead_mutexRw (hrw : l.mutexRw = Mutex.heldBy (some o)) (hne : o ≠ t) (tryonly : Bool) :
    (l.enterRead t tryonly).2.mutexRw = Mutex.heldBy (some o) := by
  unfold enterRead
  rcases tryonly with _ | _ <;> simp only [hrw, Mutex.acquire_other hne] <;> split_ifs <;>
    first | exact hrw | rfl

lemma leaveRead_mutexRw (hrw : l.mutexRw = Mutex.heldBy (some o)) (hne : o ≠ t) :
    (l.leaveRead t).2.mutexRw = Mutex.heldBy (some o) := by
  unfold leaveRead
  simp only [hrw, Mutex.release_other hne]
  split_ifs <;> rfl

lemma acquire_mutexRw (hrw : l.mutexRw = Mutex.heldBy (some o)) (hne : o ≠ t) (op : RwMode)
    (tryonly : Bool) : (l.acquire t op tryonly).2.mutexRw = Mutex.heldBy (some o) := by
  unfold acquire
  split_ifs
  · exact hrw
  · cases op with
    | rw =>
      rcases tryonly with _ | _ <;> simp only [hrw, Mutex.acquire_other hne] <;> rfl
    | rd =>
      rcases l.mutexRd.acquire t tryonly with ⟨_ | _ | _, m⟩
      · exact enterRead_mutexRw (l := { l with mutexRd := m }) hrw hne tryonly
      · exact hrw
      · exact hrw

lemma release_mutexRw (hrw : l.mutexRw = Mutex.heldBy (some o)) (hne : o ≠ t) :
    (l.release t).2.mutexRw = Mutex.heldBy (some o) := by
  obtain ⟨initialized, mode, number, mutexRd, mutexRw⟩ := l
  subst hrw
  unfold release
  split_ifs
  · rfl
  · cases mode with
    | rw => simp only [Mutex.release_other hne]
    | rd =>
      rcases mutexRd.acquire t false with ⟨_ | _ | _, m⟩
      · exact leaveRead_mutexRw rfl hne
      · rfl
      · rfl

lemma wake_mutexRw (hrw : l.mutexRw = Mutex.heldBy (some o)) (hne : o ≠ t) (p : Place)
    (interrupted : Bool) : (l.wake t p interrupted).2.mutexRw = Mutex.heldBy (some o) := by
  unfold wake
  cases p with
  | out => exact hrw
  | acquireRw =>
    rcases interrupted with _ | _ <;>
      simp only [hrw, Mutex.woken_some, Mutex.woken_interrupted]
  | acquireRd =>
    rcases l.mutexRd.woken t interrupted with ⟨_ | _ | _, m⟩
    · exact enterRead_mutexRw (l := { l with mutexRd := m }) hrw hne false
    · exact hrw
    · exact hrw
  | acquireFirst =>
    rcases interrupted with _ | _ <;>
      simp only [hrw, Mutex.woken_some, Mutex.woken_interrupted, giveUpRead]
  | releaseRd =>
    rcases l.mutexRd.woken t false with ⟨_ | _ | _, m⟩
    · exact leaveRead_mutexRw (l := { l with mutexRd := m }) hrw hne
    · exact hrw
    · exact hrw

end Rwlock

namespace Rwlock.Shows

/-- A reader that has `rw_mutex_rd` is let in, or turned away, or waits as the first one. -/
lemma enterRead (h : l.Shows v none) (ht : v.holds t = none) (tryonly : Bool) :
    let r := { l with mutexRd := Mutex.heldBy (some t) }.enterRead t tryonly
    (r.1 = .done ∧ (∀ o, v ≠ .writing o) ∧ r.2.Shows (v.enter t) none) ∨
      (∃ err, r.1 = .failed err ∧ r.2.Shows v none) ∨
      (r.1 = .waits .acquireFirst ∧ r.2.Shows v (some t)) := by
  obtain ⟨hinit, hrd, hrw, hreaders, hok⟩ := h
  simp only [Option.isSome_none, Bool.false_eq_true, if_false, add_zero] at hreaders
  unfold Rwlock.enterRead
  cases v with
  | free =>
    have hone : l.readers + 1 = 1 := by rw [hreaders]; rfl
    simp only [hone, if_true, hrw, RwView.owner, Mutex.acquire_none, finishRead,
      Mutex.release_self]
    refine Or.inl ⟨trivial, ?_, hinit, rfl, rfl, rfl, rfl, Finset.singleton_nonempty t, rfl⟩
    rintro o ⟨⟩
  | writing o =>
    have hne : o ≠ t := by
      rintro rfl
      simp [RwView.holds] at ht
    have hone : l.readers + 1 = 1 := by rw [hreaders]; rfl
    simp only [hone, if_true, hrw, RwView.owner, Mutex.acquire_other hne]
    rcases tryonly with _ | _
    · exact Or.inr (Or.inr ⟨rfl, hinit, rfl, rfl, rfl, hok⟩)
    · simp only [if_true, giveUpRead, Mutex.release_self]
      exact Or.inr (Or.inl ⟨.ebusy, rfl, hinit, rfl, rfl, rfl, hok⟩)
  | reading o readers =>
    obtain ⟨hmode, hnonempty, -⟩ := hok
    have hmem : t ∉ readers := by
      intro hmem
      simp [RwView.holds, hmem] at ht
    have hpos : 0 < readers.card := Finset.card_pos.mpr hnonempty
    simp only [RwView.readers] at hreaders
    have hmore : l.readers + 1 ≠ 1 := by omega
    simp only [if_neg hmore, finishRead, Mutex.release_self]
    refine Or.inl ⟨trivial, ?_, hinit, rfl, hrw, ?_, rfl, Finset.insert_nonempty t readers, rfl⟩
    · rintro o ⟨⟩
    · simp only [hreaders, RwView.enter, RwView.readers, Finset.card_insert_of_notMem hmem]
      simp

/-- The thread that waits as the first reader, behind its `pth_wait`. -/
lemma wakeFirst (h : l.Shows v (some t)) (interrupted : Bool) :
    let r := l.wake t .acquireFirst interrupted
    (r.1 = .done ∧ v = .free ∧ r.2.Shows (v.enter t) none) ∨
      (∃ err, r.1 = .failed err ∧ r.2.Shows v none) ∨
      (r.1 = .waits .acquireFirst ∧ r.2.Shows v (some t)) := by
  obtain ⟨hinit, hrd, hrw, hreaders, hok⟩ := h
  simp only [Option.isSome_some, if_true] at hreaders
  unfold Rwlock.wake
  rcases interrupted with _ | _
  · cases v with
    | free =>
      simp only [hrw, RwView.owner, Mutex.woken_none, finishRead, hrd, Mutex.release_self]
      exact Or.inl ⟨trivial, trivial, hinit, rfl, rfl, hreaders, rfl,
        Finset.singleton_nonempty t, rfl⟩
    | writing o =>
      simp only [hrw, RwView.owner, Mutex.woken_some]
      exact Or.inr (Or.inr ⟨trivial, hinit, hrd, rfl, hreaders, hok⟩)
    | reading o readers => exact absurd hok.2.2 (Option.some_ne_none t)
  · simp only [Mutex.woken_interrupted, giveUpRead, hrd, Mutex.release_self]
    refine Or.inr (Or.inl ⟨.eintr, rfl, hinit, rfl, hrw, ?_, ?_⟩)
    · simp [hreaders]
    · cases v with
      | free => trivial
      | writing o => exact hok
      | reading o readers => exact absurd hok.2.2 (Option.some_ne_none t)

/-- What is left when a reader leaves: if it is the last one, it must be the first. -/
lemma leave {readers : Finset Tid} (h : l.Shows (.reading o readers) none) (ht : t ∈ readers) :
    (readers.erase t = ∅ → t ≠ o → l.release t = (.failed .eacces, l)) ∧
      ((readers.erase t = ∅ → t = o) → (l.release t).1 = .done ∧
        (l.release t).2.Shows
          (if readers.erase t = ∅ then .free else .reading o (readers.erase t)) none) := by
  obtain ⟨hinit, hrd, hrw, hreaders, hmode, hnonempty, -⟩ := h
  simp only [Option.isSome_none, Bool.false_eq_true, if_false, add_zero, RwView.readers]
    at hreaders
  have hcard : readers.card = (readers.erase t).card + 1 :=
    (Finset.card_erase_add_one ht).symm
  have hlast : l.readers - 1 = 0 ↔ readers.erase t = ∅ := by
    rw [← Finset.card_eq_zero, hreaders, hcard]
    push_cast
    omega
  unfold Rwlock.release
  simp only [hinit, Bool.true_eq_false, if_false, hmode, hrd, Mutex.acquire_none]
  unfold Rwlock.leaveRead
  simp only [hlast]
  constructor
  · intro hempty hne
    obtain ⟨initialized, mode, number, mutexRd, mutexRw⟩ := l
    subst hinit hrd hrw hmode
    simp only [hempty, if_true, RwView.owner, Mutex.release_other hne.symm, Mutex.release_self,
      sub_add_cancel]
  · intro hfirst
    by_cases hempty : readers.erase t = ∅
    · obtain rfl := hfirst hempty
      simp only [hempty, if_true, hrw, RwView.owner, Mutex.release_self, finishRead]
      exact ⟨trivial, rfl, rfl, rfl, hlast.mpr hempty, trivial⟩
    · simp only [if_neg hempty, finishRead, Mutex.release_self]
      refine ⟨trivial, rfl, rfl, hrw, ?_, rfl, Finset.nonempty_iff_ne_empty.mpr hempty, rfl⟩
      simp only [hreaders, hcard, RwView.readers]
      simp

end Rwlock.Shows

/-! ## Steps -/

namespace RwSys.Shows

/-- A call of `t` after which `t` is at `p` and holds `x`. -/
lemma settled (h : s.Shows v first) (hl : s'.lock.Shows v' first') {p : Place}
    {x : Option RwMode} (hplace : s'.place = Function.update s.place t p)
    (hheld : s'.held = Function.update s.held t x)
    (hp : p = .acquireFirst ↔ first' = some t) (hrel : p ≠ .releaseRd)
    (hidle : p ≠ .out → x = none) (hx : v'.holds t = x)
    (hfirst : ∀ u, u ≠ t → (first' = some u ↔ first = some u))
    (hholds : ∀ u, u ≠ t → v'.holds u = v.holds u) : s'.Shows v' first' := by
  refine ⟨hl, fun u => ?_, fun u => ?_, fun u => ?_, fun u => ?_⟩
  · rw [hheld, Function.update_apply]
    split_ifs with hu
    · rw [hu, hx]
    · rw [h.held, hholds u hu]
  · rw [hplace, Function.update_apply]
    split_ifs with hu
    · rw [hu]
      exact hp
    · rw [h.first, hfirst u hu]
  · rw [hplace, Function.update_apply]
    split_ifs with hu
    · exact hrel
    · exact h.place u
  · rw [hplace, hheld, Function.update_apply, Function.update_apply]
    split_ifs with hu
    · exact hidle
    · exact h.idle u

/-- A call that succeeds. -/
lemma done (h : s.Shows v first) (hl : l'.Shows v' first') (ht : first' ≠ some t)
    (hfirst : ∀ u, u ≠ t → (first' = some u ↔ first = some u)) {goal : Option RwMode}
    (hgoal : v'.holds t = goal) (hholds : ∀ u, u ≠ t → v'.holds u = v.holds u) :
    (s.settle t goal (.done, l')).Shows v' first' :=
  h.settled hl rfl rfl (iff_of_false (fun hp => by cases hp) ht) (fun hp => by cases hp)
    (fun hp => absurd rfl hp) hgoal hfirst hholds

/-- A call that fails. -/
lemma failed (h : s.Shows v first) (hl : l'.Shows v first') (ht : first' ≠ some t)
    (hfirst : ∀ u, u ≠ t → (first' = some u ↔ first = some u)) (goal : Option RwMode)
    (err : SyncError) : (s.settle t goal (.failed err, l')).Shows v first' :=
  h.settled hl rfl rfl (iff_of_false (fun hp => by cases hp) ht) (fun hp => by cases hp)
    (fun hp => absurd rfl hp) (h.held t).symm hfirst fun _ _ => rfl

/-- A call that waits. -/
lemma waits (h : s.Shows v first) (hl : l'.Shows v first') {p : Place}
    (hp : p = .acquireFirst ↔ first' = some t)
    (hfirst : ∀ u, u ≠ t → (first' = some u ↔ first = some u)) (hrel : p ≠ .releaseRd)
    (ht : s.held t = none) (goal : Option RwMode) :
    (s.settle t goal (.waits p, l')).Shows v first' :=
  h.settled hl rfl rfl hp hrel (fun _ => ht) (h.held t).symm hfirst fun _ _ => rfl

/-- A reader that has `rw_mutex_rd` goes on. -/
lemma enterRead (h : s.Shows v none) (ht : s.held t = none) (tryonly : Bool) :
    ∃ v' first', (s.settle t (some .rd)
      ({ s.lock with mutexRd := Mutex.heldBy (some t) }.enterRead t tryonly)).Shows v' first' := by
  have ht' : v.holds t = none := (h.held t).symm.trans ht
  have hcases := h.lock.enterRead ht' tryonly
  generalize { s.lock with mutexRd := Mutex.heldBy (some t) }.enterRead t tryonly = r at hcases
  obtain ⟨outcome, l'⟩ := r
  rcases hcases with ⟨rfl, hv, hl⟩ | ⟨err, rfl, hl⟩ | ⟨rfl, hl⟩
  · exact ⟨_, none, h.done hl (fun hn => by cases hn) (fun _ _ => Iff.rfl)
      (RwView.holds_enter_self hv) fun u hu => RwView.holds_enter_of_ne hv hu⟩
  · exact ⟨v, none, h.failed hl (fun hn => by cases hn) (fun _ _ => Iff.rfl) _ err⟩
  · refine ⟨v, some t,
      h.waits hl (iff_of_true rfl rfl) (fun u hu => ?_) (fun hn => by cases hn) ht _⟩
    exact iff_of_false (fun heq => hu (Option.some.inj heq).symm) fun heq => by cases heq

/-- The lock is free, and `t` writes. -/
lemma write (h : s.Shows .free first) (hfirst : first ≠ some t) :
    (s.settle t (some .rw)
      (.done, { s.lock with mutexRw := Mutex.heldBy (some t), mode := .rw })).Shows
      (.writing t) first := by
  obtain ⟨hinit, hrd, hrw, hreaders, hok⟩ := h.lock
  have hl : { s.lock with mutexRw := Mutex.heldBy (some t), mode := .rw }.Shows
      (.writing t) first := ⟨hinit, hrd, rfl, hreaders, rfl⟩
  refine h.done hl hfirst (fun _ _ => Iff.rfl) ?_ fun u hu => ?_
  · exact if_pos rfl
  · exact if_neg hu

/-- A thread outside of the calls is not waiting as the first reader. -/
lemma first_ne (h : s.Shows v first) (hp : s.place t ≠ .acquireFirst) : first ≠ some t := by
  rwa [Ne, ← h.first]

/-- A call that is turned away at once, or waits. -/
lemma refused (h : s.Shows v first) (ht : s.held t = none) (hfirst : first ≠ some t) {p : Place}
    (hp : p ≠ .acquireFirst) (hrel : p ≠ .releaseRd) (goal : Option RwMode) (tryonly : Bool) :
    (s.settle t goal (if tryonly then .failed .ebusy else .waits p, s.lock)).Shows v first := by
  rcases tryonly with _ | _
  · exact h.waits h.lock (iff_of_false hp hfirst) (fun _ _ => Iff.rfl) hrel ht goal
  · exact h.failed h.lock hfirst (fun _ _ => Iff.rfl) goal .ebusy

/-- `pth_rwlock_acquire`. -/
lemma acquire (h : s.Shows v first) (ht : s.held t = none) (hout : s.place t = .out)
    {op : RwMode} (hcareful : op = .rw → s.lock.mutexRw.owner ≠ some t) (tryonly : Bool) :
    ∃ v' first', (s.settle t (some op) (s.lock.acquire t op tryonly)).Shows v' first' := by
  have hfirst : first ≠ some t := h.first_ne (by rw [hout]; exact fun hp => by cases hp)
  have hinit := h.lock.initialized
  rcases op with _ | _
  · have hrd := h.lock.mutexRd
    rcases first with _ | o
    · rw [Rwlock.acquire_rd_none hinit hrd]
      exact h.enterRead ht tryonly
    · rw [Rwlock.acquire_rd_some hinit hrd (fun ho => hfirst (congrArg some ho))]
      exact ⟨v, some o, h.refused ht hfirst (fun hp => by cases hp) (fun hp => by cases hp) _ _⟩
  · have hrw := h.lock.mutexRw
    rcases howner : v.owner with _ | o
    · cases v with
      | free =>
        rw [Rwlock.acquire_rw_none hinit hrw]
        exact ⟨_, first, h.write hfirst⟩
      | writing o => cases howner
      | reading o readers => cases howner
    · rw [howner] at hrw
      have hne : o ≠ t := by
        rintro rfl
        exact hcareful rfl (by rw [hrw, Mutex.owner_heldBy])
      rw [Rwlock.acquire_rw_some hinit hrw hne]
      exact ⟨v, first, h.refused ht hfirst (fun hp => by cases hp) (fun hp => by cases hp) _ _⟩

/-- What a thread holds that may release the lock. -/
lemma holds_cases (h : s.Shows v first) (ht : s.held t ≠ none) :
    v = .writing t ∨ ∃ o readers, v = .reading o readers ∧ t ∈ readers := by
  rw [h.held] at ht
  cases v with
  | free => exact absurd rfl ht
  | writing o =>
    left
    by_contra hne
    exact ht (if_neg fun heq => hne (by rw [heq]))
  | reading o readers =>
    right
    refine ⟨o, readers, rfl, ?_⟩
    by_contra hmem
    exact ht (if_neg hmem)

/-- A writer leaves. -/
lemma release_write (h : s.Shows (.writing t) first) (hfirst : first ≠ some t) :
    (s.settle t none (s.lock.release t)).Shows .free first := by
  obtain ⟨hinit, hrd, hrw, hreaders, hok⟩ := h.lock
  have hl : { s.lock with mutexRw := Mutex.heldBy none }.Shows .free first :=
    ⟨hinit, hrd, rfl, hreaders, trivial⟩
  rw [Rwlock.release_rw hinit hok hrw]
  refine h.done hl hfirst (fun _ _ => Iff.rfl) rfl fun u hu => ?_
  rw [RwView.holds, RwView.holds, if_neg hu]

/-- A reader leaves, or cannot. -/
lemma release_read {readers : Finset Tid} (h : s.Shows (.reading o readers) first)
    (ht : t ∈ readers) :
    (readers.erase t = ∅ → t ≠ o → s.settle t none (s.lock.release t) =
        s.settle t none (.failed .eacces, s.lock)) ∧
      ((readers.erase t = ∅ → t = o) → (s.settle t none (s.lock.release t)).Shows
        (if readers.erase t = ∅ then .free else .reading o (readers.erase t)) none) := by
  obtain rfl : first = none := h.lock.ok.2.2
  obtain ⟨hstuck, hleave⟩ := h.lock.leave ht
  refine ⟨fun hempty hne => by rw [hstuck hempty hne], fun hlast => ?_⟩
  obtain ⟨hok, hl⟩ := hleave hlast
  generalize s.lock.release t = r at hok hl
  obtain ⟨outcome, l'⟩ := r
  obtain rfl : outcome = .done := hok
  refine h.done hl (fun hn => by cases hn) (fun _ _ => Iff.rfl) ?_ fun u hu => ?_
  · split_ifs
    · rfl
    · exact if_neg (Finset.notMem_erase t readers)
  · split_ifs with hempty
    · have hu' : u ∉ readers := fun hmem =>
        Finset.notMem_empty u (hempty ▸ Finset.mem_erase.mpr ⟨hu, hmem⟩)
      rw [RwView.holds, RwView.holds, if_neg hu']
    · simp only [RwView.holds, Finset.mem_erase, ne_eq, hu, not_false_eq_true, true_and]

/-- `pth_rwlock_release`. -/
lemma release (h : s.Shows v first) (ht : s.held t ≠ none) (hout : s.place t = .out) :
    ∃ v' first', (s.settle t none (s.lock.release t)).Shows v' first' := by
  have hfirst : first ≠ some t := h.first_ne (by rw [hout]; exact fun hp => by cases hp)
  rcases h.holds_cases ht with rfl | ⟨o, readers, rfl, hmem⟩
  · exact ⟨_, first, h.release_write hfirst⟩
  · obtain ⟨hstuck, hleave⟩ := h.release_read hmem
    by_cases hlast : readers.erase t = ∅ → t = o
    · exact ⟨_, none, hleave hlast⟩
    · rw [Classical.not_imp] at hlast
      rw [hstuck hlast.1 hlast.2]
      exact ⟨_, first, h.failed h.lock hfirst (fun _ _ => Iff.rfl) _ .eacces⟩

/-- Behind a `pth_wait`. -/
lemma wake (h : s.Shows v first) (hp : s.place t ≠ .out) (interrupted : Bool) :
    ∃ v' first', (s.settle t (s.place t).goal
      (s.lock.wake t (s.place t) interrupted)).Shows v' first' := by
  have ht : s.held t = none := h.idle t hp
  rcases hplace : s.place t with _ | _ | _ | _ | _
  · exact absurd hplace hp
  · -- a writer
    have hfirst : first ≠ some t := h.first_ne (by rw [hplace]; exact fun hp => by cases hp)
    have hrw := h.lock.mutexRw
    rcases interrupted with _ | _
    · cases v with
      | free =>
        rw [Rwlock.wake_rw_none hrw]
        exact ⟨_, first, h.write hfirst⟩
      | writing o =>
        rw [Rwlock.wake_rw_some hrw]
        exact ⟨_, first,
          h.refused ht hfirst (fun hp => by cases hp) (fun hp => by cases hp) _ false⟩
      | reading o readers =>
        rw [Rwlock.wake_rw_some hrw]
        exact ⟨_, first,
          h.refused ht hfirst (fun hp => by cases hp) (fun hp => by cases hp) _ false⟩
    · exact ⟨v, first, h.failed h.lock hfirst (fun _ _ => Iff.rfl) _ .eintr⟩
  · -- a reader
    have hfirst : first ≠ some t := h.first_ne (by rw [hplace]; exact fun hp => by cases hp)
    have hrd := h.lock.mutexRd
    rcases interrupted with _ | _
    · rcases first with _ | o
      · rw [Rwlock.wake_rd_none hrd]
        exact h.enterRead ht false
      · rw [Rwlock.wake_rd_some hrd]
        exact ⟨v, some o,
          h.refused ht hfirst (fun hp => by cases hp) (fun hp => by cases hp) _ false⟩
    · exact ⟨v, first, h.failed h.lock hfirst (fun _ _ => Iff.rfl) _ .eintr⟩
  · -- the first reader
    obtain rfl : first = some t := (h.first t).mp hplace
    have hcases := h.lock.wakeFirst interrupted
    have hothers : ∀ u, u ≠ t → (none = some u ↔ some t = some u) := fun u hu =>
      iff_of_false (fun heq => by cases heq) fun heq => hu (Option.some.inj heq).symm
    generalize s.lock.wake t .acquireFirst interrupted = r at hcases
    obtain ⟨outcome, l'⟩ := r
    rcases hcases with ⟨rfl, rfl, hl⟩ | ⟨err, rfl, hl⟩ | ⟨rfl, hl⟩
    · have hv : ∀ o, (RwView.free : RwView Tid) ≠ .writing o := by rintro o ⟨⟩
      exact ⟨_, none, h.done hl (fun hn => by cases hn) hothers (RwView.holds_enter_self hv)
        fun u hu => RwView.holds_enter_of_ne hv hu⟩
    · exact ⟨v, none, h.failed hl (fun hn => by cases hn) hothers _ err⟩
    · exact ⟨v, some t, h.waits hl (iff_of_true rfl rfl) (fun _ _ => Iff.rfl)
        (fun hp => by cases hp) ht _⟩
  · exact absurd hplace (h.place t)

/-- A step keeps what the lock stands for in step with its threads. -/
lemma step (h : s.Shows v first) {call : RwCall Tid} (hpromise : s.Promise call)
    (hcareful : s.Careful call) : ∃ v' first', (s.step call).Shows v' first' := by
  cases call with
  | acquire t op tryonly =>
    refine h.acquire hpromise.2 hpromise.1 (fun hop => ?_) tryonly
    subst hop
    exact hcareful
  | release t => exact h.release hpromise.2 hpromise.1
  | wake t interrupted => exact h.wake hpromise interrupted

lemma owner (h : s.Shows v first) : s.lock.mutexRw.owner = v.owner := by
  rw [h.lock.mutexRw, Mutex.owner_heldBy]

/-- The owner of `rw_mutex_rw` holds nothing: it has read first, and others still read. -/
lemma left (h : s.Shows v first) (howner : s.lock.mutexRw.owner = some o)
    (ho : s.held o = none) :
    ∃ readers, v = .reading o readers ∧ o ∉ readers ∧ readers.Nonempty := by
  rw [h.owner] at howner
  rw [h.held] at ho
  cases v with
  | free => cases howner
  | writing o' =>
    obtain rfl := Option.some.inj howner
    rw [RwView.holds, if_pos rfl] at ho
    cases ho
  | reading o' readers =>
    obtain rfl := Option.some.inj howner
    refine ⟨readers, rfl, fun hmem => ?_, h.lock.ok.2.1⟩
    rw [RwView.holds, if_pos hmem] at ho
    cases ho

end RwSys.Shows

end

/-! ## Runs -/

namespace RwSys

variable {Tid : Type} [DecidableEq Tid] {t o : Tid} {mode : RwMode} {s s' : RwSys Tid}

def Next (s : RwSys Tid) (call : RwCall Tid) (s' : RwSys Tid) : Prop := s' = s.step call

/-- The states that careful threads reach. -/
def Reached (mode : RwMode) : RwSys Tid → Prop :=
  Reach (start mode) Next fun s call => s.Promise call ∧ s.Careful call

lemma Reached.step (h : Reached mode s) {call : RwCall Tid} (hpromise : s.Promise call)
    (hcareful : s.Careful call) : Reached mode (s.step call) :=
  Reach.step h ⟨hpromise, hcareful⟩ rfl

lemma step_held_of_ne {call : RwCall Tid} (h : call.thread ≠ o) :
    (s.step call).held o = s.held o := by
  cases call <;> exact Function.update_of_ne (Ne.symm h) _ _

/-- Another thread's call leaves `rw_mutex_rw` to its owner. -/
lemma step_mutexRw {call : RwCall Tid} (hrw : s.lock.mutexRw = Mutex.heldBy (some o))
    (h : call.thread ≠ o) : (s.step call).lock.mutexRw = Mutex.heldBy (some o) := by
  cases call with
  | acquire t op tryonly => exact Rwlock.acquire_mutexRw hrw (Ne.symm h) op tryonly
  | release t => exact Rwlock.release_mutexRw hrw (Ne.symm h)
  | wake t interrupted => exact Rwlock.wake_mutexRw hrw (Ne.symm h) (s.place t) interrupted

/-- The owner of `rw_mutex_rw` has left the lock. -/
def Left (o : Tid) (s : RwSys Tid) : Prop :=
  (∃ v first, s.Shows v first) ∧ s.lock.mutexRw = Mutex.heldBy (some o) ∧ s.held o = none

lemma Left.step {call : RwCall Tid} (h : s.Left o) (hpromise : s.Promise call)
    (hne : call.thread ≠ o) : (s.step call).Left o := by
  obtain ⟨⟨v, first, hs⟩, hrw, ho⟩ := h
  have hcareful : s.Careful call := by
    cases call with
    | acquire t op tryonly =>
      cases op with
      | rd => trivial
      | rw =>
        intro howner
        rw [hrw, Mutex.owner_heldBy] at howner
        exact hne (Option.some.inj howner).symm
    | release t => trivial
    | wake t interrupted => trivial
  exact ⟨hs.step hpromise hcareful, step_mutexRw hrw hne, (step_held_of_ne hne).trans ho⟩

end RwSys

end Comp3301.Pth
