import Mathlib.Data.Fintype.Basic
import Mathlib.Data.Fintype.Option
import Mathlib.Logic.Function.Basic
import OllamaMitm.Lib.Mutex
import OllamaMitm.Lib.Runs

/-!
# The thread pool

`CThreadPool` of `common/threads_pool.hpp`: workers that take tasks from a queue, callers of
`enqueue`, and the destructor.  The mutex, the condition variable and the stop flags are explicit;
every access to one of them is one atomic step, and the steps interleave in any order.  The
evaluation of the predicate of `cv_.wait` and the sleep are two steps, and the mutex is held in
between; falling asleep and releasing the mutex are one.  A sleeping worker may wake for no reason.

The state keeps records that the program does not have: the tasks in the order in which they were
queued, and the tasks that were popped and invoked, with their workers.
-/

namespace OllamaMitm

/-- Where a worker stands. -/
inductive TWorker (τ : Type*) where
  /-- Before `while (!(*stopper))`. -/
  | looping
  /-- Before the lock is taken. -/
  | locking
  /-- With the lock, before the predicate of `cv_.wait` is evaluated. -/
  | checking
  /-- With the lock, in `cv_.wait` after the predicate was false. -/
  | fallingAsleep
  /-- In `cv_.wait`, without the lock. -/
  | asleep
  /-- In `cv_.wait`, woken, before the lock is taken again. -/
  | woken
  /-- With the lock, behind `cv_.wait`. -/
  | proceeding
  /-- With the lock, after `*stopper` was false. -/
  | popping
  /-- With the lock and a task, at the end of the block. -/
  | unlocking (nextTaskToExec : τ)
  /-- With the lock, at `break`. -/
  | leaving
  /-- With a task, before it is invoked. -/
  | invoking (nextTaskToExec : τ)
  /-- In the task. -/
  | running (nextTaskToExec : τ)
  /-- Behind the loop. -/
  | exited
deriving DecidableEq

/-- Where a caller stands in `enqueue`. -/
inductive TCaller (τ : Type*) where
  | outside
  /-- Before the lock is taken. -/
  | locking (task : τ)
  /-- With the lock, before the task is queued. -/
  | pushing (task : τ)
  /-- With the lock, at the end of the block. -/
  | unlocking
  /-- Before `cv_.notify_one()`. -/
  | notifying
deriving DecidableEq

/-- Where the destructor stands. -/
inductive TDestructor where
  | outside
  /-- The first `k` stop flags are set. -/
  | setting (k : ℕ)
  /-- After `cv_.notify_all()`, the first `k` workers are joined. -/
  | joining (k : ℕ)
  | done
deriving DecidableEq

namespace TWorker

variable {τ : Type*}

/-- The worker holds the lock. -/
def holdsLock : TWorker τ → Bool
  | .checking | .fallingAsleep | .proceeding | .popping | .unlocking _ | .leaving => true
  | _ => false

/-- The worker sleeps in `cv_.wait`. -/
def isAsleep : TWorker τ → Bool
  | .asleep => true
  | _ => false

@[simp] lemma isAsleep_iff {w : TWorker τ} : w.isAsleep = true ↔ w = .asleep := by
  cases w <;> simp [isAsleep]

/-- The worker after a notification. -/
def notified : TWorker τ → TWorker τ
  | .asleep => .woken
  | w => w

/-- The task that the worker has popped and not invoked yet. -/
def hand : TWorker τ → List τ
  | .unlocking task | .invoking task => [task]
  | _ => []

end TWorker

namespace TCaller

variable {τ : Type*}

/-- The caller holds the lock. -/
def holdsLock : TCaller τ → Bool
  | .pushing _ | .unlocking => true
  | _ => false

/-- The caller has queued its task and will call `notify_one`. -/
def owesNotification : TCaller τ → Bool
  | .unlocking | .notifying => true
  | _ => false

end TCaller

/-- One atomic step of a worker, of a caller or of the destructor. -/
inductive TPoolEvent (n : ℕ) (τ : Type*) where
  /-- The worker goes on. -/
  | work (i : Fin n)
  /-- A spurious wake-up. -/
  | wakeUp (i : Fin n)
  /-- The task of the worker returns. -/
  | taskReturns (i : Fin n)
  /-- The task of the worker throws, and the exception is caught. -/
  | taskThrows (i : Fin n)
  /-- A call of `enqueue`. -/
  | enqueue (c : ℕ) (task : τ)
  /-- The caller goes on. -/
  | call (c : ℕ)
  /-- `notify_one`, which wakes this sleeping worker, or nobody if there is none. -/
  | notifyOne (c : ℕ) (target : Option (Fin n))
  /-- A call of the destructor. -/
  | destroy
  /-- The destructor sets the next stop flag. -/
  | setStop
  /-- `notify_all`. -/
  | notifyAll
  /-- The destructor joins the next worker. -/
  | join
  /-- The destructor ends. -/
  | finish
deriving DecidableEq

/-- The state of the pool, and where everybody stands. -/
structure CThreadPool (n : ℕ) (τ : Type*) where
  threads : Fin n → TWorker τ := fun _ => .looping
  stop : Fin n → Bool := fun _ => false
  tasks : List τ := []
  /-- The worker or the caller that holds the lock. -/
  queueMutex : Option (Fin n ⊕ ℕ) := none
  callers : ℕ → TCaller τ := fun _ => .outside
  destructor : TDestructor := .outside
  /-- All tasks that were queued so far. -/
  queued : List τ := []
  /-- The tasks that were popped so far, and by whom. -/
  popped : List (Fin n × τ) := []
  /-- The tasks that were invoked so far, and by whom. -/
  invoked : List (Fin n × τ) := []

namespace CThreadPool

variable {n : ℕ} {τ : Type*}

/-! ## The steps -/

/-- A worker moves. -/
def moveWorker (s : CThreadPool n τ) (i : Fin n) (w : TWorker τ) : CThreadPool n τ :=
  { s with threads := Function.update s.threads i w }

/-- A caller moves. -/
def moveCaller (s : CThreadPool n τ) (c : ℕ) (v : TCaller τ) : CThreadPool n τ :=
  { s with callers := Function.update s.callers c v }

section Moves

variable {s : CThreadPool n τ} {i j : Fin n} {c d : ℕ} {w : TWorker τ} {v : TCaller τ}

@[simp] lemma threads_moveWorker_self : (s.moveWorker i w).threads i = w :=
  Function.update_self _ _ _

lemma threads_moveWorker_of_ne (h : j ≠ i) : (s.moveWorker i w).threads j = s.threads j :=
  Function.update_of_ne h _ _

/-- What holds of the worker that moves, and of the others, holds of all. -/
lemma forall_moveWorker {P : Fin n → TWorker τ → Prop} (hw : P i w)
    (h : ∀ j, j ≠ i → P j (s.threads j)) : ∀ j, P j ((s.moveWorker i w).threads j) :=
  (Function.forall_update_iff s.threads P).2 ⟨hw, h⟩

@[simp] lemma queued_moveWorker : (s.moveWorker i w).queued = s.queued := rfl

@[simp] lemma callers_moveCaller_self : (s.moveCaller c v).callers c = v :=
  Function.update_self _ _ _

lemma callers_moveCaller_of_ne (h : d ≠ c) : (s.moveCaller c v).callers d = s.callers d :=
  Function.update_of_ne h _ _

@[simp] lemma threads_moveCaller : (s.moveCaller c v).threads = s.threads := rfl

end Moves

/-- The next step of the thread function of a worker, if the worker can make one by itself. -/
def work (s : CThreadPool n τ) (i : Fin n) : Option (CThreadPool n τ) :=
  match s.threads i with
  | .looping => some (s.moveWorker i (if s.stop i then .exited else .locking))
  | .locking | .woken =>
    if s.queueMutex = none then
      some { s.moveWorker i .checking with queueMutex := some (.inl i) }
    else none
  | .checking =>
    some (s.moveWorker i (if !s.tasks.isEmpty || s.stop i then .proceeding else .fallingAsleep))
  | .fallingAsleep => some { s.moveWorker i .asleep with queueMutex := none }
  | .proceeding => some (s.moveWorker i (if s.stop i then .leaving else .popping))
  | .popping =>
    match s.tasks with
    | [] => none
    | task :: tasks =>
      some { s.moveWorker i (.unlocking task) with
        tasks := tasks
        popped := s.popped ++ [(i, task)] }
  | .unlocking task => some { s.moveWorker i (.invoking task) with queueMutex := none }
  | .leaving => some { s.moveWorker i .exited with queueMutex := none }
  | .invoking task =>
    some { s.moveWorker i (.running task) with invoked := s.invoked ++ [(i, task)] }
  | .asleep | .running _ | .exited => none

/-- The next step of a caller of `enqueue`, before it notifies. -/
def call (s : CThreadPool n τ) (c : ℕ) : Option (CThreadPool n τ) :=
  match s.callers c with
  | .locking task =>
    if s.queueMutex = none then
      some { s.moveCaller c (.pushing task) with queueMutex := some (.inr c) }
    else none
  | .pushing task =>
    some { s.moveCaller c .unlocking with
      tasks := s.tasks ++ [task]
      queued := s.queued ++ [task] }
  | .unlocking => some { s.moveCaller c .notifying with queueMutex := none }
  | .outside | .notifying => none

/-- What a step does, where it can be made. -/
def step (s : CThreadPool n τ) : TPoolEvent n τ → Option (CThreadPool n τ)
  | .work i => s.work i
  | .wakeUp i => if (s.threads i).isAsleep then some (s.moveWorker i .woken) else none
  | .taskReturns i | .taskThrows i =>
    match s.threads i with
    | .running _ => some (s.moveWorker i .looping)
    | _ => none
  | .enqueue c task =>
    match s.callers c, s.destructor with
    | .outside, .outside => some (s.moveCaller c (.locking task))
    | _, _ => none
  | .call c => s.call c
  | .notifyOne c target =>
    match s.callers c, target with
    | .notifying, some i =>
      if (s.threads i).isAsleep then some ((s.moveCaller c .outside).moveWorker i .woken) else none
    | .notifying, none =>
      if ∀ i, (s.threads i).isAsleep = false then some (s.moveCaller c .outside) else none
    | _, _ => none
  | .destroy => if s.destructor = .outside then some { s with destructor := .setting 0 } else none
  | .setStop =>
    match s.destructor with
    | .setting k =>
      if hk : k < n then
        some { s with stop := Function.update s.stop ⟨k, hk⟩ true, destructor := .setting (k + 1) }
      else none
    | _ => none
  | .notifyAll =>
    if s.destructor = .setting n then
      some { s with threads := fun i => (s.threads i).notified, destructor := .joining 0 }
    else none
  | .join =>
    match s.destructor with
    | .joining k =>
      if hk : k < n then
        match s.threads ⟨k, hk⟩ with
        | .exited => some { s with destructor := .joining (k + 1) }
        | _ => none
      else none
    | _ => none
  | .finish => if s.destructor = .joining n then some { s with destructor := .done } else none

/-- Any number of steps, in any order. -/
abbrev run : CThreadPool n τ → List (TPoolEvent n τ) → Option (CThreadPool n τ) := Lib.run step

/-- What each step does. -/
inductive Step (s : CThreadPool n τ) : TPoolEvent n τ → CThreadPool n τ → Prop
  | enters {i : Fin n} (hi : s.threads i = .looping) (hstop : s.stop i = false) :
      Step s (.work i) (s.moveWorker i .locking)
  | ends {i : Fin n} (hi : s.threads i = .looping) (hstop : s.stop i = true) :
      Step s (.work i) (s.moveWorker i .exited)
  | locks {i : Fin n} (hi : s.threads i = .locking ∨ s.threads i = .woken)
      (hfree : s.queueMutex = none) :
      Step s (.work i) { s.moveWorker i .checking with queueMutex := some (.inl i) }
  | passes {i : Fin n} (hi : s.threads i = .checking) (hpred : s.tasks ≠ [] ∨ s.stop i = true) :
      Step s (.work i) (s.moveWorker i .proceeding)
  | waits {i : Fin n} (hi : s.threads i = .checking) (htasks : s.tasks = [])
      (hstop : s.stop i = false) : Step s (.work i) (s.moveWorker i .fallingAsleep)
  | sleeps {i : Fin n} (hi : s.threads i = .fallingAsleep) :
      Step s (.work i) { s.moveWorker i .asleep with queueMutex := none }
  | continues {i : Fin n} (hi : s.threads i = .proceeding) (hstop : s.stop i = false) :
      Step s (.work i) (s.moveWorker i .popping)
  | breaks {i : Fin n} (hi : s.threads i = .proceeding) (hstop : s.stop i = true) :
      Step s (.work i) (s.moveWorker i .leaving)
  | pops {i : Fin n} {task : τ} {tasks : List τ} (hi : s.threads i = .popping)
      (htasks : s.tasks = task :: tasks) :
      Step s (.work i) { s.moveWorker i (.unlocking task) with
        tasks := tasks
        popped := s.popped ++ [(i, task)] }
  | unlocks {i : Fin n} {task : τ} (hi : s.threads i = .unlocking task) :
      Step s (.work i) { s.moveWorker i (.invoking task) with queueMutex := none }
  | leaves {i : Fin n} (hi : s.threads i = .leaving) :
      Step s (.work i) { s.moveWorker i .exited with queueMutex := none }
  | invokes {i : Fin n} {task : τ} (hi : s.threads i = .invoking task) :
      Step s (.work i) { s.moveWorker i (.running task) with
        invoked := s.invoked ++ [(i, task)] }
  | wakes {i : Fin n} (hi : s.threads i = .asleep) : Step s (.wakeUp i) (s.moveWorker i .woken)
  | returns {i : Fin n} {task : τ} (hi : s.threads i = .running task) :
      Step s (.taskReturns i) (s.moveWorker i .looping)
  | throws {i : Fin n} {task : τ} (hi : s.threads i = .running task) :
      Step s (.taskThrows i) (s.moveWorker i .looping)
  | enqueues {c : ℕ} {task : τ} (hc : s.callers c = .outside) (hd : s.destructor = .outside) :
      Step s (.enqueue c task) (s.moveCaller c (.locking task))
  | callerLocks {c : ℕ} {task : τ} (hc : s.callers c = .locking task)
      (hfree : s.queueMutex = none) :
      Step s (.call c) { s.moveCaller c (.pushing task) with queueMutex := some (.inr c) }
  | pushes {c : ℕ} {task : τ} (hc : s.callers c = .pushing task) :
      Step s (.call c) { s.moveCaller c .unlocking with
        tasks := s.tasks ++ [task]
        queued := s.queued ++ [task] }
  | callerUnlocks {c : ℕ} (hc : s.callers c = .unlocking) :
      Step s (.call c) { s.moveCaller c .notifying with queueMutex := none }
  | notifies {c : ℕ} {i : Fin n} (hc : s.callers c = .notifying) (hi : s.threads i = .asleep) :
      Step s (.notifyOne c (some i)) ((s.moveCaller c .outside).moveWorker i .woken)
  | notifiesNobody {c : ℕ} (hc : s.callers c = .notifying) (hno : ∀ i, s.threads i ≠ .asleep) :
      Step s (.notifyOne c none) (s.moveCaller c .outside)
  | destroys (hd : s.destructor = .outside) : Step s .destroy { s with destructor := .setting 0 }
  | setsStop {k : Fin n} (hd : s.destructor = .setting k) :
      Step s .setStop { s with
        stop := Function.update s.stop k true
        destructor := .setting (k + 1) }
  | notifiesAll (hd : s.destructor = .setting n) :
      Step s .notifyAll { s with
        threads := fun i => (s.threads i).notified
        destructor := .joining 0 }
  | joins {k : Fin n} (hd : s.destructor = .joining k) (hk : s.threads k = .exited) :
      Step s .join { s with destructor := .joining (k + 1) }
  | finishes (hd : s.destructor = .joining n) : Step s .finish { s with destructor := .done }

variable {s t : CThreadPool n τ} {e : TPoolEvent n τ} {i j : Fin n} {c : ℕ}

lemma step_of_work (h : s.work i = some t) : Step s (.work i) t := by
  unfold work at h
  split at h
  · next hi =>
    rw [← Option.some.inj h]
    cases hstop : s.stop i with
    | true => exact .ends hi hstop
    | false => exact .enters hi hstop
  · next hi =>
    obtain ⟨hfree, h⟩ := Option.ite_none_right_eq_some.1 h
    rw [← Option.some.inj h]
    exact .locks (Or.inl hi) hfree
  · next hi =>
    obtain ⟨hfree, h⟩ := Option.ite_none_right_eq_some.1 h
    rw [← Option.some.inj h]
    exact .locks (Or.inr hi) hfree
  · next hi =>
    rw [← Option.some.inj h]
    by_cases hpred : s.tasks ≠ [] ∨ s.stop i = true
    · rw [if_pos (by simpa using hpred)]
      exact .passes hi hpred
    · rw [if_neg (by simpa using hpred)]
      push Not at hpred
      exact .waits hi hpred.1 (by simpa using hpred.2)
  · next hi =>
    rw [← Option.some.inj h]
    exact .sleeps hi
  · next hi =>
    rw [← Option.some.inj h]
    cases hstop : s.stop i with
    | true => exact .breaks hi hstop
    | false => exact .continues hi hstop
  · next hi =>
    split at h
    · cases h
    · next task tasks htasks =>
      rw [← Option.some.inj h]
      exact .pops hi htasks
  · next task hi =>
    rw [← Option.some.inj h]
    exact .unlocks hi
  · next hi =>
    rw [← Option.some.inj h]
    exact .leaves hi
  · next task hi =>
    rw [← Option.some.inj h]
    exact .invokes hi
  · cases h
  · cases h
  · cases h

lemma step_of_call (h : s.call c = some t) : Step s (.call c) t := by
  unfold call at h
  split at h
  · next task hc =>
    obtain ⟨hfree, h⟩ := Option.ite_none_right_eq_some.1 h
    rw [← Option.some.inj h]
    exact .callerLocks hc hfree
  · next task hc =>
    rw [← Option.some.inj h]
    exact .pushes hc
  · next hc =>
    rw [← Option.some.inj h]
    exact .callerUnlocks hc
  · cases h
  · cases h

lemma step_of_eq_some (h : step s e = some t) : Step s e t := by
  cases e with
  | work i => exact step_of_work h
  | call c => exact step_of_call h
  | wakeUp i =>
    obtain ⟨hi, h⟩ := Option.ite_none_right_eq_some.1 h
    rw [← Option.some.inj h]
    exact .wakes (TWorker.isAsleep_iff.1 hi)
  | taskReturns i =>
    simp only [step] at h
    split at h
    · next task hi =>
      rw [← Option.some.inj h]
      exact .returns hi
    · cases h
  | taskThrows i =>
    simp only [step] at h
    split at h
    · next task hi =>
      rw [← Option.some.inj h]
      exact .throws hi
    · cases h
  | enqueue c task =>
    simp only [step] at h
    split at h
    · next hc hd =>
      rw [← Option.some.inj h]
      exact .enqueues hc hd
    · cases h
  | notifyOne c target =>
    simp only [step] at h
    split at h
    · next i hc =>
      obtain ⟨hi, h⟩ := Option.ite_none_right_eq_some.1 h
      rw [← Option.some.inj h]
      exact .notifies hc (TWorker.isAsleep_iff.1 hi)
    · next hc =>
      obtain ⟨hno, h⟩ := Option.ite_none_right_eq_some.1 h
      rw [← Option.some.inj h]
      refine .notifiesNobody hc fun i hi => ?_
      exact absurd ((hno i).symm.trans (TWorker.isAsleep_iff.2 hi)) (by simp)
    · cases h
  | destroy =>
    obtain ⟨hd, h⟩ := Option.ite_none_right_eq_some.1 h
    rw [← Option.some.inj h]
    exact .destroys hd
  | setStop =>
    simp only [step] at h
    split at h
    · next k hd =>
      split at h
      · next hk =>
        rw [← Option.some.inj h]
        exact .setsStop (k := ⟨k, hk⟩) hd
      · cases h
    · cases h
  | notifyAll =>
    obtain ⟨hd, h⟩ := Option.ite_none_right_eq_some.1 h
    rw [← Option.some.inj h]
    exact .notifiesAll hd
  | join =>
    simp only [step] at h
    split at h
    · next k hd =>
      split at h
      · next hk =>
        split at h
        · next hexited =>
          rw [← Option.some.inj h]
          exact .joins (k := ⟨k, hk⟩) hd hexited
        · cases h
      · cases h
    · cases h
  | finish =>
    obtain ⟨hd, h⟩ := Option.ite_none_right_eq_some.1 h
    rw [← Option.some.inj h]
    exact .finishes hd

/-- What holds at first and is preserved by every step holds wherever a run leads. -/
theorem holds_of_run {P : CThreadPool n τ → Prop} {es : List (TPoolEvent n τ)}
    (hrun : run {} es = some s) (hinit : P {}) (hstep : ∀ s e t, P s → Step s e t → P t) : P s := by
  have hpreserves : Lib.Preserves step (fun _ => True) P :=
    fun s e t h _ hs => hstep s e t h (step_of_eq_some hs)
  exact hpreserves.run hrun (fun _ _ => trivial) hinit

end CThreadPool

end OllamaMitm
