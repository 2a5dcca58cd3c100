import OllamaMitm.ThreadPool

/-!
# The tasks of the pool

Every task is run once, by the worker that popped it, and as long as the pool is not destroyed
there is no sleep on work: where tasks are queued, some worker is on its way to the queue, or a
caller will still notify.
-/

namespace OllamaMitm

open Lib

namespace TWorker

variable {τ : Type*} {w : TWorker τ} {tasks : List τ} {stop : Bool}

/-- What the worker knows about the queue and its stop flag, while it holds the lock. -/
def Knows (tasks : List τ) (stop : Bool) : TWorker τ → Prop
  | .proceeding => tasks ≠ [] ∨ stop = true
  | .popping => tasks ≠ []
  | .fallingAsleep => tasks = []
  | _ => True

/-- Without the lock the worker knows nothing. -/
lemma knows_of_not_holdsLock (h : w.holdsLock = false) : w.Knows tasks stop := by
  cases w <;> trivial

/-- A stop flag that is set takes no knowledge away. -/
lemma Knows.stopped (h : w.Knows tasks stop) : w.Knows tasks true := by
  cases w <;> first | exact h | exact Or.inr rfl

@[simp] lemma holdsLock_notified : w.notified.holdsLock = w.holdsLock := by
  cases w <;> rfl

@[simp] lemma hand_notified : w.notified.hand = w.hand := by
  cases w <;> rfl

lemma Knows.notified (h : w.Knows tasks stop) : w.notified.Knows tasks stop := by
  cases w <;> exact h

/-- The worker does not sleep, and it is not about to. -/
def Awake (w : TWorker τ) : Prop := w ≠ .fallingAsleep ∧ w ≠ .asleep

lemma Awake.notified (h : w.Awake) : w.notified.Awake := by
  cases w <;> simp_all [Awake, TWorker.notified]

/-- The worker has not left its loop. -/
def Loops (w : TWorker τ) : Prop := w ≠ .leaving ∧ w ≠ .exited

end TWorker

namespace CThreadPool

variable {n : ℕ} {τ : Type*} {s t : CThreadPool n τ} {e : TPoolEvent n τ}
variable {es : List (TPoolEvent n τ)} {i j : Fin n} {c : ℕ} {w : TWorker τ} {v : TCaller τ}
variable {p : Fin n ⊕ ℕ} {task : τ}

/-! ## The lock -/

/-- The worker or caller holds the lock. -/
def Holds (s : CThreadPool n τ) : Fin n ⊕ ℕ → Prop
  | .inl i => (s.threads i).holdsLock = true
  | .inr c => (s.callers c).holdsLock = true

/-- The lock has one owner at most, and what the workers know under it is so. -/
structure Guarded (s : CThreadPool n τ) : Prop where
  exclusive : Exclusive s.Holds s.queueMutex
  knows : ∀ i, (s.threads i).Knows s.tasks (s.stop i)

lemma guarded_init : Guarded ({} : CThreadPool n τ) where
  exclusive := by
    rintro (i | c)
    · simp [Holds, TWorker.holdsLock]
    · simp [Holds, TCaller.holdsLock]
  knows := fun _ => trivial

lemma holds_moveWorker_of_ne (h : p ≠ .inl i) : (s.moveWorker i w).Holds p ↔ s.Holds p := by
  cases p with
  | inl j =>
    have hj : j ≠ i := fun hj => h (by rw [hj])
    rw [Holds, threads_moveWorker_of_ne hj, Holds]
  | inr c => exact Iff.rfl

lemma holds_moveCaller_of_ne (h : p ≠ .inr c) : (s.moveCaller c v).Holds p ↔ s.Holds p := by
  cases p with
  | inl j => exact Iff.rfl
  | inr d =>
    have hd : d ≠ c := fun hd => h (by rw [hd])
    rw [Holds, callers_moveCaller_of_ne hd, Holds]

/-- The other workers know the same as before. -/
lemma Guarded.knows_moveWorker (h : s.Guarded) (hw : w.Knows s.tasks (s.stop i)) (j : Fin n) :
    ((s.moveWorker i w).threads j).Knows s.tasks (s.stop j) :=
  forall_moveWorker (P := fun j w => w.Knows s.tasks (s.stop j)) hw (fun j _ => h.knows j) j

/-- The worker moves and keeps the lock, or stays without it. -/
lemma Guarded.keep (h : s.Guarded) (hlock : w.holdsLock = (s.threads i).holdsLock)
    (hw : w.Knows s.tasks (s.stop i)) : (s.moveWorker i w).Guarded where
  exclusive := by
    refine h.exclusive.congr fun p => ?_
    by_cases hp : p = .inl i
    · subst hp
      rw [Holds, threads_moveWorker_self, hlock, Holds]
    · exact holds_moveWorker_of_ne hp
  knows := h.knows_moveWorker hw

/-- The worker takes the lock. -/
lemma Guarded.take (h : s.Guarded) (hfree : s.queueMutex = none) :
    Guarded { s.moveWorker i .checking with queueMutex := some (.inl i) } where
  exclusive := by
    have hex := h.exclusive
    rw [hfree] at hex
    refine hex.take (p := .inl i) ?_ fun p hp => holds_moveWorker_of_ne hp
    show ((s.moveWorker i .checking).threads i).holdsLock = true
    rw [threads_moveWorker_self]
    rfl
  knows := h.knows_moveWorker trivial

/-- The worker releases the lock. -/
lemma Guarded.release (h : s.Guarded) (hheld : (s.threads i).holdsLock = true)
    (hlock : w.holdsLock = false) : Guarded { s.moveWorker i w with queueMutex := none } where
  exclusive := by
    refine h.exclusive.release (p := .inl i) hheld ?_ fun p hp => holds_moveWorker_of_ne hp
    show ¬((s.moveWorker i w).threads i).holdsLock = true
    rw [threads_moveWorker_self, hlock]
    simp
  knows := h.knows_moveWorker (TWorker.knows_of_not_holdsLock hlock)

/-- A caller moves and keeps the lock, or stays without it. -/
lemma Guarded.keepCaller (h : s.Guarded) (hlock : v.holdsLock = (s.callers c).holdsLock) :
    (s.moveCaller c v).Guarded where
  exclusive := by
    refine h.exclusive.congr fun p => ?_
    by_cases hp : p = .inr c
    · subst hp
      rw [Holds, callers_moveCaller_self, hlock, Holds]
    · exact holds_moveCaller_of_ne hp
  knows := h.knows

/-- A caller takes the lock. -/
lemma Guarded.takeCaller (h : s.Guarded) (hfree : s.queueMutex = none) :
    Guarded { s.moveCaller c (.pushing task) with queueMutex := some (.inr c) } where
  exclusive := by
    have hex := h.exclusive
    rw [hfree] at hex
    refine hex.take (p := .inr c) ?_ fun p hp => holds_moveCaller_of_ne hp
    show ((s.moveCaller c (.pushing task)).callers c).holdsLock = true
    rw [callers_moveCaller_self]
    rfl
  knows := h.knows

/-- A caller releases the lock. -/
lemma Guarded.releaseCaller (h : s.Guarded) (hc : s.callers c = .unlocking) :
    Guarded { s.moveCaller c .notifying with queueMutex := none } where
  exclusive := by
    have hheld : (s.callers c).holdsLock = true := by rw [hc]; rfl
    refine h.exclusive.release (p := .inr c) hheld ?_
      fun p hp => holds_moveCaller_of_ne (s := s) (v := .notifying) hp
    show ¬((s.moveCaller c .notifying).callers c).holdsLock = true
    rw [callers_moveCaller_self]
    simp [TCaller.holdsLock]
  knows := h.knows

/-- Whoever holds the lock may change the queue. -/
lemma Guarded.knows_of_holds (h : s.Guarded) (hp : s.Holds p) (hj : p ≠ .inl j) (tasks : List τ) :
    (s.threads j).Knows tasks (s.stop j) := by
  refine TWorker.knows_of_not_holdsLock ?_
  by_contra hlock
  have hholds : s.Holds (.inl j) := by simpa [Holds] using hlock
  exact hj (h.exclusive.unique hp hholds)

/-- **The lock is kept by every step.** -/
theorem Guarded.step (h : s.Guarded) (hstep : Step s e t) : t.Guarded := by
  cases hstep with
  | enters hi | ends hi => exact h.keep (by rw [hi]; rfl) trivial
  | locks _ hfree => exact h.take hfree
  | passes hi hpred => exact h.keep (by rw [hi]; rfl) hpred
  | waits hi htasks => exact h.keep (by rw [hi]; rfl) htasks
  | sleeps hi | unlocks hi | leaves hi => exact h.release (by rw [hi]; rfl) rfl
  | @continues i hi hstop =>
    refine h.keep (by rw [hi]; rfl) ?_
    have hknows := h.knows i
    rw [hi, hstop] at hknows
    exact hknows.resolve_right (by simp)
  | breaks hi => exact h.keep (by rw [hi]; rfl) trivial
  | @pops i task tasks hi htasks =>
    have hheld : s.Holds (.inl i) := by rw [Holds, hi]; rfl
    have hkeep := h.keep (w := .unlocking task) (i := i) (by rw [hi]; rfl) trivial
    refine ⟨hkeep.exclusive,
      forall_moveWorker (P := fun j w => w.Knows tasks (s.stop j)) trivial ?_⟩
    exact fun j hj => h.knows_of_holds hheld (fun heq => hj (Sum.inl.inj heq).symm) tasks
  | @invokes i task hi =>
    have hkeep := h.keep (w := .running task) (i := i) (by rw [hi]; rfl) trivial
    exact ⟨hkeep.exclusive, hkeep.knows⟩
  | wakes hi | returns hi | throws hi => exact h.keep (by rw [hi]; rfl) trivial
  | enqueues hc => exact h.keepCaller (by rw [hc]; rfl)
  | callerLocks _ hfree => exact h.takeCaller hfree
  | @pushes c task hc =>
    have hheld : s.Holds (.inr c) := by rw [Holds, hc]; rfl
    have hkeep := h.keepCaller (v := .unlocking) (c := c) (by rw [hc]; rfl)
    exact ⟨hkeep.exclusive, fun j => h.knows_of_holds hheld (by simp) _⟩
  | callerUnlocks hc => exact h.releaseCaller hc
  | @notifies c i hc hi =>
    exact (h.keepCaller (v := .outside) (by rw [hc]; rfl)).keep
      (show TWorker.holdsLock .woken = (s.threads i).holdsLock by rw [hi]; rfl) trivial
  | notifiesNobody hc => exact h.keepCaller (by rw [hc]; rfl)
  | destroys | joins | finishes => exact ⟨h.exclusive, h.knows⟩
  | @setsStop k =>
    refine ⟨h.exclusive, fun j => ?_⟩
    by_cases hj : j = k
    · subst hj
      show (s.threads j).Knows s.tasks (Function.update s.stop j true j)
      rw [Function.update_self]
      exact (h.knows j).stopped
    · change (s.threads j).Knows s.tasks (Function.update s.stop k true j)
      rw [Function.update_of_ne hj]
      exact h.knows j
  | notifiesAll =>
    refine ⟨h.exclusive.congr fun p => ?_, fun j => (h.knows j).notified⟩
    cases p with
    | inl j =>
      show (s.threads j).notified.holdsLock = true ↔ _
      rw [TWorker.holdsLock_notified]
      rfl
    | inr c => exact Iff.rfl

/-! ## The books -/

/-- The tasks of one worker among the tasks of all. -/
def tasksBy (i : Fin n) (l : List (Fin n × τ)) : List τ := (l.filter (·.1 = i)).map Prod.snd

@[simp] lemma tasksBy_append_self (l : List (Fin n × τ)) :
    tasksBy i (l ++ [(i, task)]) = tasksBy i l ++ [task] := by
  simp [tasksBy]

lemma tasksBy_append_of_ne (h : j ≠ i) (l : List (Fin n × τ)) :
    tasksBy j (l ++ [(i, task)]) = tasksBy j l := by
  simp [tasksBy, Ne.symm h]

/-- What was queued, popped and invoked so far. -/
structure Books (s : CThreadPool n τ) : Prop where
  fifo : s.popped.map Prod.snd ++ s.tasks = s.queued
  once : ∀ i, tasksBy i s.popped = tasksBy i s.invoked ++ (s.threads i).hand

lemma books_init : Books ({} : CThreadPool n τ) := ⟨rfl, fun _ => rfl⟩

lemma hand_moveWorker (h : w.hand = (s.threads i).hand) (j : Fin n) :
    ((s.moveWorker i w).threads j).hand = (s.threads j).hand :=
  forall_moveWorker (P := fun j w => w.hand = (s.threads j).hand) h (fun _ _ => rfl) j

/-- A worker moves, with the same task in its hand. -/
lemma Books.move (h : s.Books) (hw : w.hand = (s.threads i).hand) : (s.moveWorker i w).Books where
  fifo := h.fifo
  once := fun j => (h.once j).trans (by rw [hand_moveWorker hw]; rfl)

/-- The mutex is not in the books. -/
lemma Books.withMutex (h : s.Books) {owner : Option (Fin n ⊕ ℕ)} :
    Books { s with queueMutex := owner } := ⟨h.fifo, h.once⟩

/-- **The books are kept by every step.** -/
theorem Books.step (h : s.Books) (hstep : Step s e t) : t.Books := by
  cases hstep with
  | enters hi | ends hi | passes hi | waits hi | continues hi | breaks hi | wakes hi | returns hi
  | throws hi => exact h.move (by rw [hi]; rfl)
  | locks hi => exact (h.move (by rcases hi with hi | hi <;> (rw [hi]; rfl))).withMutex
  | sleeps hi | unlocks hi | leaves hi => exact (h.move (by rw [hi]; rfl)).withMutex
  | @pops i task tasks hi htasks =>
    have honce := h.once i
    rw [hi] at honce
    refine ⟨?_, forall_moveWorker (P := fun j w =>
      tasksBy j (s.popped ++ [(i, task)]) = tasksBy j s.invoked ++ w.hand) ?_ fun j hj => ?_⟩
    · have hfifo := h.fifo
      rw [htasks] at hfifo
      simpa using hfifo
    · simpa [TWorker.hand] using honce
    · rw [tasksBy_append_of_ne hj, h.once j]
  | @invokes i task hi =>
    have honce := h.once i
    rw [hi] at honce
    refine ⟨h.fifo, forall_moveWorker (P := fun j w =>
      tasksBy j s.popped = tasksBy j (s.invoked ++ [(i, task)]) ++ w.hand) ?_ fun j hj => ?_⟩
    · simpa [TWorker.hand] using honce
    · rw [tasksBy_append_of_ne hj, h.once j]
  | @pushes c task hc =>
    refine ⟨?_, h.once⟩
    show s.popped.map Prod.snd ++ (s.tasks ++ [task]) = s.queued ++ [task]
    rw [← List.append_assoc, h.fifo]
  | @notifies c i hc hi =>
    have hmove := h.move (w := .woken) (i := i) (by rw [hi]; rfl)
    exact ⟨hmove.fifo, hmove.once⟩
  | enqueues | callerLocks | callerUnlocks | notifiesNobody | destroys | setsStop | joins
  | finishes => exact ⟨h.fifo, h.once⟩
  | notifiesAll =>
    refine ⟨h.fifo, fun i => (h.once i).trans ?_⟩
    rw [← TWorker.hand_notified]

/-! ## The worker and its task -/

/-- A worker that has left the lock invokes its task. -/
lemma exists_run_of_invoking (hi : s.threads i = .invoking task) :
    ∃ t, run s [.work i] = some t ∧ t.threads i = .running task ∧
      t.invoked = s.invoked ++ [(i, task)] := by
  refine ⟨{ s.moveWorker i (.running task) with invoked := s.invoked ++ [(i, task)] }, ?_, ?_, rfl⟩
  · refine run_cons_eq_some.2 ⟨_, ?_, rfl⟩
    simp only [step, work, hi]
  · exact threads_moveWorker_self

/-- A worker with a task in its hand gets to invoke it by itself. -/
lemma exists_run_invoked (h : task ∈ (s.threads i).hand) :
    ∃ k t, run s (List.replicate k (.work i)) = some t ∧ t.threads i = .running task ∧
      t.invoked = s.invoked ++ [(i, task)] := by
  cases hi : s.threads i with
  | unlocking nextTaskToExec =>
    obtain rfl : task = nextTaskToExec := by simpa [hi, TWorker.hand] using h
    obtain ⟨t, hrun, ht⟩ := exists_run_of_invoking
      (s := { s.moveWorker i (.invoking task) with queueMutex := none }) (i := i)
      threads_moveWorker_self
    refine ⟨2, t, run_cons_eq_some.2 ⟨_, ?_, hrun⟩, ht⟩
    simp only [step, work, hi]
  | invoking nextTaskToExec =>
    obtain rfl : task = nextTaskToExec := by simpa [hi, TWorker.hand] using h
    exact ⟨1, exists_run_of_invoking hi⟩
  | _ => simp [hi, TWorker.hand] at h

/-- The task in the hand of a worker is left to it. -/
lemma Step.hand_eq (h : Step s e t) (he : e ≠ .work i) :
    (t.threads i).hand = (s.threads i).hand := by
  cases h with
  | @enters j | @ends j | @locks j | @passes j | @waits j | @sleeps j | @continues j | @breaks j
  | @pops j | @unlocks j | @leaves j | @invokes j =>
    have hj : i ≠ j := fun hj => he (by rw [hj])
    exact congrArg TWorker.hand (threads_moveWorker_of_ne hj)
  | wakes hj | returns hj | throws hj => exact hand_moveWorker (by rw [hj]; rfl) i
  | @notifies c j hc hj =>
    exact hand_moveWorker (s := s.moveCaller c .outside) (by rw [threads_moveCaller, hj]; rfl) i
  | notifiesAll => exact TWorker.hand_notified
  | _ => rfl

/-! ## The tasks that wait -/

/-- A worker is awake, or a caller will still notify. -/
def Attended (s : CThreadPool n τ) : Prop :=
  (∃ i, (s.threads i).Awake) ∨ ∃ c, (s.callers c).owesNotification = true

/-- A caller moves that did not owe a notification. -/
lemma Attended.moveCaller (h : s.Attended) (hc : (s.callers c).owesNotification = false) :
    (s.moveCaller c v).Attended := by
  rcases h with hawake | ⟨d, hd⟩
  · exact Or.inl hawake
  · refine Or.inr ⟨d, ?_⟩
    have hne : d ≠ c := by
      rintro rfl
      rw [hc] at hd
      cases hd
    rwa [callers_moveCaller_of_ne hne]

/-- **Queued tasks are attended to**, step by step. -/
theorem attended_step (hn : 0 < n) (hguard : s.Guarded) (h : s.tasks ≠ [] → s.Attended)
    (hstep : Step s e t) : t.tasks ≠ [] → t.Attended := by
  cases hstep with
  | @enters i | @ends i | @locks i | @passes i | @continues i | @breaks i | @pops i | @unlocks i
  | @leaves i | @invokes i | @wakes i | @returns i | @throws i | @notifies c i =>
    -- the worker that moves is awake
    intro _
    exact Or.inl ⟨i, by simp [TWorker.Awake]⟩
  | waits hi htasks =>
    intro hne
    exact absurd htasks hne
  | @sleeps i hi =>
    -- it holds the lock since it has seen that the queue is empty
    intro hne
    have hempty := hguard.knows i
    rw [hi] at hempty
    exact absurd hempty hne
  | enqueues hc =>
    intro hne
    exact (h hne).moveCaller (by rw [hc]; rfl)
  | @callerLocks c task hc =>
    intro hne
    exact (h hne).moveCaller (v := .pushing task) (c := c) (by rw [hc]; rfl)
  | @pushes c | @callerUnlocks c =>
    intro _
    exact Or.inr ⟨c, by simp [TCaller.owesNotification]⟩
  | notifiesNobody hc hno =>
    -- the first worker does not sleep, and it is not falling asleep over a queued task
    intro hne
    refine Or.inl ⟨⟨0, hn⟩, ?_, hno _⟩
    intro hfalling
    have hempty := hguard.knows ⟨0, hn⟩
    rw [show s.threads ⟨0, hn⟩ = .fallingAsleep from hfalling] at hempty
    exact hne hempty
  | destroys | setsStop | joins | finishes => exact h
  | notifiesAll =>
    intro hne
    rcases h hne with ⟨i, hi⟩ | howes
    · exact Or.inl ⟨i, hi.notified⟩
    · exact Or.inr howes

/-! ## Before the destructor -/

/-- As long as the destructor is not called, nobody is told to stop and no worker ends. -/
structure Working (s : CThreadPool n τ) : Prop where
  stop : ∀ i, s.stop i = false
  threads : ∀ i, (s.threads i).Loops

lemma Working.move (h : s.Working) (hw : w.Loops) (j : Fin n) :
    ((s.moveWorker i w).threads j).Loops :=
  forall_moveWorker (P := fun _ w => w.Loops) hw (fun j _ => h.threads j) j

/-- The destructor was not called in a state that leads to one where it was not called. -/
lemma Step.outside (h : Step s e t) (hd : t.destructor = .outside) : s.destructor = .outside := by
  cases h with
  | destroys | setsStop | notifiesAll | joins | finishes => cases hd
  | _ => exact hd

lemma Working.step (h : s.Working) (hstep : Step s e t) (hd : t.destructor = .outside) :
    t.Working := by
  cases hstep with
  | enters | locks | passes | waits | sleeps | continues | pops | unlocks | invokes | wakes
  | returns | throws | notifies => exact ⟨h.stop, h.move (by simp [TWorker.Loops])⟩
  | @ends i _ hstop | @breaks i _ hstop => exact absurd ((h.stop i).symm.trans hstop) (by simp)
  | @leaves i hi => exact absurd hi (h.threads i).1
  | enqueues | callerLocks | pushes | callerUnlocks | notifiesNobody => exact ⟨h.stop, h.threads⟩
  | destroys | setsStop | notifiesAll | joins | finishes => cases hd

/-! ## Every run -/

lemma guarded_of_run (hrun : run {} es = some s) : s.Guarded :=
  holds_of_run hrun guarded_init fun _ _ _ h hstep => h.step hstep

lemma books_of_run (hrun : run {} es = some s) : s.Books :=
  holds_of_run hrun books_init fun _ _ _ h hstep => h.step hstep

lemma attended_of_run (hn : 0 < n) (hrun : run {} es = some s) : s.tasks ≠ [] → s.Attended := by
  have hboth : s.Guarded ∧ (s.tasks ≠ [] → s.Attended) := by
    refine holds_of_run (P := fun s => s.Guarded ∧ (s.tasks ≠ [] → s.Attended)) hrun
      ⟨guarded_init, fun h => absurd rfl h⟩ ?_
    intro s e t ⟨hguard, h⟩ hstep
    exact ⟨hguard.step hstep, attended_step hn hguard h hstep⟩
  exact hboth.2

lemma working_init : Working ({} : CThreadPool n τ) :=
  ⟨fun _ => rfl, fun _ => by simp [TWorker.Loops]⟩

lemma working_of_run (hrun : run {} es = some s) (hd : s.destructor = .outside) : s.Working := by
  refine holds_of_run (P := fun s => s.destructor = .outside → s.Working) hrun
    (fun _ => working_init) ?_ hd
  intro s e t h hstep hd
  exact (h (hstep.outside hd)).step hstep hd

/-- What holds of the tasks in a state before destruction. -/
structure RunsTasks (s : CThreadPool n τ) : Prop where
  /-- The tasks are popped in the order in which they were queued. -/
  fifo : s.popped.map Prod.snd ++ s.tasks = s.queued
  /-- That is the order in which the callers took the lock. -/
  lockOrder : ∀ c task, s.callers c = .pushing task → s.queueMutex = some (.inr c)
  /-- Each worker has invoked the tasks that it popped, once each, up to the one in its hand. -/
  once : ∀ i, tasksBy i s.popped = tasksBy i s.invoked ++ (s.threads i).hand
  /-- It gets to invoke that one by its own steps. -/
  invokes : ∀ i, ∀ task ∈ (s.threads i).hand, ∃ k t, run s (List.replicate k (.work i)) = some t ∧
    t.threads i = .running task ∧ t.invoked = s.invoked ++ [(i, task)]
  /-- No other step takes it away. -/
  keeps : ∀ i e t, e ≠ .work i → step s e = some t → (t.threads i).hand = (s.threads i).hand
  /-- No worker has left its loop. -/
  loops : ∀ i, (s.threads i).Loops
  /-- A task that throws takes its worker to the next round. -/
  catches : ∀ i task, s.threads i = .running task →
    ∃ t, run s [.taskThrows i, .work i] = some t ∧ t.threads i = .locking
  /-- Not everybody sleeps while a task is queued. -/
  attended : ¬(s.tasks ≠ [] ∧ (∀ i, s.threads i = .asleep) ∧
    ∀ c, (s.callers c).owesNotification = false)

/-- A worker whose task throws goes on with its loop. -/
lemma exists_run_of_throws (hi : s.threads i = .running task) (hstop : s.stop i = false) :
    ∃ t, run s [.taskThrows i, .work i] = some t ∧ t.threads i = .locking := by
  refine ⟨(s.moveWorker i .looping).moveWorker i .locking, ?_, threads_moveWorker_self⟩
  refine run_cons_eq_some.2 ⟨s.moveWorker i .looping, by simp only [step, hi], ?_⟩
  refine run_cons_eq_some.2 ⟨_, ?_, rfl⟩
  have hloop : (s.moveWorker i .looping).stop i = false := hstop
  simp [step, work, hloop]

/-- **Every task is run once, and there is no sleep on work.** -/
theorem runsTasks_of_run (hn : 0 < n) (hrun : run {} es = some s) (hd : s.destructor = .outside) :
    s.RunsTasks where
  fifo := (books_of_run hrun).fifo
  lockOrder := by
    intro c task hc
    exact ((guarded_of_run hrun).exclusive (.inr c)).1 (by rw [Holds, hc]; rfl)
  once := (books_of_run hrun).once
  invokes := fun _ _ => exists_run_invoked
  keeps := fun _ _ _ he hstep => (step_of_eq_some hstep).hand_eq he
  loops := (working_of_run hrun hd).threads
  catches := fun i _ hi => exists_run_of_throws hi ((working_of_run hrun hd).stop i)
  attended := by
    rintro ⟨hne, hasleep, hno⟩
    rcases attended_of_run hn hrun hne with ⟨i, hi⟩ | ⟨c, hc⟩
    · exact hi.2 (hasleep i)
    · exact absurd ((hno c).symm.trans hc) (by simp)

/-- The first of two workers sleeps, is woken for a task, and the task throws. -/
def wokenForTask : List (TPoolEvent 2 ℕ) :=
  List.replicate 4 (.work 0) ++
    [.enqueue 3 7, .call 3, .call 3, .call 3, .notifyOne 3 (some 0)] ++
    List.replicate 6 (.work 0) ++ [.taskThrows 0]

theorem runsTasks_of_run_wokenForTask :
    ∃ s, run {} wokenForTask = some s ∧ s.invoked = [(0, 7)] ∧ s.RunsTasks := by
  have hend : (run {} wokenForTask).map (fun s => (s.destructor, s.invoked)) =
      some (.outside, [(0, 7)]) := by
    decide
  obtain ⟨s, hrun, hs⟩ := Option.map_eq_some_iff.1 hend
  exact ⟨s, hrun, congrArg Prod.snd hs, runsTasks_of_run (by decide) hrun (congrArg Prod.fst hs)⟩

end CThreadPool

end OllamaMitm
