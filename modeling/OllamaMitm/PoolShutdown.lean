import Mathlib.Algebra.Order.BigOperators.Group.Finset
import OllamaMitm.PoolDestruction

/-!
# Where the pool comes to rest

The pool does not spin: the steps of a run are paid for by the tasks that were queued, by the
spurious wake-ups and by the destructor.  So it comes to rest, in three ways only.  Before the
destructor is called every task that was queued has been run, and all workers sleep.  Behind it
every worker has left its loop, and what was not popped is dropped; or the destructor waits for a
worker that was left asleep.  A worker that was told to stop begins one more task at most.
-/

namespace OllamaMitm

open Lib

namespace TWorker

variable {τ : Type*}

/-- The steps that a worker can make before it sleeps, as long as it finds no task. -/
def credit : TWorker τ → ℕ
  | .asleep | .exited => 0
  | .fallingAsleep | .leaving => 1
  | .popping => 2
  | .proceeding => 3
  | .checking => 4
  | .locking | .woken => 5
  | .looping => 6
  | .running _ => 7
  | .invoking _ => 8
  | .unlocking _ => 9

lemma credit_notified_le (w : TWorker τ) : w.notified.credit ≤ w.credit + 5 := by
  cases w <;> simp [credit, notified]

/-- The steps that remain to a worker that was told to stop. -/
def remaining : TWorker τ → ℕ
  | .exited => 0
  | .looping | .leaving => 1
  | .running _ | .proceeding => 2
  | .invoking _ | .checking => 3
  | .unlocking _ | .locking | .woken => 4
  | .popping | .asleep => 5
  | .fallingAsleep => 6

/-- The tasks that it will still begin. -/
def toBegin : TWorker τ → ℕ
  | .popping | .unlocking _ | .invoking _ => 1
  | _ => 0

lemma remaining_le (w : TWorker τ) : w.remaining ≤ 6 := by
  cases w <;> simp [remaining]

lemma toBegin_le (w : TWorker τ) : w.toBegin ≤ 1 := by
  cases w <;> simp [toBegin]

lemma remaining_notified_le (w : TWorker τ) : w.notified.remaining ≤ w.remaining := by
  cases w <;> simp [remaining, notified]

@[simp] lemma toBegin_notified (w : TWorker τ) : w.notified.toBegin = w.toBegin := by
  cases w <;> rfl

end TWorker

/-- The steps of the caller, with those of the worker that it wakes and of the task that it
queues. -/
def TCaller.credit {τ : Type*} : TCaller τ → ℕ
  | .outside => 0
  | .notifying => 6
  | .unlocking => 7
  | .pushing _ => 16
  | .locking _ => 17

namespace TDestructor

/-- The steps of the destructor, with those of the workers that it wakes. -/
def credit (n : ℕ) : TDestructor → ℕ
  | .outside | .done => 0
  | .setting k => (n - k) + 6 * n + 2
  | .joining k => (n - k) + 1

/-- The destructor is not past the last worker. -/
def Within (n : ℕ) : TDestructor → Prop
  | .setting k | .joining k => k ≤ n
  | .outside | .done => True

/-- The worker was joined. -/
def HasJoined (i : ℕ) : TDestructor → Prop
  | .joining k => i < k
  | .done => True
  | .outside | .setting _ => False

end TDestructor

namespace TPoolEvent

variable {n : ℕ} {τ : Type*}

/-- What a step brings in. -/
def price : TPoolEvent n τ → ℕ
  | .wakeUp _ => 6
  | .enqueue _ _ => 18
  | .destroy => 7 * n + 3
  | _ => 0

/-- The step is one that the threads make by themselves: it is no spurious wake-up, and nobody
calls `enqueue` or the destructor. -/
def Moves (e : TPoolEvent n τ) : Prop := e.price = 0

/-- The step is one of this worker. -/
def ofWorker (i : Fin n) : TPoolEvent n τ → Bool
  | .work j | .wakeUp j | .taskReturns j | .taskThrows j => decide (j = i)
  | _ => false

/-- Only the first callers call `enqueue`. -/
def CallerBelow (m : ℕ) (e : TPoolEvent n τ) : Prop := ∀ c task, e = .enqueue c task → c < m

end TPoolEvent

namespace CThreadPool

variable {n m : ℕ} {τ : Type*} {s t : CThreadPool n τ} {e : TPoolEvent n τ}
variable {es es' : List (TPoolEvent n τ)} {i j : Fin n} {c : ℕ} {w : TWorker τ} {v : TCaller τ}

/-! ## The steps of a run -/

/-- The steps of the workers. -/
def workersCredit (s : CThreadPool n τ) : ℕ := ∑ i, (s.threads i).credit

/-- The steps of the first callers. -/
def callersCredit (m : ℕ) (s : CThreadPool n τ) : ℕ :=
  ∑ c ∈ Finset.range m, (s.callers c).credit

/-- The steps that can be made before the pool comes to rest. -/
def potential (m : ℕ) (s : CThreadPool n τ) : ℕ :=
  s.workersCredit + s.callersCredit m + s.destructor.credit n + 8 * s.tasks.length

lemma workersCredit_moveWorker :
    (s.moveWorker i w).workersCredit + (s.threads i).credit = s.workersCredit + w.credit := by
  have hi : i ∈ Finset.univ := Finset.mem_univ i
  have hothers : ∑ j ∈ Finset.univ.erase i, ((s.moveWorker i w).threads j).credit =
      ∑ j ∈ Finset.univ.erase i, (s.threads j).credit := by
    refine Finset.sum_congr rfl fun j hj => ?_
    rw [threads_moveWorker_of_ne (Finset.ne_of_mem_erase hj)]
  have hs := Finset.add_sum_erase _ (fun j => (s.threads j).credit) hi
  have ht := Finset.add_sum_erase _ (fun j => ((s.moveWorker i w).threads j).credit) hi
  simp only [threads_moveWorker_self] at ht
  rw [workersCredit, workersCredit, ← hs, ← ht, hothers]
  omega

lemma callersCredit_moveCaller (hc : c < m) :
    (s.moveCaller c v).callersCredit m + (s.callers c).credit =
      s.callersCredit m + v.credit := by
  have hc := Finset.mem_range.2 hc
  have hothers : ∑ d ∈ (Finset.range m).erase c, ((s.moveCaller c v).callers d).credit =
      ∑ d ∈ (Finset.range m).erase c, (s.callers d).credit := by
    refine Finset.sum_congr rfl fun d hd => ?_
    rw [callers_moveCaller_of_ne (Finset.ne_of_mem_erase hd)]
  have hs := Finset.add_sum_erase _ (fun d => (s.callers d).credit) hc
  have ht := Finset.add_sum_erase _ (fun d => ((s.moveCaller c v).callers d).credit) hc
  simp only [callers_moveCaller_self] at ht
  rw [callersCredit, callersCredit, ← hs, ← ht, hothers]
  omega

lemma workersCredit_notified_le :
    ∑ i, (s.threads i).notified.credit ≤ s.workersCredit + 5 * n := by
  have hsum : ∑ i, (s.threads i).notified.credit ≤ ∑ i, ((s.threads i).credit + 5) :=
    Finset.sum_le_sum fun i _ => (s.threads i).credit_notified_le
  rw [Finset.sum_add_distrib, Finset.sum_const_nat (m := 5) (fun _ _ => rfl), Finset.card_univ,
    Fintype.card_fin] at hsum
  rw [workersCredit]
  omega

lemma potential_moveWorker :
    (s.moveWorker i w).potential m + (s.threads i).credit = s.potential m + w.credit := by
  have hw := workersCredit_moveWorker (s := s) (i := i) (w := w)
  show (s.moveWorker i w).workersCredit + s.callersCredit m + s.destructor.credit n +
    8 * s.tasks.length + _ = _
  rw [potential]
  omega

lemma potential_moveCaller (hc : c < m) :
    (s.moveCaller c v).potential m + (s.callers c).credit = s.potential m + v.credit := by
  have hv := callersCredit_moveCaller (s := s) (v := v) hc
  show s.workersCredit + (s.moveCaller c v).callersCredit m + s.destructor.credit n +
    8 * s.tasks.length + _ = _
  rw [potential]
  omega

/-- The worker goes on. -/
lemma potential_moveWorker_lt (hw : w.credit < (s.threads i).credit) :
    1 + (s.moveWorker i w).potential m ≤ s.potential m := by
  have hmove := potential_moveWorker (s := s) (i := i) (w := w) (m := m)
  omega

/-- The caller goes on. -/
lemma potential_moveCaller_lt (hc : c < m) (hv : v.credit < (s.callers c).credit) :
    1 + (s.moveCaller c v).potential m ≤ s.potential m := by
  have hmove := potential_moveCaller (s := s) (v := v) hc
  omega

/-- The callers past the first ones are outside. -/
def OutsideFrom (m : ℕ) (s : CThreadPool n τ) : Prop := ∀ c, m ≤ c → s.callers c = .outside

lemma OutsideFrom.lt (h : s.OutsideFrom m) (hc : s.callers c ≠ .outside) : c < m := by
  by_contra hle
  exact hc (h c (Nat.le_of_not_lt hle))

/-- **Every step is paid for.** -/
theorem potential_step (h : s.OutsideFrom m) (he : e.CallerBelow m) (hstep : Step s e t) :
    1 + t.potential m ≤ s.potential m + e.price := by
  cases hstep with
  | enters hi | ends hi | passes hi | waits hi | sleeps hi | continues hi | breaks hi | unlocks hi
  | leaves hi | invokes hi | returns hi | throws hi =>
    exact potential_moveWorker_lt (by simp [hi, TWorker.credit])
  | locks hi =>
    exact potential_moveWorker_lt (by rcases hi with hi | hi <;> simp [hi, TWorker.credit])
  | @pops i task tasks hi htasks =>
    -- the task that is taken pays for the way through it and back to the queue
    have hw := workersCredit_moveWorker (s := s) (i := i) (w := .unlocking task)
    show 1 + ((s.moveWorker i (.unlocking task)).workersCredit + s.callersCredit m +
      s.destructor.credit n + 8 * tasks.length) ≤ _
    simp only [hi, TWorker.credit] at hw
    rw [potential, htasks, List.length_cons]
    omega
  | @wakes i hi =>
    have hmove := potential_moveWorker (s := s) (i := i) (w := .woken) (m := m)
    simp only [hi, TWorker.credit, TPoolEvent.price] at hmove ⊢
    omega
  | @enqueues c task hc =>
    have hmove := potential_moveCaller (s := s) (v := .locking task) (he c task rfl)
    simp only [hc, TCaller.credit, TPoolEvent.price] at hmove ⊢
    omega
  | @callerLocks c task hc =>
    have hcall := potential_moveCaller_lt (s := s) (v := .pushing task)
      (h.lt (c := c) (by simp [hc])) (by simp [hc, TCaller.credit])
    exact hcall
  | @callerUnlocks c hc =>
    have hcall := potential_moveCaller_lt (s := s) (v := .notifying)
      (h.lt (c := c) (by simp [hc])) (by simp [hc, TCaller.credit])
    exact hcall
  | @notifiesNobody c hc =>
    have hcall := potential_moveCaller_lt (s := s) (v := .outside)
      (h.lt (c := c) (by simp [hc])) (by simp [hc, TCaller.credit])
    exact hcall
  | @pushes c task hc =>
    have hv := callersCredit_moveCaller (s := s) (v := .unlocking) (h.lt (c := c) (by simp [hc]))
    show 1 + (s.workersCredit + (s.moveCaller c .unlocking).callersCredit m +
      s.destructor.credit n + 8 * (s.tasks ++ [task]).length) ≤ _
    simp only [hc, TCaller.credit] at hv
    rw [potential, List.length_append, List.length_singleton]
    omega
  | @notifies c i hc hi =>
    have hcall := potential_moveCaller (s := s) (v := .outside) (h.lt (c := c) (by simp [hc]))
    have hwake := potential_moveWorker (s := s.moveCaller c .outside) (i := i) (w := .woken)
      (m := m)
    simp only [hc, hi, threads_moveCaller, TCaller.credit, TWorker.credit,
      TPoolEvent.price] at hcall hwake ⊢
    omega
  | destroys hd =>
    show 1 + (s.workersCredit + s.callersCredit m + ((n - 0) + 6 * n + 2) + 8 * s.tasks.length) ≤
      s.potential m + (7 * n + 3)
    rw [potential]
    omega
  | @setsStop k hd =>
    have hk := k.isLt
    show 1 + (s.workersCredit + s.callersCredit m + ((n - (k.val + 1)) + 6 * n + 2) +
      8 * s.tasks.length) ≤ s.potential m
    rw [potential, hd, TDestructor.credit]
    omega
  | notifiesAll hd =>
    have hwake := s.workersCredit_notified_le
    show 1 + (∑ i, (s.threads i).notified.credit + s.callersCredit m + ((n - 0) + 1) +
      8 * s.tasks.length) ≤ s.potential m
    rw [potential, hd, TDestructor.credit]
    omega
  | @joins k hd =>
    have hk := k.isLt
    show 1 + (s.workersCredit + s.callersCredit m + ((n - (k.val + 1)) + 1) +
      8 * s.tasks.length) ≤ s.potential m
    rw [potential, hd, TDestructor.credit]
    omega
  | finishes hd =>
    show 1 + (s.workersCredit + s.callersCredit m + 0 + 8 * s.tasks.length) ≤ s.potential m
    rw [potential, hd, TDestructor.credit]
    omega

lemma OutsideFrom.moveCaller (h : s.OutsideFrom m) (hc : c < m) :
    (s.moveCaller c v).OutsideFrom m := by
  intro d hd
  rw [callers_moveCaller_of_ne (by omega), h d hd]

lemma OutsideFrom.step (h : s.OutsideFrom m) (he : e.CallerBelow m) (hstep : Step s e t) :
    t.OutsideFrom m := by
  cases hstep with
  | @enqueues c task => exact h.moveCaller (he c task rfl)
  | callerLocks hc | pushes hc | callerUnlocks hc | notifies hc | notifiesNobody hc =>
    exact h.moveCaller (h.lt (by simp [hc]))
  | _ => exact h

lemma exists_callerBelow (es : List (TPoolEvent n τ)) : ∃ m, ∀ e ∈ es, e.CallerBelow m := by
  induction es with
  | nil => exact ⟨0, by simp⟩
  | cons e es ih =>
    obtain ⟨m, hm⟩ := ih
    obtain ⟨k, hk⟩ : ∃ k, e.CallerBelow k := by
      cases e with
      | enqueue c task => exact ⟨c + 1, fun d _ hd => by cases hd; omega⟩
      | _ => exact ⟨0, fun _ _ h => by cases h⟩
    refine ⟨max m k, ?_⟩
    intro f hf c task heq
    rcases List.mem_cons.1 hf with rfl | hf
    · exact lt_max_of_lt_right (hk c task heq)
    · exact lt_max_of_lt_left (hm f hf c task heq)

lemma potential_init : potential m ({} : CThreadPool n τ) = 6 * n := by
  have hworkers : ∑ i : Fin n, (({} : CThreadPool n τ).threads i).credit = n * 6 := by
    refine (Finset.sum_const_nat fun _ _ => rfl).trans ?_
    rw [Finset.card_univ, Fintype.card_fin]
  have hcallers : ∑ c ∈ Finset.range m, (({} : CThreadPool n τ).callers c).credit = 0 :=
    Finset.sum_eq_zero fun _ _ => rfl
  rw [potential, workersCredit, callersCredit, hworkers, hcallers]
  show n * 6 + 0 + 0 + 0 = 6 * n
  omega

/-- **The pool does not spin.** -/
theorem length_run_le (hrun : run {} es = some s) :
    es.length ≤ 6 * n + (es.map TPoolEvent.price).sum := by
  obtain ⟨m, hm⟩ := exists_callerBelow es
  have hpreserves : Preserves (@step n τ) (TPoolEvent.CallerBelow m) (OutsideFrom m) :=
    fun _ _ _ h he hstep => h.step he (step_of_eq_some hstep)
  have hstep : ∀ (s : CThreadPool n τ) e t, s.OutsideFrom m → e.CallerBelow m →
      step s e = some t → 1 + t.potential m ≤ s.potential m + e.price :=
    fun _ _ _ h he hstep => potential_step h he (step_of_eq_some hstep)
  have hcost := hpreserves.potential hstep hrun hm fun _ _ => rfl
  rw [potential_init, List.map_const', List.sum_replicate_nat, Nat.mul_one] at hcost
  omega

/-! ## The worker that was told to stop -/

/-- The stop flag stays set. -/
lemma Step.stop (hstep : Step s e t) (hi : s.stop i = true) : t.stop i = true := by
  cases hstep with
  | @setsStop k =>
    show Function.update s.stop k true i = true
    by_cases hik : i = k
    · rw [hik, Function.update_self]
    · rw [Function.update_of_ne hik, hi]
  | _ => exact hi

/-- A worker moves, and if it is this one, its steps are counted down. -/
lemma remaining_moveWorker (hw : j = i → w.remaining < (s.threads j).remaining) :
    (decide (j = i)).toNat + ((s.moveWorker j w).threads i).remaining ≤
      (s.threads i).remaining := by
  by_cases hj : j = i
  · subst hj
    have hlt := hw rfl
    rw [threads_moveWorker_self, decide_eq_true rfl, Bool.toNat_true]
    omega
  · rw [threads_moveWorker_of_ne (Ne.symm hj), decide_eq_false hj, Bool.toNat_false, Nat.zero_add]

/-- **A worker that was told to stop counts down.** -/
theorem Step.remaining (hstep : Step s e t) (hi : s.stop i = true) :
    (e.ofWorker i).toNat + (t.threads i).remaining ≤ (s.threads i).remaining := by
  cases hstep with
  | @enters j _ hstop | @waits j _ _ hstop | @continues j _ hstop =>
    -- the flag of the worker is not set
    refine remaining_moveWorker ?_
    rintro rfl
    exact absurd (hi.symm.trans hstop) (by simp)
  | @ends j hj | @passes j hj | @sleeps j hj | @breaks j hj | @pops j _ _ hj | @unlocks j _ hj
  | @leaves j hj | @invokes j _ hj | @wakes j hj | @returns j _ hj | @throws j _ hj =>
    exact remaining_moveWorker fun _ => by simp [hj, TWorker.remaining]
  | @locks j hj =>
    refine remaining_moveWorker fun _ => ?_
    rcases hj with hj | hj <;> simp [hj, TWorker.remaining]
  | @notifies c j hc hj =>
    have hmove := remaining_moveWorker (s := s.moveCaller c .outside) (w := .woken) (i := i)
      fun _ => show _ < (s.threads j).remaining by simp [hj, TWorker.remaining]
    exact (Nat.add_le_add_right (Nat.zero_le _) _).trans hmove
  | notifiesAll =>
    show 0 + (s.threads i).notified.remaining ≤ _
    rw [Nat.zero_add]
    exact (s.threads i).remaining_notified_le
  | _ => exact (Nat.zero_add _).le

/-- A worker moves, and if it is this one, it does not come closer to a task. -/
lemma toBegin_moveWorker (hw : j = i → w.toBegin ≤ (s.threads j).toBegin) :
    ((s.moveWorker j w).threads i).toBegin ≤ (s.threads i).toBegin := by
  by_cases hj : j = i
  · subst hj
    rw [threads_moveWorker_self]
    exact hw rfl
  · rw [threads_moveWorker_of_ne (Ne.symm hj)]

/-- The tasks that the worker has begun, with the one that it is about to begin. -/
def begun (i : Fin n) (s : CThreadPool n τ) : ℕ :=
  (tasksBy i s.invoked).length + (s.threads i).toBegin

/-- **A worker that was told to stop goes to no further task.** -/
theorem Step.begun (hstep : Step s e t) (hi : s.stop i = true) : t.begun i ≤ s.begun i := by
  cases hstep with
  | @continues j _ hstop =>
    -- the flag of the worker is not set
    refine Nat.add_le_add_left (toBegin_moveWorker ?_) _
    rintro rfl
    exact absurd (hi.symm.trans hstop) (by simp)
  | @enters j hj | @ends j hj | @passes j hj | @waits j hj | @sleeps j hj | @breaks j hj
  | @pops j _ _ hj | @unlocks j _ hj | @leaves j hj | @wakes j hj | @returns j _ hj
  | @throws j _ hj =>
    exact Nat.add_le_add_left (toBegin_moveWorker fun _ => by simp [hj, TWorker.toBegin]) _
  | @locks j hj =>
    refine Nat.add_le_add_left (toBegin_moveWorker fun _ => ?_) _
    simp [TWorker.toBegin]
  | @invokes j task hj =>
    by_cases hij : i = j
    · subst hij
      show (tasksBy i (s.invoked ++ [(i, task)])).length +
        ((s.moveWorker i (.running task)).threads i).toBegin ≤ _
      rw [tasksBy_append_self, threads_moveWorker_self, List.length_append, CThreadPool.begun, hj]
      exact Nat.le_refl _
    · show (tasksBy i (s.invoked ++ [(j, task)])).length +
        ((s.moveWorker j (.running task)).threads i).toBegin ≤ _
      rw [tasksBy_append_of_ne hij, threads_moveWorker_of_ne hij]
      exact Nat.le_refl _
  | @notifies c j hc hj =>
    refine Nat.add_le_add_left (toBegin_moveWorker (s := s.moveCaller c .outside) fun _ => ?_) _
    simp [TWorker.toBegin]
  | notifiesAll =>
    refine Nat.add_le_add_left (Nat.le_of_eq ?_) _
    exact (s.threads i).toBegin_notified
  | _ => exact Nat.le_refl _

lemma preserves_stop : Preserves (@step n τ) (fun _ => True) (·.stop i = true) :=
  fun _ _ _ hi _ hstep => (step_of_eq_some hstep).stop hi

/-- **A worker that was told to stop makes a few more steps**, and begins one more task at most. -/
theorem stopped_run (hi : s.stop i = true) (hrun : run s es = some t) :
    es.countP (TPoolEvent.ofWorker i) ≤ 6 ∧
      (tasksBy i t.invoked).length ≤ (tasksBy i s.invoked).length + 1 := by
  have hsteps : es.countP (TPoolEvent.ofWorker i) + (t.threads i).remaining ≤
      (s.threads i).remaining := preserves_stop.countP_le
    (fun _ _ _ hi _ hstep => (step_of_eq_some hstep).remaining hi) hrun (fun _ _ => trivial) hi
  have hbegun : t.stop i = true ∧ t.begun i ≤ s.begun i := by
    have hpreserves : Preserves (@step n τ) (fun _ => True)
        fun u => u.stop i = true ∧ u.begun i ≤ s.begun i := by
      intro u e v ⟨hu, hle⟩ _ hstep
      have hstep := step_of_eq_some hstep
      exact ⟨hstep.stop hu, (hstep.begun hu).trans hle⟩
    exact hpreserves.run hrun (fun _ _ => trivial) ⟨hi, Nat.le_refl _⟩
  have hremaining := (s.threads i).remaining_le
  have htoBegin := (s.threads i).toBegin_le
  have hle := hbegun.2
  rw [begun, begun] at hle
  exact ⟨by omega, by omega⟩

/-- The worker has passed its flag and is about to pop the first of two tasks when the flag is
set. -/
def stoppedPopping (i : Fin n) : List (TPoolEvent n ℕ) :=
  [.enqueue 3 7, .call 3, .call 3, .call 3, .enqueue 4 8, .call 4, .call 4, .call 4] ++
    List.replicate 4 (.work i) ++ [.destroy, .setStop]

/-- It runs this task and leaves. -/
def runsAndLeaves (i : Fin n) : List (TPoolEvent n ℕ) :=
  List.replicate 3 (.work i) ++ [.taskReturns i, .work i]

theorem stopped_run_stoppedPopping :
    ∃ s t, run {} (stoppedPopping (0 : Fin 1)) = some s ∧ run s (runsAndLeaves 0) = some t ∧
      t.invoked = [(0, 7)] ∧ (runsAndLeaves 0).countP (TPoolEvent.ofWorker (0 : Fin 1)) ≤ 6 ∧
      (tasksBy 0 t.invoked).length ≤ (tasksBy 0 s.invoked).length + 1 := by
  have hstop : (run {} (stoppedPopping (0 : Fin 1))).map (fun s => s.stop 0) = some true := by
    decide
  have hend : (run {} (stoppedPopping (0 : Fin 1) ++ runsAndLeaves 0)).map (·.invoked)
      = some [(0, 7)] := by
    decide
  obtain ⟨t, hrun, ht⟩ := Option.map_eq_some_iff.1 hend
  obtain ⟨s, hs, hrest⟩ := run_append_eq_some.1 hrun
  rw [show run {} (stoppedPopping 0) = some s from hs] at hstop
  exact ⟨s, t, hs, hrest, ht, stopped_run (Option.some.inj hstop) hrest⟩

/-! ## The destructor -/

/-- A worker that has left its loop stays there. -/
lemma Step.exited (hstep : Step s e t) (hi : s.threads i = .exited) : t.threads i = .exited := by
  have hother {j : Fin n} (hj : s.threads j ≠ .exited) : i ≠ j := by
    rintro rfl
    exact hj hi
  cases hstep with
  | enters hj | ends hj | passes hj | waits hj | sleeps hj | continues hj | breaks hj | pops hj
  | unlocks hj | leaves hj | invokes hj | wakes hj | returns hj | throws hj | notifies _ hj =>
    exact (threads_moveWorker_of_ne (hother (by simp [hj]))).trans hi
  | locks hj =>
    exact (threads_moveWorker_of_ne (hother (by rcases hj with hj | hj <;> simp [hj]))).trans hi
  | notifiesAll =>
    show (s.threads i).notified = .exited
    rw [hi]
    rfl
  | _ => exact hi

/-- The destructor has joined the workers that it is past. -/
structure Joins (s : CThreadPool n τ) : Prop where
  within : s.destructor.Within n
  exited : ∀ i : Fin n, s.destructor.HasJoined i → s.threads i = .exited

lemma joins_init : Joins ({} : CThreadPool n τ) := ⟨trivial, fun _ h => h.elim⟩

lemma Joins.step (h : s.Joins) (hstep : Step s e t) : t.Joins := by
  have hexited (i : Fin n) (hi : s.destructor.HasJoined i) : t.threads i = .exited :=
    hstep.exited (h.exited i hi)
  have hwithin := h.within
  cases hstep with
  | destroys => exact ⟨Nat.zero_le n, fun _ hi => hi.elim⟩
  | @setsStop k => exact ⟨k.isLt, fun _ hi => hi.elim⟩
  | notifiesAll => exact ⟨Nat.zero_le n, fun i hi => absurd hi (Nat.not_lt_zero _)⟩
  | @joins k hd hk =>
    refine ⟨k.isLt, ?_⟩
    intro i hi
    rcases Nat.lt_succ_iff_lt_or_eq.1 hi with hlt | heq
    · exact hexited i (by rw [hd]; exact hlt)
    · rw [Fin.ext heq]
      exact hk
  | finishes hd => exact ⟨trivial, fun i _ => hexited i (by rw [hd]; exact i.isLt)⟩
  | _ => exact ⟨hwithin, hexited⟩

lemma joins_of_run (hrun : run {} es = some s) : s.Joins :=
  holds_of_run hrun joins_init fun _ _ _ h hstep => h.step hstep

/-! ## At rest -/

/-- Nobody can make a step by himself. -/
def Still (s : CThreadPool n τ) : Prop := ∀ e : TPoolEvent n τ, e.Moves → step s e = none

/-- The lock is free at rest: whoever holds it goes on. -/
lemma Still.queueMutex (h : s.Still) (hguard : s.Guarded) : s.queueMutex = none := by
  cases howner : s.queueMutex with
  | none => rfl
  | some p =>
    have hholds : s.Holds p := (hguard.exclusive p).2 howner
    cases p with
    | inl i =>
      have hwork : s.work i = none := h (.work i) rfl
      have hknows := hguard.knows i
      cases hi : s.threads i with
      | checking | fallingAsleep | proceeding | unlocking | leaving => simp [work, hi] at hwork
      | popping =>
        -- it has seen a task
        rw [hi] at hknows
        obtain ⟨task, tasks, htasks⟩ := List.exists_cons_of_ne_nil hknows
        simp [work, hi, htasks] at hwork
      | _ => simp [Holds, hi, TWorker.holdsLock] at hholds
    | inr c =>
      have hcall : s.call c = none := h (.call c) rfl
      cases hc : s.callers c with
      | pushing | unlocking => simp [call, hc] at hcall
      | _ => simp [Holds, hc, TCaller.holdsLock] at hholds

/-- At rest a worker sleeps or has left its loop. -/
lemma Still.threads (h : s.Still) (hguard : s.Guarded) (i : Fin n) :
    s.threads i = .asleep ∨ s.threads i = .exited := by
  have hfree := h.queueMutex hguard
  have hwork : s.work i = none := h (.work i) rfl
  have hlock : (s.threads i).holdsLock = false := by
    by_contra hholds
    have howner := (hguard.exclusive (.inl i)).1 (by simpa [Holds] using hholds)
    simp [hfree] at howner
  cases hi : s.threads i with
  | asleep => exact Or.inl rfl
  | exited => exact Or.inr rfl
  | looping | locking | woken | invoking => simp [work, hi, hfree] at hwork
  | running =>
    have hreturns : s.step (.taskReturns i) = none := h (.taskReturns i) rfl
    simp [CThreadPool.step, hi] at hreturns
  | _ => simp [hi, TWorker.holdsLock] at hlock

/-- At rest nobody is in `enqueue`. -/
lemma Still.callers (h : s.Still) (hguard : s.Guarded) (c : ℕ) : s.callers c = .outside := by
  have hfree := h.queueMutex hguard
  have hcall : s.call c = none := h (.call c) rfl
  cases hc : s.callers c with
  | outside => rfl
  | locking | pushing | unlocking => simp [call, hc, hfree] at hcall
  | notifying =>
    by_cases hsleeps : ∃ i, s.threads i = .asleep
    · obtain ⟨i, hi⟩ := hsleeps
      have hnotify : s.step (.notifyOne c (some i)) = none := h (.notifyOne c (some i)) rfl
      simp [CThreadPool.step, hc, hi] at hnotify
    · have hnotify : s.step (.notifyOne c none) = none := h (.notifyOne c none) rfl
      have hawake : ∀ i, (s.threads i).isAsleep = false := fun i =>
        Bool.eq_false_iff.2 fun hi => hsleeps ⟨i, TWorker.isAsleep_iff.1 hi⟩
      simp [CThreadPool.step, hc, hawake] at hnotify

/-- At rest the destructor was not called, has returned, or waits for a worker that sleeps. -/
lemma Still.destructor (h : s.Still) (hguard : s.Guarded) (hjoins : s.Joins) :
    s.destructor = .outside ∨ s.destructor = .done ∨
      ∃ k : Fin n, s.destructor = .joining k ∧ s.threads k = .asleep := by
  have hwithin := hjoins.within
  cases hd : s.destructor with
  | outside => exact Or.inl rfl
  | done => exact Or.inr (Or.inl rfl)
  | setting k =>
    rw [hd] at hwithin
    rcases Nat.lt_or_eq_of_le hwithin with hk | rfl
    · have hset : s.step .setStop = none := h .setStop rfl
      simp [CThreadPool.step, hd, hk] at hset
    · have hnotify : s.step .notifyAll = none := h .notifyAll rfl
      simp [CThreadPool.step, hd] at hnotify
  | joining k =>
    rw [hd] at hwithin
    rcases Nat.lt_or_eq_of_le hwithin with hk | rfl
    · rcases h.threads hguard ⟨k, hk⟩ with hasleep | hexited
      · exact Or.inr (Or.inr ⟨⟨k, hk⟩, rfl, hasleep⟩)
      · have hjoin : s.step .join = none := h .join rfl
        simp [CThreadPool.step, hd, hk, hexited] at hjoin
    · have hfinish : s.step .finish = none := h .finish rfl
      simp [CThreadPool.step, hd] at hfinish

/-- Every task that was queued has been run, and the workers wait for more. -/
structure Idle (s : CThreadPool n τ) : Prop where
  destructor : s.destructor = .outside
  threads : ∀ i, s.threads i = .asleep
  tasks : s.tasks = []
  queued : s.popped.map Prod.snd = s.queued
  invoked : ∀ i, tasksBy i s.invoked = tasksBy i s.popped

/-- The pool is gone: every task that was popped has been run, and the others are dropped. -/
structure Destroyed (s : CThreadPool n τ) : Prop where
  destructor : s.destructor = .done
  threads : ∀ i, s.threads i = .exited
  queued : s.popped.map Prod.snd ++ s.tasks = s.queued
  invoked : ∀ i, tasksBy i s.invoked = tasksBy i s.popped

/-- At rest no worker has a task in its hand. -/
lemma Still.invoked (h : s.Still) (hguard : s.Guarded) (hbooks : s.Books) (i : Fin n) :
    tasksBy i s.invoked = tasksBy i s.popped := by
  have hhand : (s.threads i).hand = [] := by
    rcases h.threads hguard i with hi | hi <;> (rw [hi]; rfl)
  rw [hbooks.once i, hhand, List.append_nil]

lemma Still.idle (h : s.Still) (hn : 0 < n) (hrun : run {} es = some s)
    (hd : s.destructor = .outside) : s.Idle := by
  have hguard := guarded_of_run hrun
  have hbooks := books_of_run hrun
  have hasleep (i : Fin n) : s.threads i = .asleep :=
    (h.threads hguard i).resolve_right ((working_of_run hrun hd).threads i).2
  have htasks : s.tasks = [] := by
    by_contra hne
    rcases attended_of_run hn hrun hne with ⟨i, hawake⟩ | ⟨c, howes⟩
    · exact hawake.2 (hasleep i)
    · simp [h.callers hguard c, TCaller.owesNotification] at howes
  refine ⟨hd, hasleep, htasks, ?_, h.invoked hguard hbooks⟩
  rw [← hbooks.fifo, htasks, List.append_nil]

/-- The moves of the threads lead to rest. -/
lemma exists_still (hrun : run {} es = some s) :
    ∃ es' t, (∀ e ∈ es', e.Moves) ∧ run s es' = some t ∧ t.Still := by
  obtain ⟨m, hm⟩ := exists_outside_of_run hrun
  have hbelow {e : TPoolEvent n τ} (he : e.Moves) : e.CallerBelow m := by
    rintro c task rfl
    exact absurd he (by simp [TPoolEvent.Moves, TPoolEvent.price])
  have hpreserves : Preserves (@step n τ) TPoolEvent.Moves (OutsideFrom m) :=
    fun _ _ _ h he hstep => h.step (hbelow he) (step_of_eq_some hstep)
  have hstep : ∀ (s : CThreadPool n τ) e t, s.OutsideFrom m → e.Moves →
      step s e = some t → t.potential m < s.potential m := by
    intro s e t h he hstep
    have hpaid := potential_step h (hbelow he) (step_of_eq_some hstep)
    rw [show e.price = 0 from he] at hpaid
    omega
  exact hpreserves.exists_rest hstep hm

/-- **The pool comes to rest, and in three ways only**: it has run every task that was queued; or
it is gone, and has run every task that was popped; or the destructor waits for a worker that was
left asleep. -/
theorem comesToRest (hn : 0 < n) (hrun : run {} es = some s) :
    es.length ≤ 6 * n + (es.map TPoolEvent.price).sum ∧
      (∃ es' t, (∀ e ∈ es', e.Moves) ∧ run s es' = some t ∧ t.Still) ∧
      (s.Still → s.Idle ∨ s.Destroyed ∨ ∃ i, s.stop i = true ∧ s.Stuck i) := by
  refine ⟨length_run_le hrun, exists_still hrun, ?_⟩
  intro h
  have hguard := guarded_of_run hrun
  have hbooks := books_of_run hrun
  have hjoins := joins_of_run hrun
  rcases h.destructor hguard hjoins with hd | hd | ⟨k, hd, hk⟩
  · exact Or.inl (h.idle hn hrun hd)
  · refine Or.inr (Or.inl ⟨hd, ?_, hbooks.fifo, h.invoked hguard hbooks⟩)
    intro i
    exact hjoins.exited i (by rw [hd]; trivial)
  · refine Or.inr (Or.inr ⟨k, ?_, hk, h.callers hguard, k, Nat.le_refl _, hd⟩)
    exact (told_of_run hrun).notified (by rw [hd]; trivial) k

/-- The only worker sleeps, runs one task, and sleeps again. -/
def oneTask (i : Fin n) : List (TPoolEvent n ℕ) :=
  List.replicate 4 (.work i) ++
    [.enqueue 3 7, .call 3, .call 3, .call 3, .notifyOne 3 (some i)] ++
    List.replicate 6 (.work i) ++ [.taskReturns i] ++ List.replicate 4 (.work i)

theorem comesToRest_oneTask :
    (oneTask (0 : Fin 1)).length ≤ 24 ∧ ∃ s, run {} (oneTask (0 : Fin 1)) = some s ∧
      s.invoked = [(0, 7)] ∧
      (s.Still → s.Idle ∨ s.Destroyed ∨ ∃ i, s.stop i = true ∧ s.Stuck i) := by
  have hend : (run {} (oneTask (0 : Fin 1))).map (·.invoked) = some [(0, 7)] := by decide
  obtain ⟨s, hrun, hs⟩ := Option.map_eq_some_iff.1 hend
  obtain ⟨hlength, -, hrest⟩ := comesToRest (by decide) hrun
  exact ⟨hlength, s, hrun, hs, hrest⟩

end CThreadPool

end OllamaMitm
