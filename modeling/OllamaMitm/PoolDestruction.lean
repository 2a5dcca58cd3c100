import OllamaMitm.PoolTasks

/-!
# The destruction of the pool

The destructor sets the stop flags without the lock.  A worker that found its predicate false
before, and that is not asleep yet when `notify_all` is called, misses the notification and sleeps
on; the destructor then waits for it in `join`.  A worker that is anywhere else is reached.
-/

namespace OllamaMitm

open Lib

/-- The destructor is behind `notify_all`. -/
def TDestructor.Notified : TDestructor → Prop
  | .joining _ | .done => True
  | .outside | .setting _ => False

namespace TWorker

variable {τ : Type*} {w : TWorker τ}

/-- A notification finds every worker that is not between its predicate and its sleep. -/
lemma awake_notified (h : w ≠ .fallingAsleep) : w.notified.Awake := by
  cases w with
  | fallingAsleep => exact absurd rfl h
  | _ => simp [Awake, TWorker.notified]

end TWorker

namespace CThreadPool

variable {n : ℕ} {τ : Type*} {s t : CThreadPool n τ} {e : TPoolEvent n τ}
variable {es : List (TPoolEvent n τ)} {i j : Fin n} {w : TWorker τ}

/-- A worker sleeps that was told to stop, behind `notify_all` and with no notification to come. -/
def LeftAsleep (s : CThreadPool n τ) : Prop :=
  s.destructor.Notified ∧ (∃ i, s.threads i = .asleep ∧ s.stop i = true) ∧
    ∀ c, (s.callers c).owesNotification = false

/-! ## The stop flags -/

/-- The destructor has set the flags that it is past. -/
structure Told (s : CThreadPool n τ) : Prop where
  setting : ∀ k, s.destructor = .setting k → ∀ i, i.val < k → s.stop i = true
  notified : s.destructor.Notified → ∀ i, s.stop i = true

lemma told_init : Told ({} : CThreadPool n τ) := ⟨nofun, nofun⟩

lemma Told.step (h : s.Told) (hstep : Step s e t) : t.Told := by
  cases hstep with
  | destroys hd => exact ⟨fun k hk i hi => by cases hk; exact absurd hi (Nat.not_lt_zero _), nofun⟩
  | @setsStop k hd =>
    refine ⟨fun m hm i hi => ?_, nofun⟩
    obtain rfl : k.val + 1 = m := TDestructor.setting.inj hm
    show Function.update s.stop k true i = true
    by_cases hik : i = k
    · rw [hik, Function.update_self]
    · rw [Function.update_of_ne hik]
      have hne : i.val ≠ k.val := fun heq => hik (Fin.ext heq)
      exact h.setting k hd i (by omega)
  | notifiesAll hd => exact ⟨nofun, fun _ i => h.setting n hd i i.isLt⟩
  | joins hd | finishes hd => exact ⟨nofun, fun _ => h.notified (by rw [hd]; trivial)⟩
  | _ => exact ⟨h.setting, h.notified⟩

lemma told_of_run (hrun : run {} es = some s) : s.Told :=
  holds_of_run hrun told_init fun _ _ _ h hstep => h.step hstep

/-! ## The sleepers -/

/-- `notify_all` finds no worker between its predicate and its sleep. -/
def FindsSleepers (s : CThreadPool n τ) (e : TPoolEvent n τ) : Prop :=
  e = .notifyAll → ∀ i, s.threads i ≠ .fallingAsleep

/-- Behind `notify_all` nobody sleeps. -/
def Roused (s : CThreadPool n τ) : Prop := s.destructor.Notified → ∀ i, (s.threads i).Awake

lemma Roused.move (h : s.Roused) (hw : w.Awake) (hd : s.destructor.Notified) (j : Fin n) :
    ((s.moveWorker i w).threads j).Awake :=
  forall_moveWorker (P := fun _ w => w.Awake) hw (fun j _ => h hd j) j

lemma Roused.step (h : s.Roused) (htold : s.Told) (hfinds : s.FindsSleepers e)
    (hstep : Step s e t) : t.Roused := by
  cases hstep with
  | enters | ends | locks | passes | continues | breaks | pops | unlocks | leaves | invokes | wakes
  | returns | throws | notifies => exact h.move (by simp [TWorker.Awake])
  | @waits i _ _ hstop =>
    -- the predicate reads the stop flag
    intro hd
    exact absurd (hstop.symm.trans (htold.notified hd i)) (by simp)
  | @sleeps i hi =>
    intro hd
    exact absurd hi (h hd i).1
  | enqueues | callerLocks | pushes | callerUnlocks | notifiesNobody => exact h
  | destroys | setsStop => exact False.elim
  | notifiesAll =>
    intro _ i
    exact TWorker.awake_notified (hfinds rfl i)
  | joins hd | finishes hd =>
    intro _
    exact h (by rw [hd]; trivial)

/-- **Nobody is left asleep**, where `notify_all` finds every sleeper. -/
theorem not_leftAsleep (hrun : run {} es = some s) (hes : Along step FindsSleepers {} es) :
    ¬s.LeftAsleep := by
  have hend : s.Told ∧ s.Roused := by
    refine hes.run (P := fun s => s.Told ∧ s.Roused) ?_ hrun ⟨told_init, nofun⟩
    intro s e t h hfinds hstep
    have hstep := step_of_eq_some hstep
    exact ⟨h.1.step hstep, h.2.step h.1 hfinds hstep⟩
  rintro ⟨hd, ⟨i, hi, -⟩, -⟩
  exact (hend.2 hd i).2 hi

/-- A worker that is asleep when the destructor is called. -/
def soundSleeper : List (TPoolEvent 1 ℕ) := List.replicate 4 (.work 0) ++ [.destroy, .setStop]

theorem not_leftAsleep_soundSleeper :
    ∃ s, run {} (soundSleeper ++ [.notifyAll, .work 0]) = some s ∧ ¬s.LeftAsleep := by
  obtain ⟨s, hrun⟩ : ∃ s, run {} (soundSleeper ++ [.notifyAll, .work 0]) = some s :=
    Option.isSome_iff_exists.1 (by decide)
  have hasleep : (run {} soundSleeper).map (fun s => s.threads 0) = some .asleep := by decide
  refine ⟨s, hrun, not_leftAsleep hrun (Along.append (along_of_forall ?_) fun u hu => ?_)⟩
  · intro e he s hnotify
    subst hnotify
    exact absurd he (by decide)
  · have hi : u.threads 0 = .asleep := by
      rw [show run {} soundSleeper = some u from hu] at hasleep
      exact Option.some.inj hasleep
    refine ⟨fun _ i => ?_, fun t _ => ⟨nofun, fun _ _ => trivial⟩⟩
    rw [Subsingleton.elim i 0, hi]
    simp

/-! ## The missed notification -/

/-- The only worker is about to sleep while the destructor sets its flag and notifies. -/
def missedNotification : List (TPoolEvent 1 ℕ) :=
  List.replicate 3 (.work 0) ++ [.destroy, .setStop, .notifyAll, .work 0]

theorem leftAsleep_missedNotification :
    ∃ s, run {} missedNotification = some s ∧ s.LeftAsleep := by
  have hend : (run {} missedNotification).map
      (fun s => (s.destructor, s.threads 0, s.stop 0, s.callers)) =
      some (.joining 0, .asleep, true, fun _ => .outside) := by
    rfl
  obtain ⟨s, hrun, hs⟩ := Option.map_eq_some_iff.1 hend
  simp only [Prod.mk.injEq] at hs
  obtain ⟨hd, hi, hstop, hcallers⟩ := hs
  exact ⟨s, hrun, by rw [hd]; trivial, ⟨0, hi, hstop⟩, fun c => by rw [hcallers]; rfl⟩

/-- At most one caller moves in a step. -/
lemma Step.callers_eq (h : Step s e t) :
    t.callers = s.callers ∨ ∃ c v, t.callers = Function.update s.callers c v := by
  cases h with
  | enqueues | callerLocks | pushes | callerUnlocks | notifies | notifiesNobody =>
    exact Or.inr ⟨_, _, rfl⟩
  | _ => exact Or.inl rfl

/-- Only finitely many callers are in `enqueue`. -/
lemma exists_outside_of_run (hrun : run {} es = some s) :
    ∃ m, ∀ c, m ≤ c → s.callers c = .outside := by
  refine holds_of_run (P := fun s => ∃ m, ∀ c, m ≤ c → s.callers c = .outside) hrun
    ⟨0, fun _ _ => rfl⟩ ?_
  rintro s e t ⟨m, hm⟩ hstep
  rcases hstep.callers_eq with hcallers | ⟨c, v, hcallers⟩
  · exact ⟨m, fun c hc => by rw [hcallers, hm c hc]⟩
  · refine ⟨max m (c + 1), fun d hd => ?_⟩
    have hne : d ≠ c := by omega
    rw [hcallers, Function.update_of_ne hne]
    exact hm d (by omega)

/-- The callers that owe a notification can all spend it while nobody sleeps. -/
lemma exists_run_spent (hno : ∀ i, s.threads i ≠ .asleep) (hlock : ∀ c, s.callers c ≠ .unlocking)
    (m : ℕ) (hm : ∀ c, m ≤ c → (s.callers c).owesNotification = false) :
    ∃ es callers, run s es = some { s with callers := callers } ∧
      ∀ c, (callers c).owesNotification = false := by
  induction m generalizing s with
  | zero => exact ⟨[], s.callers, rfl, fun c => hm c (Nat.zero_le c)⟩
  | succ m ih =>
    by_cases hc : (s.callers m).owesNotification = false
    · refine ih hno hlock fun c hle => ?_
      rcases Nat.eq_or_lt_of_le hle with rfl | hlt
      · exact hc
      · exact hm c hlt
    · have hnotifying : s.callers m = .notifying := by
        cases hv : s.callers m with
        | notifying => rfl
        | unlocking => exact absurd hv (hlock m)
        | _ => exact absurd (by rw [hv]; rfl) hc
      have hstep : step s (.notifyOne m none) = some (s.moveCaller m .outside) := by
        have hawake : ∀ i, (s.threads i).isAsleep = false := fun i =>
          Bool.eq_false_iff.2 fun hi => hno i (TWorker.isAsleep_iff.1 hi)
        simp only [step, hnotifying, if_pos hawake]
      have hmove (d : ℕ) : (s.moveCaller m .outside).callers d = s.callers d ∨
          (s.moveCaller m .outside).callers d = .outside := by
        by_cases hd : d = m
        · exact Or.inr (by rw [hd, callers_moveCaller_self])
        · exact Or.inl (callers_moveCaller_of_ne hd)
      have hlock' : ∀ d, (s.moveCaller m .outside).callers d ≠ .unlocking := by
        intro d
        rcases hmove d with hd | hd
        · rw [hd]
          exact hlock d
        · rw [hd]
          simp
      have hm' : ∀ d, m ≤ d →
          ((s.moveCaller m .outside).callers d).owesNotification = false := by
        intro d hle
        rcases Nat.eq_or_lt_of_le hle with rfl | hlt
        · rw [callers_moveCaller_self]
          rfl
        · rw [callers_moveCaller_of_ne (Nat.ne_of_gt hlt)]
          exact hm d hlt
      obtain ⟨es, callers, hrun, hcallers⟩ := ih (s := s.moveCaller m .outside) hno hlock' hm'
      exact ⟨.notifyOne m none :: es, callers, run_cons_eq_some.2 ⟨_, hstep, hrun⟩, hcallers⟩

/-- **The worker between its predicate and its sleep can be left asleep**, whoever else is on the
way. -/
theorem exists_leftAsleep (hrun : run {} es = some s) (hd : s.destructor = .setting n)
    (hi : s.threads i = .fallingAsleep) :
    ∃ es' t, run s (.notifyAll :: es') = some t ∧ t.LeftAsleep := by
  obtain ⟨m, hm⟩ := exists_outside_of_run hrun
  obtain ⟨u, hu⟩ : ∃ u, u = { s with
      threads := fun i => (s.threads i).notified
      destructor := .joining 0 } := ⟨_, rfl⟩
  have hstep : step s .notifyAll = some u := by rw [hu]; exact if_pos hd
  have hui : u.threads i = .fallingAsleep := by
    rw [hu]
    exact congrArg TWorker.notified hi
  have hno : ∀ j, u.threads j ≠ .asleep := by
    intro j
    rw [hu]
    show (s.threads j).notified ≠ .asleep
    cases s.threads j <;> simp [TWorker.notified]
  have hlock : ∀ c, u.callers c ≠ .unlocking := by
    -- the worker holds the lock
    intro c hc
    rw [hu] at hc
    change s.callers c = .unlocking at hc
    have hworker : s.Holds (.inl i) := by rw [Holds, hi]; rfl
    have hcaller : s.Holds (.inr c) := by rw [Holds, hc]; rfl
    exact absurd ((guarded_of_run hrun).exclusive.unique hworker hcaller) (by simp)
  have howes : ∀ c, m ≤ c → (u.callers c).owesNotification = false := by
    intro c hle
    rw [hu]
    show (s.callers c).owesNotification = false
    rw [hm c hle]
    rfl
  obtain ⟨es', callers, hspent, hcallers⟩ := exists_run_spent hno hlock m howes
  have hsleep : step { u with callers := callers } (.work i) =
      some { u.moveWorker i .asleep with queueMutex := none, callers := callers } := by
    simp only [step, work, hui]
    rfl
  refine ⟨es' ++ [.work i], { u.moveWorker i .asleep with queueMutex := none, callers := callers },
    ?_, ?_, ⟨i, ?_, ?_⟩, hcallers⟩
  · refine run_cons_eq_some.2 ⟨u, hstep, run_append_eq_some.2 ⟨_, hspent, ?_⟩⟩
    exact run_cons_eq_some.2 ⟨_, hsleep, rfl⟩
  · rw [hu]
    trivial
  · exact threads_moveWorker_self (s := u)
  · rw [hu]
    exact (told_of_run hrun).setting n hd i i.isLt

/-! ## The destructor that waits -/

/-- The worker sleeps, nobody is in `enqueue`, and the destructor has not joined the worker. -/
structure Stuck (i : Fin n) (s : CThreadPool n τ) : Prop where
  asleep : s.threads i = .asleep
  outside : ∀ c, s.callers c = .outside
  joining : ∃ k ≤ i.val, s.destructor = .joining k

lemma Stuck.move (h : s.Stuck i) (hj : s.threads j ≠ .asleep) :
    (s.moveWorker j w).threads i = .asleep := by
  have hij : i ≠ j := by
    rintro rfl
    exact hj h.asleep
  rw [threads_moveWorker_of_ne hij, h.asleep]

lemma Stuck.step (h : s.Stuck i) (he : e ≠ .wakeUp i) (hstep : Step s e t) : t.Stuck i := by
  obtain ⟨k, hk, hd⟩ := h.joining
  cases hstep with
  | enters hj | ends hj | passes hj | waits hj | sleeps hj | continues hj | breaks hj | pops hj
  | unlocks hj | leaves hj | invokes hj | returns hj | throws hj =>
    exact ⟨h.move (by rw [hj]; simp), h.outside, k, hk, hd⟩
  | locks hj =>
    exact ⟨h.move (by rcases hj with hj | hj <;> (rw [hj]; simp)), h.outside, k, hk, hd⟩
  | @wakes j hj =>
    have hij : i ≠ j := fun hij => he (by rw [hij])
    exact ⟨(threads_moveWorker_of_ne hij).trans h.asleep, h.outside, k, hk, hd⟩
  | @callerLocks c _ hc | @pushes c _ hc | @callerUnlocks c hc | @notifies c _ hc
  | @notifiesNobody c hc => exact absurd ((h.outside c).symm.trans hc) (by simp)
  | enqueues _ hd' | destroys hd' | setsStop hd' | notifiesAll hd' =>
    exact absurd (hd.symm.trans hd') (by simp)
  | @joins k' hd' hk' =>
    obtain rfl : k = k' := TDestructor.joining.inj (hd.symm.trans hd')
    have hne : k' ≠ i := by
      rintro rfl
      exact absurd (hk'.symm.trans h.asleep) (by simp)
    exact ⟨h.asleep, h.outside, k' + 1, by omega, rfl⟩
  | finishes hd' =>
    have hkn : k = n := TDestructor.joining.inj (hd.symm.trans hd')
    omega

/-- **The destructor never returns** from there, unless the worker wakes up for no reason. -/
theorem Stuck.finish_not_mem (h : s.Stuck i) (hrun : run s es = some t)
    (hes : TPoolEvent.wakeUp i ∉ es) : TPoolEvent.finish ∉ es := by
  have hpreserves : Preserves CThreadPool.step (· ≠ .wakeUp i) (@Stuck n τ i) :=
    fun _ _ _ h he hstep => h.step he (step_of_eq_some hstep)
  refine hpreserves.not_mem hrun (fun e he heq => hes (heq ▸ he)) h fun u v hu hstep => ?_
  obtain ⟨k, hk, hd⟩ := hu.joining
  cases step_of_eq_some hstep with
  | finishes hn =>
    have hkn : k = n := TDestructor.joining.inj (hd.symm.trans hn)
    have hin := i.isLt
    omega

end CThreadPool

end OllamaMitm
