import Mathlib.Data.List.Nodup
import Mathlib.Logic.Function.Basic
import OllamaMitm.Lib.Mutex
import OllamaMitm.Lib.Runs

/-!
# An object that is guarded by a mutex

Any number of threads call the operations of an object.  Each operation takes the mutex, works on
the data step by step, releases the mutex and returns; the steps of the threads interleave in any
order.  The operations take effect one after the other: there is a sequential history that gives
every call the result it returns, and that never puts a call before one that had returned when it
was made.
-/

namespace OllamaMitm.Lib

/-- An object: its initial data, and the bodies of its operations.  A step of a body goes on, or
ends with a result; where it would do what must not be done, there is no step. -/
structure GuardedObject (σ ι κ ρ : Type*) where
  init : σ
  start : ι → κ
  micro : κ → σ → Option ((κ × σ) ⊕ (ρ × σ))

/-- A call that has taken effect: its number, the operation, and the result. -/
structure Effect (ι ρ : Type*) where
  number : ℕ
  op : ι
  result : ρ

/-- Where a thread stands. -/
inductive Stage (ι κ ρ : Type*) where
  | idle
  /-- It waits for the mutex. -/
  | called (number : ℕ) (op : ι)
  /-- It holds the mutex and works. -/
  | inside (number : ℕ) (op : ι) (body : κ)
  /-- It has the result and holds the mutex. -/
  | leaving (number : ℕ) (op : ι) (result : ρ)
  /-- It has released the mutex. -/
  | returning (number : ℕ) (op : ι) (result : ρ)

/-- One step of one thread. -/
inductive Move (τ ι : Type*) where
  | call (p : τ) (op : ι)
  | lock (p : τ)
  | work (p : τ)
  | unlock (p : τ)
  | ret (p : τ)

/-- The data, the mutex and the threads, and three records: the number of calls, the calls that have
taken effect in the order in which they did, and the calls that have returned. -/
structure Shared (τ σ ι κ ρ : Type*) where
  data : σ
  owner : Option τ := none
  stage : τ → Stage ι κ ρ := fun _ => .idle
  calls : ℕ := 0
  order : List (Effect ι ρ) := []
  returned : List (Effect ι ρ) := []

variable {τ σ ι κ ρ : Type*}

namespace Stage

variable {stage : Stage ι κ ρ} {n : ℕ} {op : ι} {body : κ} {r : ρ}

/-- The thread holds the mutex. -/
def Holds : Stage ι κ ρ → Prop
  | .inside _ _ _ | .leaving _ _ _ => True
  | _ => False

/-- The thread works. -/
def Inside : Stage ι κ ρ → Prop
  | .inside _ _ _ => True
  | _ => False

lemma Inside.holds (h : stage.Inside) : stage.Holds := by
  cases stage with
  | inside => trivial
  | idle | called | leaving | returning => exact h.elim

/-- The call that has not taken effect yet. -/
def pending : Stage ι κ ρ → Option ℕ
  | .called n _ | .inside n _ _ => some n
  | _ => none

/-- The call that has taken effect and has not returned yet. -/
def answered : Stage ι κ ρ → Option (Effect ι ρ)
  | .leaving n op r | .returning n op r => some ⟨n, op, r⟩
  | _ => none

end Stage

namespace GuardedObject

/-! ## One operation at a time -/

section Sequential

variable (obj : GuardedObject σ ι κ ρ)

/-- The body gets from the data `d` to the data `d'` if nobody interrupts it. -/
inductive Works (body : κ) (d : σ) : κ → σ → Prop
  | refl : Works body d body d
  | step {body' body'' : κ} {d' d'' : σ} (h : Works body d body' d')
      (hwork : obj.micro body' d' = some (.inl (body'', d''))) : Works body d body'' d''

/-- The operation ends with the result `r` if nobody interrupts it. -/
def Completes (op : ι) (d : σ) (r : ρ) (d' : σ) : Prop :=
  ∃ body d'', obj.Works (obj.start op) d body d'' ∧ obj.micro body d'' = some (.inr (r, d'))

/-- No operation does what must not be done. -/
def Safe : Prop :=
  ∀ op d body d', obj.Works (obj.start op) d body d' → (obj.micro body d').isSome = true

/-- The operations are done one after the other, with these results. -/
inductive Sequential (d : σ) : List (ι × ρ) → σ → Prop
  | nil : Sequential d [] d
  | snoc {history : List (ι × ρ)} {op : ι} {r : ρ} {d' d'' : σ} (h : Sequential d history d')
      (hop : obj.Completes op d' r d'') : Sequential d (history ++ [(op, r)]) d''

variable {obj}

/-- What every operation preserves is preserved by a sequential history. -/
lemma Sequential.invariant {P : List (ι × ρ) → σ → Prop} {d d' : σ} {history : List (ι × ρ)}
    (h : obj.Sequential d history d') (hd : P [] d)
    (hop : ∀ history op r d' d'', P history d' → obj.Completes op d' r d'' →
      P (history ++ [(op, r)]) d'') : P history d' := by
  induction h with
  | nil => exact hd
  | snoc _ hcompletes ih => exact hop _ _ _ _ _ ih hcompletes

end Sequential

/-! ## One after the other -/

section Serialised

variable {obj : GuardedObject σ ι κ ρ} {s : Shared τ σ ι κ ρ} {p q : τ}

/-- The object before the first call. -/
def initial (obj : GuardedObject σ ι κ ρ) : Shared τ σ ι κ ρ := { data := obj.init }

/-- The history of the calls that have taken effect. -/
def history (s : Shared τ σ ι κ ρ) : List (ι × ρ) := s.order.map fun e => (e.op, e.result)

/-- What the thread has done to the data that the sequential history has left as `d`. -/
def WorksOn (obj : GuardedObject σ ι κ ρ) (data d : σ) : Stage ι κ ρ → Prop
  | .inside _ op body => obj.Works (obj.start op) d body data
  | _ => True

/-- The mutex has one owner at most, and what has taken effect has left the data `d`: they are the
data themselves while nobody works, and otherwise what the thread inside has made of them. -/
structure Serialised (obj : GuardedObject σ ι κ ρ) (s : Shared τ σ ι κ ρ) (d : σ) : Prop where
  exclusive : Exclusive (fun p => (s.stage p).Holds) s.owner
  works : ∀ p, WorksOn obj s.data d (s.stage p)
  free : (∀ p, ¬(s.stage p).Inside) → s.data = d

lemma serialised_initial : Serialised obj (initial obj : Shared τ σ ι κ ρ) obj.init where
  exclusive := fun p => by simp [initial, Stage.Holds]
  works := fun _ => trivial
  free := fun _ => rfl

/-- A thread outside of its body works on nothing. -/
lemma worksOn_of_not_inside {data d : σ} {stage : Stage ι κ ρ} (h : ¬stage.Inside) :
    WorksOn obj data d stage := by
  cases stage with
  | inside => exact absurd trivial h
  | idle | called | leaving | returning => trivial

/-- The calls are numbered, and each takes effect once, between its call and its return. -/
structure Numbered (s : Shared τ σ ι κ ρ) : Prop where
  pending_lt : ∀ p n, (s.stage p).pending = some n → n < s.calls
  pending_new : ∀ p n, (s.stage p).pending = some n → ∀ e ∈ s.order, e.number ≠ n
  pending_inj : ∀ p q n, (s.stage p).pending = some n → (s.stage q).pending = some n → p = q
  order_lt : ∀ e ∈ s.order, e.number < s.calls
  nodup : (s.order.map Effect.number).Nodup
  answered : ∀ p e, (s.stage p).answered = some e → e ∈ s.order
  returned : ∀ e ∈ s.returned, e ∈ s.order

lemma numbered_initial : Numbered (initial obj : Shared τ σ ι κ ρ) where
  pending_lt := nofun
  pending_new := nofun
  pending_inj := nofun
  order_lt := by simp [initial]
  nodup := List.nodup_nil
  answered := nofun
  returned := by simp [initial]

/-- The books do not speak about the data and the mutex. -/
lemma Numbered.congr (h : Numbered s) (data : σ) (owner : Option τ) :
    Numbered { s with data := data, owner := owner } :=
  ⟨h.pending_lt, h.pending_new, h.pending_inj, h.order_lt, h.nodup, h.answered, h.returned⟩

/-- A call returns. -/
lemma Numbered.ret (h : Numbered s) {e : Effect ι ρ} (he : e ∈ s.order) :
    Numbered { s with returned := s.returned ++ [e] } := by
  refine ⟨h.pending_lt, h.pending_new, h.pending_inj, h.order_lt, h.nodup, h.answered, ?_⟩
  intro e' he'
  rcases List.mem_append.1 he' with he' | he'
  · exact h.returned e' he'
  · rw [List.mem_singleton.1 he']
    exact he

/-- The other threads are not inside. -/
lemma Serialised.not_inside {d : σ} (h : Serialised obj s d) (hp : (s.stage p).Holds) (hq : q ≠ p) :
    ¬(s.stage q).Inside := fun hh => hq (h.exclusive.unique hh.holds hp)

end Serialised

end GuardedObject

/-! ## The steps -/

variable [DecidableEq τ]

/-- The thread `p` moves on. -/
def Shared.move (s : Shared τ σ ι κ ρ) (p : τ) (stage : Stage ι κ ρ) : Shared τ σ ι κ ρ :=
  { s with stage := Function.update s.stage p stage }

@[simp] lemma Shared.stage_move_self (s : Shared τ σ ι κ ρ) (p : τ) (stage : Stage ι κ ρ) :
    (s.move p stage).stage p = stage := by
  simp [Shared.move]

lemma Shared.stage_move_of_ne (s : Shared τ σ ι κ ρ) {p q : τ} (h : q ≠ p)
    (stage : Stage ι κ ρ) : (s.move p stage).stage q = s.stage q := by
  simp [Shared.move, h]

/-- What holds of the thread that moves and of the others. -/
lemma Shared.forall_move {s : Shared τ σ ι κ ρ} {p : τ} {stage : Stage ι κ ρ}
    {P : τ → Stage ι κ ρ → Prop} (hp : P p stage) (h : ∀ q, q ≠ p → P q (s.stage q)) (q : τ) :
    P q ((s.move p stage).stage q) := by
  by_cases hq : q = p
  · subst hq
    rw [Shared.stage_move_self]
    exact hp
  · rw [Shared.stage_move_of_ne s hq]
    exact h q hq

namespace GuardedObject

variable (obj : GuardedObject σ ι κ ρ)

/-- What a step does, where it can be made. -/
def step (s : Shared τ σ ι κ ρ) : Move τ ι → Option (Shared τ σ ι κ ρ)
  | .call p op =>
    match s.stage p with
    | .idle => some { s.move p (.called s.calls op) with calls := s.calls + 1 }
    | _ => none
  | .lock p =>
    match s.stage p, s.owner with
    | .called n op, none => some { s.move p (.inside n op (obj.start op)) with owner := some p }
    | _, _ => none
  | .work p =>
    match s.stage p with
    | .inside n op body =>
      match obj.micro body s.data with
      | some (.inl (body, data)) => some { s.move p (.inside n op body) with data := data }
      | some (.inr (r, data)) =>
        some { s.move p (.leaving n op r) with
          data := data
          order := s.order ++ [⟨n, op, r⟩] }
      | none => none
    | _ => none
  | .unlock p =>
    match s.stage p with
    | .leaving n op r => some { s.move p (.returning n op r) with owner := none }
    | _ => none
  | .ret p =>
    match s.stage p with
    | .returning n op r => some { s.move p .idle with returned := s.returned ++ [⟨n, op, r⟩] }
    | _ => none

variable {obj}

/-- What each step does. -/
inductive Step (obj : GuardedObject σ ι κ ρ) (s : Shared τ σ ι κ ρ) :
    Move τ ι → Shared τ σ ι κ ρ → Prop
  | called {p : τ} {op : ι} (hp : s.stage p = .idle) :
      Step obj s (.call p op) { s.move p (.called s.calls op) with calls := s.calls + 1 }
  | locked {p : τ} {n : ℕ} {op : ι} (hp : s.stage p = .called n op) (hfree : s.owner = none) :
      Step obj s (.lock p) { s.move p (.inside n op (obj.start op)) with owner := some p }
  | worked {p : τ} {n : ℕ} {op : ι} {body body' : κ} {data : σ}
      (hp : s.stage p = .inside n op body)
      (hwork : obj.micro body s.data = some (.inl (body', data))) :
      Step obj s (.work p) { s.move p (.inside n op body') with data := data }
  | ended {p : τ} {n : ℕ} {op : ι} {body : κ} {r : ρ} {data : σ}
      (hp : s.stage p = .inside n op body) (hwork : obj.micro body s.data = some (.inr (r, data))) :
      Step obj s (.work p) { s.move p (.leaving n op r) with
        data := data
        order := s.order ++ [⟨n, op, r⟩] }
  | unlocked {p : τ} {n : ℕ} {op : ι} {r : ρ} (hp : s.stage p = .leaving n op r) :
      Step obj s (.unlock p) { s.move p (.returning n op r) with owner := none }
  | returned {p : τ} {n : ℕ} {op : ι} {r : ρ} (hp : s.stage p = .returning n op r) :
      Step obj s (.ret p) { s.move p .idle with returned := s.returned ++ [⟨n, op, r⟩] }

variable {s t : Shared τ σ ι κ ρ} {e : Move τ ι} {es es' : List (Move τ ι)} {p q : τ}
variable {d : σ}

lemma step_of_eq_some (h : obj.step s e = some t) : obj.Step s e t := by
  cases e with
  | call p op =>
    simp only [step] at h
    split at h
    · next hp =>
      rw [← Option.some.inj h]
      exact .called hp
    · cases h
  | lock p =>
    simp only [step] at h
    split at h
    · next hp hfree =>
      rw [← Option.some.inj h]
      exact .locked hp hfree
    · cases h
  | work p =>
    simp only [step] at h
    split at h
    · next hp =>
      split at h
      · next hwork =>
        rw [← Option.some.inj h]
        exact .worked hp hwork
      · next hwork =>
        rw [← Option.some.inj h]
        exact .ended hp hwork
      · cases h
    · cases h
  | unlock p =>
    simp only [step] at h
    split at h
    · next hp =>
      rw [← Option.some.inj h]
      exact .unlocked hp
    · cases h
  | ret p =>
    simp only [step] at h
    split at h
    · next hp =>
      rw [← Option.some.inj h]
      exact .returned hp
    · cases h

/-! ## Every step keeps the operations apart -/

/-- The thread moves and keeps the mutex, or stays without it. -/
lemma Serialised.exclusive_move (h : Serialised obj s d) {stage : Stage ι κ ρ}
    (hsame : stage.Holds ↔ (s.stage p).Holds) :
    Exclusive (fun q => ((s.move p stage).stage q).Holds) s.owner := by
  refine h.exclusive.congr fun q => ?_
  by_cases hq : q = p
  · subst hq
    rw [Shared.stage_move_self, hsame]
  · rw [Shared.stage_move_of_ne s hq]

/-- While nobody works, the data are what the history has left. -/
lemma not_inside_move {stage : Stage ι κ ρ} (h : ∀ q, ¬((s.move p stage).stage q).Inside)
    (hp : ¬(s.stage p).Inside) (q : τ) : ¬(s.stage q).Inside := by
  by_cases hq : q = p
  · exact hq ▸ hp
  · have hq' := h q
    rwa [Shared.stage_move_of_ne s hq] at hq'

/-- The thread moves outside of its body, and the mutex is left alone. -/
lemma Serialised.move (h : Serialised obj s d) {stage : Stage ι κ ρ}
    (hsame : stage.Holds ↔ (s.stage p).Holds) (hp : ¬(s.stage p).Inside) (hstage : ¬stage.Inside) :
    Serialised obj (s.move p stage) d where
  exclusive := h.exclusive_move hsame
  works := Shared.forall_move (P := fun _ => WorksOn obj s.data d) (worksOn_of_not_inside hstage)
    fun q _ => h.works q
  free := fun hno => h.free (not_inside_move hno hp)

/-- The thread takes the mutex. -/
lemma Serialised.lock (h : Serialised obj s d) (hfree : s.owner = none) (n : ℕ) (op : ι) :
    Serialised obj { s.move p (.inside n op (obj.start op)) with owner := some p } d := by
  have hex := h.exclusive
  rw [hfree] at hex
  -- nobody is inside, so the data are what the history has left
  obtain rfl := h.free fun q hq => absurd ((hex q).1 hq.holds) (by simp)
  refine ⟨?_, ?_, fun _ => rfl⟩
  · refine hex.take (p := p) ?_ fun q hq => by
      show ((s.move p _).stage q).Holds ↔ _
      rw [Shared.stage_move_of_ne s hq]
    show ((s.move p _).stage p).Holds
    rw [Shared.stage_move_self]
    trivial
  · exact Shared.forall_move (P := fun _ => WorksOn obj s.data s.data) .refl fun q _ => h.works q

variable {n : ℕ} {op : ι} {body body' : κ} {r : ρ} {data : σ}

/-- The thread works on. -/
lemma Serialised.work (h : Serialised obj s d) (hp : s.stage p = .inside n op body)
    (hwork : obj.micro body s.data = some (.inl (body', data))) :
    Serialised obj { s.move p (.inside n op body') with data := data } d := by
  have hholds : (s.stage p).Holds := by
    rw [hp]
    trivial
  refine ⟨h.exclusive_move (by rw [hp]; exact Iff.rfl), ?_, ?_⟩
  · refine Shared.forall_move (P := fun _ => WorksOn obj data d) ?_
      fun q hq => worksOn_of_not_inside (h.not_inside hholds hq)
    have hp' := h.works p
    rw [hp] at hp'
    exact hp'.step hwork
  · intro hno
    have hp' : ¬((s.move p (.inside n op body')).stage p).Inside := hno p
    rw [Shared.stage_move_self] at hp'
    exact absurd trivial hp'

/-- The operation takes effect. -/
lemma Serialised.effect (h : Serialised obj s d) (hp : s.stage p = .inside n op body)
    (hwork : obj.micro body s.data = some (.inr (r, data))) :
    obj.Completes op d r data ∧ Serialised obj { s.move p (.leaving n op r) with
      data := data
      order := s.order ++ [⟨n, op, r⟩] } data := by
  have hholds : (s.stage p).Holds := by
    rw [hp]
    trivial
  have hp' := h.works p
  rw [hp] at hp'
  refine ⟨⟨body, s.data, hp', hwork⟩, h.exclusive_move (by rw [hp]; exact Iff.rfl), ?_,
    fun _ => rfl⟩
  exact Shared.forall_move (P := fun _ => WorksOn obj data data) trivial
    fun q hq => worksOn_of_not_inside (h.not_inside hholds hq)

/-- The thread releases the mutex. -/
lemma Serialised.unlock (h : Serialised obj s d) (hp : s.stage p = .leaving n op r) :
    Serialised obj { s.move p (.returning n op r) with owner := none } d := by
  have hholds : (s.stage p).Holds := by
    rw [hp]
    trivial
  refine ⟨?_, ?_, fun hno => h.free (not_inside_move hno (by rw [hp]; exact id))⟩
  · refine h.exclusive.release (p := p) hholds ?_ fun q hq => by
      show ((s.move p _).stage q).Holds ↔ _
      rw [Shared.stage_move_of_ne s hq]
    show ¬((s.move p _).stage p).Holds
    rw [Shared.stage_move_self]
    exact id
  · exact Shared.forall_move (P := fun _ => WorksOn obj s.data d) trivial fun q _ => h.works q

lemma Serialised.call (h : Serialised obj s d) (hp : s.stage p = .idle) (op : ι) :
    Serialised obj { s.move p (.called s.calls op) with calls := s.calls + 1 } d := by
  have hmove : Serialised obj (s.move p (.called s.calls op)) d :=
    h.move (by rw [hp]; exact Iff.rfl) (by rw [hp]; exact id) id
  exact ⟨hmove.exclusive, hmove.works, hmove.free⟩

lemma Serialised.ret (h : Serialised obj s d) (hp : s.stage p = .returning n op r) :
    Serialised obj { s.move p .idle with returned := s.returned ++ [⟨n, op, r⟩] } d := by
  have hmove : Serialised obj (s.move p .idle) d :=
    h.move (by rw [hp]; exact Iff.rfl) (by rw [hp]; exact id) id
  exact ⟨hmove.exclusive, hmove.works, hmove.free⟩

/-- **Every step keeps the operations apart.** -/
lemma Serialised.step (h : Serialised obj s d) (hstep : obj.Step s e t)
    (hd : obj.Sequential obj.init (history s) d) :
    ∃ d', Serialised obj t d' ∧ obj.Sequential obj.init (history t) d' := by
  cases hstep with
  | called hp => exact ⟨d, h.call hp _, hd⟩
  | locked hp hfree => exact ⟨d, h.lock hfree _ _, hd⟩
  | worked hp hwork => exact ⟨d, h.work hp hwork, hd⟩
  | ended hp hwork =>
    obtain ⟨hcompletes, hserial⟩ := h.effect hp hwork
    refine ⟨_, hserial, ?_⟩
    simpa [history, Shared.move] using hd.snoc hcompletes
  | unlocked hp => exact ⟨d, h.unlock hp, hd⟩
  | returned hp => exact ⟨d, h.ret hp, hd⟩

/-! ## Every step keeps the books -/

/-- The thread goes on with the same call. -/
lemma Numbered.move (h : Numbered s) {stage : Stage ι κ ρ}
    (hpending : ∀ n, stage.pending = some n → (s.stage p).pending = some n)
    (hanswered : ∀ e, stage.answered = some e → e ∈ s.order) : Numbered (s.move p stage) where
  pending_lt := fun q n => Shared.forall_move
    (P := fun _ stage => stage.pending = some n → n < s.calls)
    (fun hn => h.pending_lt p n (hpending n hn)) (fun q _ => h.pending_lt q n) q
  pending_new := fun q n => Shared.forall_move
    (P := fun _ stage => stage.pending = some n → ∀ e ∈ s.order, e.number ≠ n)
    (fun hn => h.pending_new p n (hpending n hn)) (fun q _ => h.pending_new q n) q
  pending_inj := by
    have hback : ∀ q n, ((s.move p stage).stage q).pending = some n →
        (s.stage q).pending = some n := fun q n => Shared.forall_move
      (P := fun q stage => stage.pending = some n → (s.stage q).pending = some n)
      (hpending n) (fun _ _ => id) q
    exact fun q q' n hq hq' => h.pending_inj q q' n (hback q n hq) (hback q' n hq')
  order_lt := h.order_lt
  nodup := h.nodup
  answered := fun q e => Shared.forall_move
    (P := fun _ stage => stage.answered = some e → e ∈ s.order) (hanswered e)
    (fun q _ => h.answered q e) q
  returned := h.returned

/-- A new call. -/
lemma Numbered.call (h : Numbered s) (p : τ) (op : ι) :
    Numbered { s.move p (.called s.calls op) with calls := s.calls + 1 } where
  pending_lt := fun q n => Shared.forall_move
    (P := fun _ stage => stage.pending = some n → n < s.calls + 1)
    (fun hn => by rw [← Option.some.inj hn]; omega)
    (fun q _ hn => Nat.lt_succ_of_lt (h.pending_lt q n hn)) q
  pending_new := fun q n => Shared.forall_move
    (P := fun _ stage => stage.pending = some n → ∀ e ∈ s.order, e.number ≠ n)
    (fun hn e he => by
      rw [← Option.some.inj hn]
      exact Nat.ne_of_lt (h.order_lt e he))
    (fun q _ => h.pending_new q n) q
  pending_inj := by
    -- all the other pending calls have smaller numbers
    have hback : ∀ q n, ((s.move p (.called s.calls op)).stage q).pending = some n →
        (q = p ∧ n = s.calls) ∨ (q ≠ p ∧ (s.stage q).pending = some n) := fun q n =>
      Shared.forall_move (P := fun q stage => stage.pending = some n →
        (q = p ∧ n = s.calls) ∨ (q ≠ p ∧ (s.stage q).pending = some n))
        (fun hn => Or.inl ⟨rfl, by rw [Option.some.inj hn]⟩) (fun q hq hn => Or.inr ⟨hq, hn⟩) q
    intro q q' n hq hq'
    rcases hback q n hq with ⟨rfl, hn⟩ | ⟨-, hn⟩
    · rcases hback q' n hq' with ⟨rfl, -⟩ | ⟨-, hn'⟩
      · rfl
      · exact absurd (h.pending_lt q' n hn') (by omega)
    · rcases hback q' n hq' with ⟨rfl, hn'⟩ | ⟨-, hn'⟩
      · exact absurd (h.pending_lt q n hn) (by omega)
      · exact h.pending_inj q q' n hn hn'
  order_lt := fun e he => Nat.lt_succ_of_lt (h.order_lt e he)
  nodup := h.nodup
  answered := fun q e => Shared.forall_move
    (P := fun _ stage => stage.answered = some e → e ∈ s.order) (fun he => by cases he)
    (fun q _ => h.answered q e) q
  returned := h.returned

/-- A call takes effect. -/
lemma Numbered.effect (h : Numbered s) {n : ℕ} (hp : (s.stage p).pending = some n) (op : ι) (r : ρ)
    (data : σ) :
    Numbered { s.move p (.leaving n op r) with
      data := data
      order := s.order ++ [⟨n, op, r⟩] } := by
  have hmem : ∀ e ∈ s.order, e ∈ s.order ++ [⟨n, op, r⟩] :=
    fun e he => List.mem_append_left _ he
  -- the other pending calls are different ones
  have hother : ∀ q m, ((s.move p (.leaving n op r)).stage q).pending = some m →
      (s.stage q).pending = some m ∧ m ≠ n := fun q m => Shared.forall_move
    (P := fun q stage => stage.pending = some m → (s.stage q).pending = some m ∧ m ≠ n)
    (fun hm => by cases hm)
    (fun q hq hm => ⟨hm, fun heq => hq (h.pending_inj q p n (heq ▸ hm) hp)⟩) q
  refine ⟨fun q m hm => h.pending_lt q m (hother q m hm).1, ?_,
    fun q q' m hq hq' => h.pending_inj q q' m (hother q m hq).1 (hother q' m hq').1,
    ?_, ?_, ?_, fun e he => hmem e (h.returned e he)⟩
  · intro q m hm e he
    rcases List.mem_append.1 he with he | he
    · exact h.pending_new q m (hother q m hm).1 e he
    · rw [List.mem_singleton.1 he]
      exact (hother q m hm).2.symm
  · intro e he
    rcases List.mem_append.1 he with he | he
    · exact h.order_lt e he
    · rw [List.mem_singleton.1 he]
      exact h.pending_lt p n hp
  · rw [List.map_append, List.map_singleton, List.nodup_append]
    refine ⟨h.nodup, List.nodup_singleton _, ?_⟩
    intro m hm m' hm'
    obtain ⟨e, he, rfl⟩ := List.mem_map.1 hm
    rw [List.mem_singleton.1 hm']
    exact h.pending_new p n hp e he
  · intro q e
    refine Shared.forall_move
      (P := fun _ stage => stage.answered = some e → e ∈ s.order ++ [⟨n, op, r⟩])
      (fun he => ?_) (fun q _ he => hmem e (h.answered q e he)) q
    rw [← Option.some.inj he]
    simp

/-- **Every step keeps the books.** -/
lemma Numbered.step (h : Numbered s) (hstep : obj.Step s e t) : Numbered t := by
  cases hstep with
  | called hp => exact h.call _ _
  | @locked p n op hp =>
    have hmove : Numbered (s.move p (.inside n op (obj.start op))) :=
      h.move (by rw [hp]; exact fun _ => id) (fun e he => by cases he)
    exact hmove.congr s.data (some p)
  | @worked p n op body body' data hp =>
    have hmove : Numbered (s.move p (.inside n op body')) :=
      h.move (by rw [hp]; exact fun _ => id) (fun e he => by cases he)
    exact hmove.congr data s.owner
  | ended hp => exact h.effect (by rw [hp]; rfl) _ _ _
  | @unlocked p n op r hp =>
    have hmem : (⟨n, op, r⟩ : Effect ι ρ) ∈ s.order := h.answered p _ (by rw [hp]; rfl)
    have hmove : Numbered (s.move p (.returning n op r)) :=
      h.move (fun m hm => by cases hm) (fun e he => Option.some.inj he ▸ hmem)
    exact hmove.congr s.data none
  | @returned p n op r hp =>
    have hmem : (⟨n, op, r⟩ : Effect ι ρ) ∈ s.order := h.answered p _ (by rw [hp]; rfl)
    have hmove : Numbered (s.move p .idle) :=
      h.move (fun m hm => by cases hm) (fun e he => by cases he)
    exact hmove.ret hmem

/-! ## Linearizability -/

/-- The history so far has left some data. -/
def HasHistory (obj : GuardedObject σ ι κ ρ) (s : Shared τ σ ι κ ρ) : Prop :=
  ∃ d, Serialised obj s d ∧ obj.Sequential obj.init (history s) d

lemma preserves_hasHistory :
    Preserves obj.step (fun _ => True) (fun s : Shared τ σ ι κ ρ => HasHistory obj s) := by
  rintro s e t ⟨d, hserial, hd⟩ - hstep
  exact hserial.step (step_of_eq_some hstep) hd

lemma preserves_numbered :
    Preserves obj.step (fun _ => True) (fun s : Shared τ σ ι κ ρ => Numbered s) :=
  fun _ _ _ hs _ hstep => hs.step (step_of_eq_some hstep)

lemma hasHistory_of_run (h : run obj.step (initial obj) es = some s) : HasHistory obj s :=
  preserves_hasHistory.run h (fun _ _ => trivial) ⟨_, serialised_initial, .nil⟩

lemma numbered_of_run (h : run obj.step (initial obj) es = some s) : Numbered s :=
  preserves_numbered.run h (fun _ _ => trivial) numbered_initial

/-- What has taken effect stays so. -/
lemma order_prefix (h : run obj.step s es = some t) : s.order <+: t.order := by
  have hpreserves : Preserves obj.step (fun _ => True)
      (fun u : Shared τ σ ι κ ρ => s.order <+: u.order) := by
    intro u e v hu _ hstep
    cases step_of_eq_some hstep with
    | ended => exact hu.trans (List.prefix_append _ _)
    | called | locked | worked | unlocked | returned => exact hu
  exact hpreserves.run h (fun _ _ => trivial) List.prefix_rfl

/-- **The object is linearizable.**  In every run, the results of the calls that have returned are
those of a sequential history in which each call occurs at most once, and while the mutex is free
the data are what this history leaves. -/
theorem linearizable (h : run obj.step (initial obj) es = some s) :
    (∃ d, obj.Sequential obj.init (history s) d ∧ (s.owner = none → s.data = d)) ∧
      (s.order.map Effect.number).Nodup ∧ ∀ e ∈ s.returned, e ∈ s.order := by
  obtain ⟨d, hserial, hd⟩ := hasHistory_of_run h
  have hnumbered := numbered_of_run h
  refine ⟨⟨d, hd, fun hnone => hserial.free fun p hp => ?_⟩, hnumbered.nodup, hnumbered.returned⟩
  have howner := (hserial.exclusive p).1 hp.holds
  exact absurd (howner.symm.trans hnone) (by simp)

/-- **The history respects real time.**  Of two moments of a run, the calls that had returned at the
first one come before those that are made after it. -/
theorem order_of_run (h : run obj.step (initial obj) es = some s)
    (h' : run obj.step s es' = some t) :
    ∃ later, t.order = s.order ++ later ∧ (∀ e ∈ s.returned, e ∈ s.order) ∧
      ∀ e ∈ t.order, s.calls ≤ e.number → e ∈ later := by
  have hnumbered := numbered_of_run h
  obtain ⟨later, hlater⟩ := order_prefix h'
  refine ⟨later, hlater.symm, hnumbered.returned, ?_⟩
  intro e he hnew
  rw [← hlater] at he
  rcases List.mem_append.1 he with he | he
  · exact absurd (hnumbered.order_lt e he) (by omega)
  · exact he

/-- **There is no deadlock.**  While some thread has not returned from its call, some such thread
can move on. -/
theorem Serialised.exists_move (hserial : Serialised obj s d) (hsafe : obj.Safe)
    (hp : s.stage p ≠ .idle) :
    ∃ q e t, s.stage q ≠ .idle ∧ (e = .lock q ∨ e = .work q ∨ e = .unlock q ∨ e = .ret q) ∧
      obj.step s e = some t := by
  cases howner : s.owner with
  | some q =>
    -- the owner of the mutex works or releases it
    have hq : (s.stage q).Holds := (hserial.exclusive q).2 howner
    cases hstage : s.stage q with
    | inside n op body =>
      have hwork := hserial.works q
      rw [hstage] at hwork
      obtain ⟨x, hx⟩ := Option.isSome_iff_exists.1 (hsafe _ _ _ _ hwork)
      refine ⟨q, .work q, ?_⟩
      simp only [GuardedObject.step, hstage, hx]
      cases x with
      | inl x => exact ⟨_, nofun, by simp, rfl⟩
      | inr x => exact ⟨_, nofun, by simp, rfl⟩
    | leaving n op r =>
      refine ⟨q, .unlock q, ?_⟩
      simp only [GuardedObject.step, hstage]
      exact ⟨_, nofun, by simp, rfl⟩
    | idle | called | returning =>
      rw [hstage] at hq
      exact hq.elim
  | none =>
    have hno : ¬(s.stage p).Holds := fun hh => by
      have := (hserial.exclusive p).1 hh
      exact absurd (this.symm.trans howner) (by simp)
    cases hstage : s.stage p with
    | idle => exact absurd hstage hp
    | called n op =>
      refine ⟨p, .lock p, ?_⟩
      simp only [GuardedObject.step, hstage, howner]
      exact ⟨_, nofun, by simp, rfl⟩
    | returning n op r =>
      refine ⟨p, .ret p, ?_⟩
      simp only [GuardedObject.step, hstage]
      exact ⟨_, nofun, by simp, rfl⟩
    | inside | leaving =>
      rw [hstage] at hno
      exact absurd trivial hno

end GuardedObject

end OllamaMitm.Lib
