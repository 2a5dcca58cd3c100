import OllamaMitm.Lib.GuardedObject

/-!
# The queue between the threads

`SafeQueue` of `common/safe_queue.h`.  Every operation holds the mutex while it works on the
`std::queue`, one access after the other: `pop` asks whether the queue is empty, moves the first
element out, and removes what is left of it.  So any number of threads may use the queue as if its
operations were atomic, elements leave it in the order in which they came, and no operation touches
the front of an empty queue.

The condition variable is notified by `push`, but nobody waits for it.
-/

namespace OllamaMitm

open Lib

variable {α β : Type*}

/-- A call of an operation of the queue; the arguments of `emplace` are those of a constructor. -/
inductive TQueueCall (α β : Type*) where
  | push (item : α)
  | emplace (args : β)
  | pop
  | clear
  | empty
  | size

/-- What an operation returns. -/
inductive TQueueResult (α : Type*) where
  | done
  | popped (item : Option α)
  | empty (isEmpty : Bool)
  | size (n : ℕ)

/-- Where an operation stands while it holds the mutex. -/
inductive TQueueBody (α : Type*) where
  /-- Before `dataQueue.push`. -/
  | pushing (item : α)
  /-- Before `notify_one`. -/
  | notifying
  /-- `pop` before `dataQueue.empty()`. -/
  | checking
  /-- Before the first element is moved out. -/
  | moving
  /-- Before `dataQueue.pop()`. -/
  | dropping (item : α)
  /-- `clear` before `std::swap`. -/
  | swapping
  /-- `empty` before `dataQueue.empty()`. -/
  | asking
  /-- `size` before `dataQueue.size()`. -/
  | counting

/-- `SafeQueue`, over the constructor that `emplace` calls and what moving leaves of an element. -/
def safeQueue (construct : β → α) (movedFrom : α → α) :
    GuardedObject (List α) (TQueueCall α β) (TQueueBody α) (TQueueResult α) where
  init := []
  start
    | .push item => .pushing item
    | .emplace args => .pushing (construct args)
    | .pop => .checking
    | .clear => .swapping
    | .empty => .asking
    | .size => .counting
  micro
    | .pushing item, dataQueue => some (.inl (.notifying, dataQueue ++ [item]))
    | .notifying, dataQueue => some (.inr (.done, dataQueue))
    | .checking, dataQueue =>
      if dataQueue.isEmpty then some (.inr (.popped none, dataQueue))
      else some (.inl (.moving, dataQueue))
    | .moving, item :: dataQueue => some (.inl (.dropping item, movedFrom item :: dataQueue))
    | .moving, [] => none
    | .dropping item, _ :: dataQueue => some (.inr (.popped (some item), dataQueue))
    | .dropping _, [] => none
    | .swapping, _ => some (.inr (.done, []))
    | .asking, dataQueue => some (.inr (.empty dataQueue.isEmpty, dataQueue))
    | .counting, dataQueue => some (.inr (.size dataQueue.length, dataQueue))

namespace SafeQueue

variable {construct : β → α} {movedFrom : α → α} {op : TQueueCall α β} {body : TQueueBody α}
variable {items items' : List α} {r : TQueueResult α}
variable {history : List (TQueueCall α β × TQueueResult α)}

/-! ## One operation -/

/-- What an operation does to the elements of the queue. -/
def apply (construct : β → α) : TQueueCall α β → List α → TQueueResult α × List α
  | .push item, items => (.done, items ++ [item])
  | .emplace args, items => (.done, items ++ [construct args])
  | .pop, [] => (.popped none, [])
  | .pop, item :: items => (.popped (some item), items)
  | .clear, _ => (.done, [])
  | .empty, items => (.empty items.isEmpty, items)
  | .size, items => (.size items.length, items)

/-- Where the body of an operation may stand, and what it has made of the elements by then. -/
def At (construct : β → α) (movedFrom : α → α) (items : List α) :
    TQueueCall α β → TQueueBody α → List α → Prop
  | .push item, .pushing item', items' => item' = item ∧ items' = items
  | .push item, .notifying, items' => items' = items ++ [item]
  | .emplace args, .pushing item', items' => item' = construct args ∧ items' = items
  | .emplace args, .notifying, items' => items' = items ++ [construct args]
  | .pop, .checking, items' => items' = items
  | .pop, .moving, items' => items' = items ∧ items ≠ []
  | .pop, .dropping item, items' =>
    ∃ rest, items = item :: rest ∧ items' = movedFrom item :: rest
  | .clear, .swapping, items' => items' = items
  | .empty, .asking, items' => items' = items
  | .size, .counting, items' => items' = items
  | _, _, _ => False

lemma at_of_works (h : (safeQueue construct movedFrom).Works
    ((safeQueue construct movedFrom).start op) items body items') :
    At construct movedFrom items op body items' := by
  induction h with
  | refl => cases op <;> simp [safeQueue, At]
  | @step body body' items₁ items₂ _ hwork ih =>
    cases body with
    | pushing item =>
      obtain ⟨rfl, rfl⟩ : TQueueBody.notifying = body' ∧ items₁ ++ [item] = items₂ := by
        simpa [safeQueue] using hwork
      cases op with
      | push | emplace =>
        obtain ⟨rfl, rfl⟩ := ih
        rfl
      | pop | clear | empty | size => exact ih.elim
    | checking =>
      cases op with
      | pop =>
        obtain rfl : items₁ = items := ih
        by_cases hnil : items₁ = []
        · simp [safeQueue, hnil] at hwork
        · obtain ⟨rfl, rfl⟩ : TQueueBody.moving = body' ∧ items₁ = items₂ := by
            simpa [safeQueue, hnil] using hwork
          exact ⟨rfl, hnil⟩
      | push | emplace | clear | empty | size => exact ih.elim
    | moving =>
      cases op with
      | pop =>
        obtain ⟨rfl, hne⟩ := ih
        obtain ⟨item, rest, rfl⟩ := List.exists_cons_of_ne_nil hne
        obtain ⟨rfl, rfl⟩ : TQueueBody.dropping item = body' ∧ movedFrom item :: rest = items₂ := by
          simpa [safeQueue] using hwork
        exact ⟨rest, rfl, rfl⟩
      | push | emplace | clear | empty | size => exact ih.elim
    | dropping item => cases items₁ <;> simp [safeQueue] at hwork
    | notifying | swapping | asking | counting => simp [safeQueue] at hwork

/-- **No operation touches the front of an empty queue.** -/
lemma safe (construct : β → α) (movedFrom : α → α) : (safeQueue construct movedFrom).Safe := by
  intro op items body items' h
  have hat := at_of_works h
  cases body with
  | moving =>
    cases op with
    | pop =>
      obtain ⟨rfl, hne⟩ := hat
      obtain ⟨item, rest, rfl⟩ := List.exists_cons_of_ne_nil hne
      rfl
    | push | emplace | clear | empty | size => exact hat.elim
  | dropping item =>
    cases op with
    | pop =>
      obtain ⟨rest, -, rfl⟩ := hat
      rfl
    | push | emplace | clear | empty | size => exact hat.elim
  | checking =>
    by_cases hnil : items' = []
    · simp [safeQueue, hnil]
    · simp [safeQueue, hnil]
  | pushing | notifying | swapping | asking | counting => rfl

/-- An operation that nobody interrupts does what it is for. -/
lemma eq_apply_of_completes (h : (safeQueue construct movedFrom).Completes op items r items') :
    apply construct op items = (r, items') := by
  obtain ⟨body, items₁, hworks, hwork⟩ := h
  have hat := at_of_works hworks
  cases body with
  | notifying =>
    obtain ⟨rfl, rfl⟩ : TQueueResult.done = r ∧ items₁ = items' := by simpa [safeQueue] using hwork
    cases op with
    | push | emplace =>
      obtain rfl := hat
      rfl
    | pop | clear | empty | size => exact hat.elim
  | checking =>
    cases op with
    | pop =>
      obtain rfl : items₁ = items := hat
      by_cases hnil : items₁ = []
      · subst hnil
        obtain ⟨rfl, rfl⟩ : TQueueResult.popped none = r ∧ [] = items' := by
          simpa [safeQueue] using hwork
        rfl
      · simp [safeQueue, hnil] at hwork
    | push | emplace | clear | empty | size => exact hat.elim
  | dropping item =>
    cases op with
    | pop =>
      obtain ⟨rest, rfl, rfl⟩ := hat
      obtain ⟨rfl, rfl⟩ : TQueueResult.popped (some item) = r ∧ rest = items' := by
        simpa [safeQueue] using hwork
      rfl
    | push | emplace | clear | empty | size => exact hat.elim
  | swapping =>
    cases op with
    | clear =>
      obtain ⟨rfl, rfl⟩ : TQueueResult.done = r ∧ [] = items' := by simpa [safeQueue] using hwork
      rfl
    | push | emplace | pop | empty | size => exact hat.elim
  | asking =>
    cases op with
    | empty =>
      obtain rfl : items₁ = items := hat
      obtain ⟨rfl, rfl⟩ : TQueueResult.empty items₁.isEmpty = r ∧ items₁ = items' := by
        simpa [safeQueue] using hwork
      rfl
    | push | emplace | pop | clear | size => exact hat.elim
  | counting =>
    cases op with
    | size =>
      obtain rfl : items₁ = items := hat
      obtain ⟨rfl, rfl⟩ : TQueueResult.size items₁.length = r ∧ items₁ = items' := by
        simpa [safeQueue] using hwork
      rfl
    | push | emplace | pop | clear | empty => exact hat.elim
  | pushing item => simp [safeQueue] at hwork
  | moving => cases items₁ <;> simp [safeQueue] at hwork

/-! ## A sequential history -/

/-- What the operations return, and what they leave, if they are done one after the other. -/
def replay (construct : β → α) : List (TQueueCall α β) → List α → List (TQueueResult α) × List α
  | [], items => ([], items)
  | op :: ops, items =>
    let first := apply construct op items
    let rest := replay construct ops first.2
    (first.1 :: rest.1, rest.2)

lemma replay_append (ops ops' : List (TQueueCall α β)) (items : List α) :
    replay construct (ops ++ ops') items =
      ((replay construct ops items).1 ++ (replay construct ops' (replay construct ops items).2).1,
        (replay construct ops' (replay construct ops items).2).2) := by
  induction ops generalizing items with
  | nil => rfl
  | cons op ops ih =>
    rw [List.cons_append, replay, ih]
    rfl

lemma replay_of_sequential (h : (safeQueue construct movedFrom).Sequential [] history items) :
    replay construct (history.map Prod.fst) [] = (history.map Prod.snd, items) := by
  refine h.invariant (P := fun history items =>
    replay construct (history.map Prod.fst) [] = (history.map Prod.snd, items)) rfl
    fun history op r items items' ih hop => ?_
  rw [List.map_append, List.map_append, replay_append, ih]
  simp [replay, eq_apply_of_completes hop]

/-- The element that an operation has put into the queue. -/
def pushed (construct : β → α) : TQueueCall α β × TQueueResult α → Option α
  | (.push item, _) => some item
  | (.emplace args, _) => some (construct args)
  | _ => none

/-- The element that an operation has returned. -/
def popped : TQueueCall α β × TQueueResult α → Option α
  | (.pop, .popped item) => item
  | _ => none

/-- The elements have come in this order, and have left in it. -/
structure FirstInFirstOut (construct : β → α) (history : List (TQueueCall α β × TQueueResult α))
    (items : List α) : Prop where
  left : ∃ gone, history.filterMap (pushed construct) = gone ++ items ∧
    (history.filterMap popped).Sublist gone ∧
    ((∀ e ∈ history, e.1 ≠ .clear) → history.filterMap popped = gone)

lemma filterMap_snoc {γ δ : Type*} (f : γ → Option δ) (l : List γ) (x : γ) :
    (l ++ [x]).filterMap f = l.filterMap f ++ (f x).toList := by
  rw [List.filterMap_append]
  cases hx : f x <;> simp [hx]

lemma FirstInFirstOut.snoc (h : FirstInFirstOut construct history items)
    (hop : apply construct op items = (r, items')) :
    FirstInFirstOut construct (history ++ [(op, r)]) items' := by
  obtain ⟨gone, hpushed, hpopped, hall⟩ := h.left
  have hbefore (hno : ∀ e ∈ history ++ [(op, r)], e.1 ≠ .clear) :
      history.filterMap popped = gone := hall fun e he => hno e (List.mem_append_left _ he)
  constructor
  rw [filterMap_snoc, filterMap_snoc, hpushed]
  cases op with
  | push item | emplace args =>
    obtain ⟨rfl, rfl⟩ := Prod.mk.inj hop
    exact ⟨gone, by simp [pushed], by simpa [popped] using hpopped,
      fun hno => by simpa [popped] using hbefore hno⟩
  | empty | size =>
    obtain ⟨rfl, rfl⟩ := Prod.mk.inj hop
    exact ⟨gone, by simp [pushed], by simpa [popped] using hpopped,
      fun hno => by simpa [popped] using hbefore hno⟩
  | clear =>
    obtain ⟨rfl, rfl⟩ := Prod.mk.inj hop
    refine ⟨gone ++ items, by simp [pushed], ?_, ?_⟩
    · simpa [popped] using hpopped.trans (List.sublist_append_left gone items)
    · intro hno
      exact absurd rfl (hno (.clear, .done) (by simp))
  | pop =>
    cases items with
    | nil =>
      obtain ⟨rfl, rfl⟩ := Prod.mk.inj hop
      exact ⟨gone, by simp [pushed], by simpa [popped] using hpopped,
        fun hno => by simpa [popped] using hbefore hno⟩
    | cons item items =>
      obtain ⟨rfl, rfl⟩ := Prod.mk.inj hop
      refine ⟨gone ++ [item], by simp [pushed], ?_, ?_⟩
      · simpa [popped] using hpopped.append (List.Sublist.refl [item])
      · intro hno
        simp [popped, hbefore hno]

lemma firstInFirstOut (h : (safeQueue construct movedFrom).Sequential [] history items) :
    FirstInFirstOut construct history items :=
  h.invariant (P := FirstInFirstOut construct) ⟨[], rfl, List.Sublist.refl [], fun _ => rfl⟩
    fun _ _ _ _ _ ih hop => ih.snoc (eq_apply_of_completes hop)

/-! ## Any number of threads -/

variable {τ : Type*} [DecidableEq τ]

/-- The queue, with the threads that use it. -/
abbrev TQueueState (τ α β : Type*) :=
  Shared τ (List α) (TQueueCall α β) (TQueueBody α) (TQueueResult α)

variable {s t : TQueueState τ α β} {es es' : List (Move τ (TQueueCall α β))}

open GuardedObject in
/-- **The queue may be used as if its operations were atomic.**  Take any two moments of a run of
any number of threads.  At the second one, the results so far are those of the operations done one
after the other in some order, and so are the elements while the mutex is free.  No call occurs
twice in this order, those that have returned are in it, and those made after the first moment come
behind those that had returned by then.  Elements leave in the order in which they came.  And a
thread that has not returned from its call is not stuck for ever: one of these threads can move. -/
theorem safeQueue_linearizable (construct : β → α) (movedFrom : α → α)
    (hs : run (safeQueue construct movedFrom).step (initial (safeQueue construct movedFrom)) es
      = some s)
    (ht : run (safeQueue construct movedFrom).step s es' = some t) :
    (∃ items, replay construct (t.order.map Effect.op) [] = (t.order.map Effect.result, items) ∧
      (t.owner = none → t.data = items) ∧
      FirstInFirstOut construct (GuardedObject.history t) items) ∧
    (t.order.map Effect.number).Nodup ∧ (∀ e ∈ t.returned, e ∈ t.order) ∧
    (∃ later, t.order = s.order ++ later ∧ (∀ e ∈ s.returned, e ∈ s.order) ∧
      ∀ e ∈ t.order, s.calls ≤ e.number → e ∈ later) ∧
    ∀ p, t.stage p ≠ .idle → ∃ q e u, t.stage q ≠ .idle ∧
      (e = .lock q ∨ e = .work q ∨ e = .unlock q ∨ e = .ret q) ∧
      (safeQueue construct movedFrom).step t e = some u := by
  have hrun := run_append_eq_some.2 ⟨s, hs, ht⟩
  obtain ⟨⟨items, hsequential, hfree⟩, hnodup, hreturned⟩ := linearizable hrun
  obtain ⟨_, hserial, -⟩ := hasHistory_of_run hrun
  refine ⟨⟨items, ?_, hfree, firstInFirstOut hsequential⟩, hnodup, hreturned, order_of_run hs ht,
    fun p hp => hserial.exists_move (safe construct movedFrom) hp⟩
  have hreplay := replay_of_sequential hsequential
  rw [GuardedObject.history, List.map_map, List.map_map] at hreplay
  exact hreplay

open GuardedObject in
/-- One thread pushes an element while another one waits to pop it. -/
theorem safeQueue_linearizable_two_threads :
    let queue := safeQueue (fun n : ℕ => n) fun _ => 0
    let es : List (Move Bool (TQueueCall ℕ ℕ)) :=
      [.call false (.push 5), .lock false, .call true .pop, .work false, .work false]
    let es' : List (Move Bool (TQueueCall ℕ ℕ)) :=
      [.unlock false, .lock true, .work true, .ret false, .work true, .work true]
    ∃ t, run queue.step (initial queue) (es ++ es') = some t ∧
      t.order.map Effect.op = [.push 5, .pop] ∧
      (replay (fun n : ℕ => n) [.push 5, .pop] []).1 = t.order.map Effect.result := by
  intro queue es es'
  have hs : run queue.step (initial queue) es = some _ := rfl
  refine ⟨_, rfl, rfl, ?_⟩
  obtain ⟨⟨items, hreplay, -⟩, -⟩ :=
    safeQueue_linearizable (fun n : ℕ => n) (fun _ => 0) hs
      (rfl : run queue.step _ es' = some _)
  exact congrArg Prod.fst hreplay

end SafeQueue

end OllamaMitm
