import OllamaMitm.Channel
import OllamaMitm.Lib.ChunkedCoding

/-!
# Delivery to the user

The queue is drained in order.  A string that was accepted is written, unless the sink was not
writable when the server thread held it; after that nothing is written any more, the flag is set,
and the call ends the response.
-/

namespace OllamaMitm

open Lib

/-- What is assumed of the sink and the server: `sink.write` does not throw, and `operator()` is
not called again once it has returned false. -/
def TEvent.Assumed (e : TEvent) : Prop := e ≠ .writeThrows ∧ e ≠ .callAgain

/-- The string that the Ollama thread is about to push. -/
def TSender.pending : TSender → List TString
  | .outside => []
  | .pushing what => [what]

/-- The string that the server thread has taken from the queue. -/
def TServer.inHand : TServer → List TString
  | .popped what | .writing what => [what]
  | _ => []

/-- The server thread ends the response. -/
def TServer.Leaves (server : TServer) : Prop :=
  server = .givingUp ∨ server = .returning false ∨ server = .closed

/-- A frame is a chunk that carries the string. -/
lemma isChunkOf_frame (what : TString) : IsChunkOf what (frame what) :=
  ⟨hex what.length, numeral_toDigits _, rfl⟩

lemma forall₂_isChunkOf_frame (strings : List TString) :
    List.Forall₂ IsChunkOf strings (strings.map frame) :=
  List.forall₂_map_right_iff.2 (List.forall₂_same.2 fun what _ => isChunkOf_frame what)

namespace TChannel

variable {s t : TChannel} {e : TEvent} {es : List TEvent}

/-! ## The books -/

/-- What becomes of the accepted strings. -/
structure Accounted (s : TChannel) : Prop where
  books : ∃ payloads, s.sink = payloads.map frame ∧
    s.accepted = payloads ++ s.lost ++ s.server.inHand ++ s.ollamaToUser
  nonempty : ∀ what ∈ s.sender.pending ++ s.server.inHand ++ s.ollamaToUser, what ≠ []
  lost : s.lost ≠ [] → s.server.Leaves
  flag : s.server = .returning false ∨ s.server = .closed → s.disconnected = true
  atPop : s.server = .returning true → s.accepted = s.acceptedAtPop ++ s.ollamaToUser

lemma accounted_init : Accounted {} where
  books := ⟨[], rfl, rfl⟩
  nonempty := by simp [TSender.pending, TServer.inHand]
  lost := by simp
  flag := by simp
  atPop := by simp

/-- Outside of the end of the response nothing was lost. -/
lemma Accounted.lost_eq_nil (h : s.Accounted) (hserver : ¬s.server.Leaves) : s.lost = [] := by
  by_contra hlost
  exact hserver (h.lost hlost)

/-- The server thread goes on with what it has in hand. -/
lemma Accounted.move (h : s.Accounted) {server : TServer}
    (hhand : server.inHand = s.server.inHand) (hlost : s.lost ≠ [] → server.Leaves)
    (hflag : server = .returning false ∨ server = .closed → s.disconnected = true)
    (hopen : server ≠ .returning true) : Accounted { s with server := server } where
  books := by
    obtain ⟨payloads, hsink, hbooks⟩ := h.books
    exact ⟨payloads, hsink, by rw [hbooks, hhand]⟩
  nonempty := by
    rw [hhand]
    exact h.nonempty
  lost := hlost
  flag := hflag
  atPop := fun h => absurd h hopen

lemma Accounted.disconnect (h : s.Accounted) : Accounted { s with disconnected := true } :=
  ⟨h.books, h.nonempty, h.lost, fun _ => rfl, h.atPop⟩

/-- **The books are kept by every step.** -/
theorem Accounted.step (h : s.Accounted) (he : e.Assumed) (hstep : Step s e t) : t.Accounted := by
  obtain ⟨payloads, hsink, hbooks⟩ := h.books
  have hlost (hserver : ¬s.server.Leaves) {P : Prop} (hne : s.lost ≠ []) : P :=
    absurd (h.lost_eq_nil hserver) hne
  cases hstep with
  | ignored => exact h
  | @checked what hsender hflag hne =>
    refine ⟨h.books, ?_, h.lost, h.flag, h.atPop⟩
    have := h.nonempty
    rw [hsender] at this
    simpa [TSender.pending, hne] using this
  | @pushed what hsender =>
    refine ⟨⟨payloads, hsink, ?_⟩, fun x hx => h.nonempty x ?_, h.lost, h.flag, fun hserver => ?_⟩
    · simp only [hbooks, List.append_assoc]
    · rw [hsender]
      simp only [TSender.pending, List.nil_append, List.mem_append, List.mem_singleton] at hx ⊢
      tauto
    · simp only [h.atPop hserver, List.append_assoc]
  | disconnected => exact h.disconnect
  | called hserver =>
    exact h.move (by simp [hserver, TServer.inHand])
      (hlost (by simp [TServer.Leaves, hserver])) (by simp) (by simp)
  | calledAgain => exact absurd rfl he.2 -- excluded by assumption
  | drained hserver hqueue =>
    -- the queue is empty, so what was accepted up to now was accepted before this pop
    refine ⟨⟨payloads, hsink, ?_⟩, ?_, hlost (by simp [TServer.Leaves, hserver]), by simp,
      fun _ => ?_⟩
    · simpa [hserver, TServer.inHand] using hbooks
    · simpa [hserver, TServer.inHand] using h.nonempty
    · rw [hqueue, List.append_nil]
  | @popped what rest hserver hqueue =>
    refine ⟨⟨payloads, hsink, ?_⟩, ?_, hlost (by simp [TServer.Leaves, hserver]), by simp, by simp⟩
    · simpa [hserver, hqueue, TServer.inHand] using hbooks
    · simpa [hserver, hqueue, TServer.inHand] using h.nonempty
  | skipped hserver =>
    -- no empty string was pushed
    refine absurd rfl (h.nonempty [] ?_)
    rw [hserver]
    simp [TServer.inHand]
  | writable hserver =>
    exact h.move (by simp [hserver, TServer.inHand])
      (hlost (by simp [TServer.Leaves, hserver])) (by simp) (by simp)
  | @unwritable what hserver =>
    -- the string moves from the hand to the lost ones
    refine ⟨⟨payloads, hsink, ?_⟩, fun x hx => h.nonempty x ?_, fun _ => Or.inl rfl, by simp,
      by simp⟩
    · simpa [hserver, TServer.inHand] using hbooks
    · simp only [TServer.inHand, List.append_nil, List.mem_append] at hx
      simp only [List.mem_append]
      tauto
  | gaveUp hserver =>
    exact h.disconnect.move (by simp [hserver, TServer.inHand]) (fun _ => Or.inr (Or.inl rfl))
      (fun _ => rfl) (by simp)
  | @written what hserver =>
    -- nothing was lost before, so the string continues what was written
    have hnil := h.lost_eq_nil (by simp [TServer.Leaves, hserver])
    refine ⟨⟨payloads ++ [what], by simp [hsink], ?_⟩, fun x hx => h.nonempty x ?_,
      fun hne => absurd hnil hne, by simp, by simp⟩
    · simpa [hserver, hnil, TServer.inHand] using hbooks
    · simp only [TServer.inHand, List.append_nil, List.mem_append] at hx
      simp only [List.mem_append]
      tauto
  | threw => exact absurd rfl he.1
  | returned hserver =>
    exact h.move (by simp [hserver, TServer.inHand])
      (hlost (by simp [TServer.Leaves, hserver])) (by simp) (by simp)
  | ended hserver =>
    exact h.move (by simp [hserver, TServer.inHand]) (fun _ => Or.inr (Or.inr rfl))
      (fun _ => h.flag (Or.inl hserver)) (by simp)

lemma preserves_accounted : Preserves step TEvent.Assumed Accounted :=
  fun _ _ _ hs he hstep => hs.step he (step_of_eq_some hstep)

/-! ## After a loss -/

/-- The server thread ends the response, and writes and loses nothing more. -/
structure Left (sink lost : List TString) (s : TChannel) : Prop where
  server : s.server.Leaves
  sink : s.sink = sink
  lost : s.lost = lost

lemma preserves_left (sink lost : List TString) :
    Preserves step TEvent.Assumed (Left sink lost) := by
  intro s e t hs he hstep
  have hserver := hs.server
  rw [TServer.Leaves] at hserver
  cases step_of_eq_some hstep with
  | ignored | checked | pushed | disconnected => exact ⟨hs.server, hs.sink, hs.lost⟩
  | calledAgain => exact absurd rfl he.2
  | threw => exact absurd rfl he.1
  | gaveUp => exact ⟨Or.inr (Or.inl rfl), hs.sink, hs.lost⟩
  | ended => exact ⟨Or.inr (Or.inr rfl), hs.sink, hs.lost⟩
  | called h | drained h | popped h | skipped h | writable h | unwritable h | written h
  | returned h => simp [h] at hserver

/-- From there on no call returns true. -/
lemma Left.not_mem {sink lost : List TString} (h : Left sink lost s) (hes : ∀ e ∈ es, e.Assumed)
    (hrun : run s es = some t) : .returns true ∉ es := by
  refine (preserves_left sink lost).not_mem hrun hes h fun u v hu hstep => ?_
  cases step_of_eq_some hstep with
  | returned hserver =>
    have := hu.server
    simp [TServer.Leaves, hserver] at this

/-- The server thread alone can end the call, and the flag is set then. -/
lemma Accounted.exists_run_closed (h : s.Accounted) (hserver : s.server.Leaves) :
    ∃ es t, run s es = some t ∧ (∀ e ∈ es, e = .giveUp ∨ e = .returns false) ∧
      t.server = .closed ∧ t.disconnected = true := by
  rcases hserver with hserver | hserver | hserver
  · refine ⟨[.giveUp, .returns false], { s with disconnected := true, server := .closed }, ?_,
      by simp, rfl, rfl⟩
    simp [run, Lib.run, TChannel.step, hserver]
  · refine ⟨[.returns false], { s with server := .closed }, ?_, by simp, rfl,
      h.flag (Or.inl hserver)⟩
    simp [run, Lib.run, TChannel.step, hserver]
  · exact ⟨[], s, rfl, by simp, hserver, h.flag (Or.inr hserver)⟩

/-! ## After the flag was set -/

/-- The flag is set, and `SendToUser` can accept no other strings than these. -/
structure Flagged (strings : List TString) (s : TChannel) : Prop where
  flag : s.disconnected = true
  strings : s.accepted ++ s.sender.pending = strings

lemma preserves_flagged (strings : List TString) :
    Preserves step (fun _ => True) (Flagged strings) := by
  intro s e t hs _ hstep
  obtain ⟨hflag, hstrings⟩ := hs
  cases step_of_eq_some hstep with
  | checked _ hflag' => exact absurd (hflag.symm.trans hflag') (by decide)
  | pushed hsender =>
    refine ⟨hflag, ?_⟩
    rw [hsender] at hstrings
    simpa [TSender.pending] using hstrings
  | disconnected | gaveUp => exact ⟨rfl, hstrings⟩
  | ignored | called | calledAgain | drained | popped | skipped | writable | unwritable | written
  | threw | returned | ended => exact ⟨hflag, hstrings⟩

/-! ## What a run has accepted and lost -/

/-- The string that a step accepts: `SendToUser` is called with a string that is not empty, and has
not seen the flag. -/
def acceptedBy (s : TChannel) : TEvent → List TString
  | .sendToUser what => if s.disconnected = false ∧ what ≠ [] then [what] else []
  | _ => []

/-- The string that a step loses: the server thread has it in hand when the sink is not writable. -/
def lostBy (s : TChannel) : TEvent → List TString
  | .isWritable false => s.server.inHand
  | _ => []

lemma accepted_step (hstep : step s e = some t) :
    t.accepted ++ t.sender.pending = s.accepted ++ s.sender.pending ++ s.acceptedBy e := by
  cases step_of_eq_some hstep with
  | ignored hsender hno => simp [acceptedBy, hno]
  | checked hsender hflag hne => simp [acceptedBy, hsender, hflag, hne, TSender.pending]
  | pushed hsender => simp [acceptedBy, hsender, TSender.pending]
  | disconnected | called | calledAgain | drained | popped | skipped | writable | unwritable
  | gaveUp | written | threw | returned | ended => simp [acceptedBy]

lemma lost_step (hstep : step s e = some t) : t.lost = s.lost ++ s.lostBy e := by
  cases step_of_eq_some hstep with
  | unwritable hserver => simp [lostBy, hserver, TServer.inHand]
  | ignored | checked | pushed | disconnected | called | calledAgain | drained | popped | skipped
  | writable | gaveUp | written | threw | returned | ended => simp [lostBy]

lemma preserves_acceptedAtPop (strings : List TString) :
    Preserves step (fun e => e ≠ .pop) fun s => s.acceptedAtPop = strings := by
  intro s e t hs he hstep
  cases step_of_eq_some hstep with
  | drained | popped => exact absurd rfl he
  | ignored | checked | pushed | disconnected | called | calledAgain | skipped | writable
  | unwritable | gaveUp | written | threw | returned | ended => exact hs

/-! ## The law -/

/-- The messages to the user are delivered in order and exactly once, and a disconnect does not
discard what was accepted: the events `es` have led to the state `s`. -/
structure Delivers (es : List TEvent) (s : TChannel) : Prop where
  /-- The strings accepted are those that are not empty and for which `SendToUser` has not seen the
  flag, in their order; the last one may not be pushed yet. -/
  accepted : s.accepted ++ s.sender.pending = yields step acceptedBy {} es
  /-- A string is lost only when it is in the hands of the server thread and the sink is not
  writable. -/
  lost : s.lost = yields step lostBy {} es
  /-- What was written carries a prefix of what was accepted, string by string, and what is neither
  written nor lost is in the hands of the server thread or in the queue. -/
  inOrder : ∃ payloads, List.Forall₂ IsChunkOf payloads s.sink ∧ payloads <+: s.accepted ∧
    s.accepted = payloads ++ s.lost ++ s.server.inHand ++ s.ollamaToUser
  /-- When `operator()` returns true, all that was accepted before its last pop is written. -/
  returnsTrue : ∀ before after u t, es = before ++ .pop :: after → .pop ∉ after →
    run {} before = some u → step s (.returns true) = some t →
    List.Forall₂ IsChunkOf u.accepted t.sink
  /-- When the sink is not writable, the string in hand is the one that is lost.  The call does not
  return true, nothing more is written, and when it returns false the flag is set. -/
  loss : ∀ before after u, es = before ++ .isWritable false :: after → run {} before = some u →
    (∃ what, u.server = .popped what ∧ s.lost = [what]) ∧ s.sink = u.sink ∧
      .returns true ∉ after ∧ (.returns false ∈ after → s.disconnected = true)
  /-- Then the server thread alone can end the call: it returns false, and the flag is set. -/
  closes : .isWritable false ∈ es → ∃ es' t, run s es' = some t ∧
    (∀ e ∈ es', e = .giveUp ∨ e = .returns false) ∧ t.server = .closed ∧ t.disconnected = true
  /-- Once the flag is set, only a `SendToUser` that has read it before may add its string. -/
  flagged : s.disconnected = true → ∀ es' t, run s es' = some t →
    t.accepted ++ t.sender.pending = s.accepted ++ s.sender.pending

/-- After a step that finds the sink not writable, the server thread leaves. -/
lemma Accounted.left_of_unwritable (h : s.Accounted)
    (hstep : TChannel.step s (.isWritable false) = some t) :
    ∃ what, s.server = .popped what ∧ Left s.sink [what] t := by
  cases step_of_eq_some hstep with
  | @unwritable what hserver =>
    have hnil := h.lost_eq_nil (by simp [TServer.Leaves, hserver])
    exact ⟨what, hserver, Or.inl rfl, rfl, by rw [hnil, List.nil_append]⟩

/-- A call that has returned false has set the flag. -/
lemma Accounted.disconnected_of_mem (h : s.Accounted) (hes : ∀ e ∈ es, e.Assumed)
    (hrun : run s es = some t) (hmem : .returns false ∈ es) : t.disconnected = true := by
  obtain ⟨es₁, es₂, u, v, rfl, hu, hstep⟩ := exists_step_of_mem hrun hmem
  have hu' : u.Accounted := preserves_accounted.run hu (fun e he => hes e (by simp [he])) h
  have hv := hu'.step (hes _ hmem) (step_of_eq_some hstep)
  have hflag : v.disconnected = true := by
    cases step_of_eq_some hstep with
    | ended => exact hv.flag (Or.inr rfl)
  obtain ⟨u', hrun', hrest⟩ := run_append_eq_some.1 hrun
  obtain rfl : u = u' := Option.some.inj (hu.symm.trans hrun')
  obtain ⟨v', hstep', hrest⟩ := run_cons_eq_some.1 hrest
  obtain rfl : v = v' := Option.some.inj (hstep.symm.trans hstep')
  exact ((preserves_flagged _).run hrest (fun _ _ => trivial) ⟨hflag, rfl⟩).flag

/-- What happens from an attempt to write to a sink that is not writable up to the state `t`. -/
lemma Accounted.loss (h : s.Accounted) (hes : ∀ e ∈ .isWritable false :: es, e.Assumed)
    (hrun : run s (.isWritable false :: es) = some t) :
    (∃ what, s.server = .popped what ∧ t.lost = [what]) ∧ t.server.Leaves ∧ t.sink = s.sink ∧
      .returns true ∉ es ∧ (.returns false ∈ es → t.disconnected = true) := by
  obtain ⟨u, hu, hrest⟩ := run_cons_eq_some.1 hrun
  have hes' : ∀ e ∈ es, e.Assumed := fun e he => hes e (by simp [he])
  obtain ⟨what, hserver, hleft⟩ := h.left_of_unwritable hu
  have ht := (preserves_left s.sink [what]).run hrest hes' hleft
  have hu' : u.Accounted := h.step (hes _ (by simp)) (step_of_eq_some hu)
  exact ⟨⟨what, hserver, ht.lost⟩, ht.server, ht.sink, hleft.not_mem hes' hrest,
    hu'.disconnected_of_mem hes' hrest⟩

/-- What was written when a call returns true. -/
lemma Accounted.written_of_returns (h : s.Accounted)
    (hstep : TChannel.step s (.returns true) = some t) : t.sink = s.acceptedAtPop.map frame := by
  obtain ⟨payloads, hsink, hbooks⟩ := h.books
  cases step_of_eq_some hstep with
  | returned hserver =>
    have hnil := h.lost_eq_nil (by simp [TServer.Leaves, hserver])
    have hpayloads : payloads = s.acceptedAtPop := by
      have := h.atPop hserver
      rw [hbooks, hnil, hserver] at this
      simpa [TServer.inHand] using this
    rw [← hpayloads]
    exact hsink

/-- The strings accepted when the server thread popped last. -/
lemma acceptedAtPop_of_run (hrun : run s (.pop :: es) = some t) (hno : .pop ∉ es) :
    t.acceptedAtPop = s.accepted := by
  obtain ⟨u, hu, hrest⟩ := run_cons_eq_some.1 hrun
  have hpop : u.acceptedAtPop = s.accepted := by
    cases step_of_eq_some hu with
    | drained | popped => rfl
  refine (preserves_acceptedAtPop s.accepted).run hrest (fun e he => ?_) hpop
  rintro rfl
  exact hno he

/-- **Messages to the user are delivered in order, exactly once.** -/
theorem delivers (h : run {} es = some s) (hes : ∀ e ∈ es, e.Assumed) : s.Delivers es := by
  have haccounted {es' : List TEvent} {u : TChannel} (hes' : ∀ e ∈ es', e.Assumed)
      (hu : run {} es' = some u) : u.Accounted := preserves_accounted.run hu hes' accounted_init
  have hs := haccounted hes h
  -- a run that is cut in two
  have hcut {before after : List TEvent} {u : TChannel} (hsplit : es = before ++ after)
      (hu : run {} before = some u) : u.Accounted ∧ run u after = some s := by
    subst hsplit
    obtain ⟨u', hu', hrest⟩ := run_append_eq_some.1 h
    obtain rfl : u = u' := Option.some.inj (hu.symm.trans hu')
    exact ⟨haccounted (fun e he => hes e (by simp [he])) hu, hrest⟩
  refine ⟨?_, ?_, ?_, ?_, ?_, ?_, ?_⟩
  · exact yields_of_run (g := fun s => s.accepted ++ s.sender.pending)
      (fun _ _ _ hstep => accepted_step hstep) h
  · exact yields_of_run (fun _ _ _ hstep => lost_step hstep) h
  · obtain ⟨payloads, hsink, hbooks⟩ := hs.books
    refine ⟨payloads, hsink ▸ forall₂_isChunkOf_frame payloads, ?_, hbooks⟩
    rw [hbooks, List.append_assoc, List.append_assoc]
    exact List.prefix_append _ _
  · intro before after u t hsplit hno hu hstep
    have hrest := (hcut hsplit hu).2
    rw [hs.written_of_returns hstep, acceptedAtPop_of_run hrest hno]
    exact forall₂_isChunkOf_frame _
  · intro before after u hsplit hu
    obtain ⟨hu', hrest⟩ := hcut hsplit hu
    obtain ⟨hlost, -, hafter⟩ := hu'.loss (fun e he => hes e (by rw [hsplit]; simp [he])) hrest
    exact ⟨hlost, hafter⟩
  · intro hmem
    obtain ⟨before, after, hsplit⟩ := List.append_of_mem hmem
    obtain ⟨u, hu, -⟩ := run_append_eq_some.1 (hsplit ▸ h)
    obtain ⟨hu', hrest⟩ := hcut hsplit hu
    obtain ⟨-, hleaves, -⟩ := hu'.loss (fun e he => hes e (by rw [hsplit]; simp [he])) hrest
    exact hs.exists_run_closed hleaves
  · intro hflag es' t ht
    exact ((preserves_flagged _).run ht (fun _ _ => trivial) ⟨hflag, rfl⟩).strings

/-- Two strings are sent, the sink is not writable for the second one, which is lost. -/
theorem delivers_one_of_two :
    let es : List TEvent :=
      [.sendToUser (lit "Hi"), .push, .call, .pop, .sendToUser (lit " there"), .isWritable true,
        .write, .push, .pop, .isWritable false, .giveUp, .returns false]
    let s : TChannel :=
      { disconnected := true, server := .closed, sink := [frame (lit "Hi")],
        accepted := [lit "Hi", lit " there"], acceptedAtPop := [lit "Hi", lit " there"],
        lost := [lit " there"] }
    run {} es = some s ∧ s.Delivers es := by
  intro es s
  have hs : run {} es = some s := by decide
  have hes : ∀ e ∈ es, e.Assumed := by
    simp [es, TEvent.Assumed]
  exact ⟨hs, delivers hs hes⟩

end TChannel

end OllamaMitm
