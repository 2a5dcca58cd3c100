import OllamaMitm.Delivery

/-!
# The end of the connection

The server keeps calling `operator()` as long as it returns true, for `sink.done()` is never
called.  But an empty queue always makes it return true: the loop that drains the queue does not
look at the flag.  So once a session is over, nothing closes the connection of the user.
-/

namespace OllamaMitm

open Lib

namespace TChannel

variable {s t : TChannel} {es : List TEvent}

/-- The next call of `operator()`, however it is interleaved with the Ollama thread, does not
return true. -/
def EndsResponse (s : TChannel) : Prop :=
  ∀ es t, (∀ keepOpen, .returns keepOpen ∉ es) →
    run s (.call :: es ++ [.returns true]) ≠ some t

/-- The session is over, and the connection is still open. -/
structure Over (s : TChannel) : Prop where
  flag : s.disconnected = true
  queue : s.ollamaToUser = []
  sender : s.sender = .outside
  server : s.server = .outside ∨ s.server = .popping ∨ s.server = .returning true

lemma preserves_over : Preserves step (fun _ => True) Over := by
  intro s e t hs _ hstep
  obtain ⟨hflag, hqueue, hsender, hserver⟩ := hs
  cases step_of_eq_some hstep with
  | checked _ hflag' => exact absurd (hflag.symm.trans hflag') (by decide)
  | pushed h => exact absurd (hsender.symm.trans h) (by simp)
  | popped _ h => exact absurd (hqueue.symm.trans h) (by simp)
  | disconnected => exact ⟨rfl, hqueue, hsender, hserver⟩
  | ignored => exact ⟨hflag, hqueue, hsender, hserver⟩
  | called => exact ⟨hflag, hqueue, hsender, Or.inr (Or.inl rfl)⟩
  | drained => exact ⟨hflag, hqueue, hsender, Or.inr (Or.inr rfl)⟩
  | returned => exact ⟨hflag, hqueue, hsender, Or.inl rfl⟩
  | calledAgain h | skipped h | writable h | unwritable h | gaveUp h | written h | threw h
  | ended h => simp [h] at hserver

/-- No call ends the response any more. -/
lemma Over.not_mem (h : Over s) (hrun : run s es = some t) : .returns false ∉ es := by
  refine preserves_over.not_mem hrun (fun _ _ => trivial) h fun u v hu hstep => ?_
  cases step_of_eq_some hstep with
  | ended hserver =>
    have := hu.server
    simp [hserver] at this

/-- A call that finds the queue empty returns true. -/
lemma not_endsResponse (hqueue : s.ollamaToUser = []) (hserver : s.server = .outside) :
    ¬s.EndsResponse := by
  intro hend
  refine hend [.pop] { s with server := .outside, acceptedAtPop := s.accepted } (by simp) ?_
  simp [run, Lib.run, step, hqueue, hserver]

/-- **The connection is not closed once the session is over.**  In every state, reachable or not,
in which the flag is set, the queue is empty and the server may call `operator()` again, that call
may return true; and unless the Ollama thread is still about to push a string, no call will ever
end the response. -/
theorem stays_open (hflag : s.disconnected = true) (hqueue : s.ollamaToUser = [])
    (hserver : s.server = .outside) :
    ¬s.EndsResponse ∧
      (s.sender = .outside → ∀ es t, run s es = some t → .returns false ∉ es) := by
  refine ⟨not_endsResponse hqueue hserver, fun hsender es t ht => ?_⟩
  have hover : Over s := ⟨hflag, hqueue, hsender, Or.inl hserver⟩
  exact hover.not_mem ht

/-- The Ollama thread sends one string and ends the session, and the server writes the string. -/
theorem stays_open_after_reply :
    let es : List TEvent :=
      [.sendToUser (lit "Hi"), .push, .disconnectAll, .call, .pop, .isWritable true, .write, .pop,
        .returns true]
    let s : TChannel :=
      { disconnected := true, sink := [frame (lit "Hi")], accepted := [lit "Hi"],
        acceptedAtPop := [lit "Hi"] }
    run {} es = some s ∧ ∀ es t, run s es = some t → .returns false ∉ es := by
  intro es s
  exact ⟨by decide, (stays_open rfl rfl rfl).2 rfl⟩

/-- In the state after that session the next call does not end the response. -/
theorem not_endsResponse_after_reply :
    ¬∀ es s, run {} es = some s → s.disconnected = true → s.ollamaToUser = [] →
      s.server = .outside → s.EndsResponse := by
  intro h
  let es : List TEvent :=
    [.sendToUser (lit "Hi"), .push, .disconnectAll, .call, .pop, .isWritable true, .write, .pop,
      .returns true]
  have hs : run {} es = some
      { disconnected := true, sink := [frame (lit "Hi")], accepted := [lit "Hi"],
        acceptedAtPop := [lit "Hi"] } := by decide
  exact not_endsResponse rfl rfl (h es _ hs rfl rfl rfl)

end TChannel

end OllamaMitm
