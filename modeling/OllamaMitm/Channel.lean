import OllamaMitm.Lib.Runs
import OllamaMitm.Text

/-!
# The channel between the two threads

`TCommObject` and `CChunkedContentProvider::operator()` of `network/chunkedcontentprovider.cpp`,
over the `SafeQueue` of `common/safe_queue.h`.  The Ollama thread sends strings, the server thread
drains the queue into the sink, and both share the queue and the disconnect flag.  Every access to
one of the two is one atomic step, and the steps of the threads interleave in any order.  The flag
may also be set at any moment by anyone, as the destructor does.

The state keeps records that the program does not have: which strings were accepted, which of
these before the last pop, and which were lost.
-/

namespace OllamaMitm

/-- The size in front of a chunk, as `std::hex` prints it. -/
def hex (n : ℕ) : TString := (Nat.toDigits 16 n).map fun c => c.toNat.toUInt8

/-- What `operator()` hands to `sink.write` for a string of the queue. -/
def frame (what : TString) : TString :=
  hex what.length ++ lit "\r\n" ++ what ++ lit "\r\n"

/-- Where the Ollama thread stands in `SendToUser`. -/
inductive TSender where
  | outside
  /-- It has seen that the flag is not set and that the string is not empty. -/
  | pushing (what : TString)
deriving DecidableEq

/-- Where the server thread stands in `operator()`. -/
inductive TServer where
  /-- Between two calls. -/
  | outside
  /-- At the head of the loop. -/
  | popping
  /-- Before the check of the sink. -/
  | popped (what : TString)
  /-- Before `sink.write`. -/
  | writing (what : TString)
  /-- Before `DisconnectAll()`, because the sink is not writable. -/
  | givingUp
  /-- Before the end of the call. -/
  | returning (keepOpen : Bool)
  /-- After a call that returned false. -/
  | closed
deriving DecidableEq

/-- One atomic step of one of the threads. -/
inductive TEvent where
  /-- `SendToUser(what)` reads the flag. -/
  | sendToUser (what : TString)
  /-- `SendToUser` pushes its string. -/
  | push
  /-- `DisconnectAll()` of the Ollama thread or of the destructor. -/
  | disconnectAll
  /-- The server calls `operator()`. -/
  | call
  /-- The server calls `operator()` although it has returned false. -/
  | callAgain
  /-- `GetStringForUser()`. -/
  | pop
  /-- `sink.is_writable()` returns this. -/
  | isWritable (writable : Bool)
  /-- `DisconnectAll()` of `operator()`. -/
  | giveUp
  /-- `sink.write` returns. -/
  | write
  /-- `sink.write` throws, and the exception is caught. -/
  | writeThrows
  /-- `operator()` returns this. -/
  | returns (keepOpen : Bool)
deriving DecidableEq

/-- The state that the two threads share, where they stand, and what was written. -/
structure TChannel where
  ollamaToUser : List TString := []
  disconnected : Bool := false
  sender : TSender := .outside
  server : TServer := .outside
  /-- The chunks handed to `sink.write`. -/
  sink : List TString := []
  /-- The strings pushed by `SendToUser` so far. -/
  accepted : List TString := []
  /-- The strings that had been pushed when the server thread popped last. -/
  acceptedAtPop : List TString := []
  /-- The strings for which the sink was not writable. -/
  lost : List TString := []
deriving DecidableEq

namespace TChannel

/-! ## The steps -/

/-- What a step does, where it can be made. -/
def step (s : TChannel) : TEvent → Option TChannel
  | .sendToUser what =>
    match s.sender with
    | .outside =>
      if s.disconnected = false ∧ what ≠ [] then some { s with sender := .pushing what } else some s
    | .pushing _ => none
  | .push =>
    match s.sender with
    | .outside => none
    | .pushing what =>
      some { s with
        sender := .outside
        ollamaToUser := s.ollamaToUser ++ [what]
        accepted := s.accepted ++ [what] }
  | .disconnectAll => some { s with disconnected := true }
  | .call => if s.server = .outside then some { s with server := .popping } else none
  | .callAgain => if s.server = .closed then some { s with server := .popping } else none
  | .pop =>
    if s.server = .popping then
      match s.ollamaToUser with
      | [] => some { s with server := .returning true, acceptedAtPop := s.accepted }
      | what :: ollamaToUser =>
        some { s with
          server := .popped what
          ollamaToUser := ollamaToUser
          acceptedAtPop := s.accepted }
    else none
  | .isWritable writable =>
    match s.server with
    | .popped what =>
      if writable then
        some { s with server := if what = [] then .popping else .writing what }
      else some { s with server := .givingUp, lost := s.lost ++ [what] }
    | _ => none
  | .giveUp =>
    if s.server = .givingUp then some { s with server := .returning false, disconnected := true }
    else none
  | .write =>
    match s.server with
    | .writing what => some { s with server := .popping, sink := s.sink ++ [frame what] }
    | _ => none
  | .writeThrows =>
    match s.server with
    | .writing _ => some { s with server := .popping }
    | _ => none
  | .returns keepOpen =>
    if s.server = .returning keepOpen then
      some { s with server := if keepOpen then .outside else .closed }
    else none

/-- Any number of steps, in any order. -/
abbrev run : TChannel → List TEvent → Option TChannel := Lib.run step

/-- What each step does. -/
inductive Step (s : TChannel) : TEvent → TChannel → Prop
  | ignored {what : TString} (hsender : s.sender = .outside)
      (hno : ¬(s.disconnected = false ∧ what ≠ [])) : Step s (.sendToUser what) s
  | checked {what : TString} (hsender : s.sender = .outside) (hflag : s.disconnected = false)
      (hne : what ≠ []) : Step s (.sendToUser what) { s with sender := .pushing what }
  | pushed {what : TString} (hsender : s.sender = .pushing what) :
      Step s .push { s with
        sender := .outside
        ollamaToUser := s.ollamaToUser ++ [what]
        accepted := s.accepted ++ [what] }
  | disconnected : Step s .disconnectAll { s with disconnected := true }
  | called (hserver : s.server = .outside) : Step s .call { s with server := .popping }
  | calledAgain (hserver : s.server = .closed) : Step s .callAgain { s with server := .popping }
  | drained (hserver : s.server = .popping) (hqueue : s.ollamaToUser = []) :
      Step s .pop { s with server := .returning true, acceptedAtPop := s.accepted }
  | popped {what : TString} {rest : List TString} (hserver : s.server = .popping)
      (hqueue : s.ollamaToUser = what :: rest) :
      Step s .pop { s with
        server := .popped what
        ollamaToUser := rest
        acceptedAtPop := s.accepted }
  | skipped (hserver : s.server = .popped []) :
      Step s (.isWritable true) { s with server := .popping }
  | writable {what : TString} (hserver : s.server = .popped what) (hne : what ≠ []) :
      Step s (.isWritable true) { s with server := .writing what }
  | unwritable {what : TString} (hserver : s.server = .popped what) :
      Step s (.isWritable false) { s with server := .givingUp, lost := s.lost ++ [what] }
  | gaveUp (hserver : s.server = .givingUp) :
      Step s .giveUp { s with server := .returning false, disconnected := true }
  | written {what : TString} (hserver : s.server = .writing what) :
      Step s .write { s with server := .popping, sink := s.sink ++ [frame what] }
  | threw {what : TString} (hserver : s.server = .writing what) :
      Step s .writeThrows { s with server := .popping }
  | returned (hserver : s.server = .returning true) :
      Step s (.returns true) { s with server := .outside }
  | ended (hserver : s.server = .returning false) :
      Step s (.returns false) { s with server := .closed }

variable {s t : TChannel} {e : TEvent} {es : List TEvent}

lemma step_of_eq_some (h : step s e = some t) : Step s e t := by
  cases e with
  | sendToUser what =>
    simp only [step] at h
    split at h
    · next hsender =>
      split at h <;> rw [← Option.some.inj h]
      · next hgo => exact .checked hsender hgo.1 hgo.2
      · next hno => exact .ignored hsender hno
    · cases h
  | push =>
    simp only [step] at h
    split at h
    · cases h
    · next what hsender =>
      rw [← Option.some.inj h]
      exact .pushed hsender
  | disconnectAll =>
    rw [← Option.some.inj h]
    exact .disconnected
  | call =>
    obtain ⟨hserver, h⟩ := Option.ite_none_right_eq_some.1 h
    rw [← Option.some.inj h]
    exact .called hserver
  | callAgain =>
    obtain ⟨hserver, h⟩ := Option.ite_none_right_eq_some.1 h
    rw [← Option.some.inj h]
    exact .calledAgain hserver
  | pop =>
    obtain ⟨hserver, h⟩ := Option.ite_none_right_eq_some.1 h
    split at h
    · next hqueue =>
      rw [← Option.some.inj h]
      exact .drained hserver hqueue
    · next what rest hqueue =>
      rw [← Option.some.inj h]
      exact .popped hserver hqueue
  | isWritable writable =>
    simp only [step] at h
    split at h
    · next what hserver =>
      cases writable with
      | false =>
        rw [← Option.some.inj h]
        exact .unwritable hserver
      | true =>
        rw [← Option.some.inj h]
        by_cases hne : what = []
        · rw [if_pos hne]
          exact .skipped (by rw [hserver, hne])
        · rw [if_neg hne]
          exact .writable hserver hne
    · cases h
  | giveUp =>
    obtain ⟨hserver, h⟩ := Option.ite_none_right_eq_some.1 h
    rw [← Option.some.inj h]
    exact .gaveUp hserver
  | write =>
    simp only [step] at h
    split at h
    · next what hserver =>
      rw [← Option.some.inj h]
      exact .written hserver
    · cases h
  | writeThrows =>
    simp only [step] at h
    split at h
    · next what hserver =>
      rw [← Option.some.inj h]
      exact .threw hserver
    · cases h
  | returns keepOpen =>
    obtain ⟨hserver, h⟩ := Option.ite_none_right_eq_some.1 h
    rw [← Option.some.inj h]
    cases keepOpen with
    | true => exact .returned hserver
    | false => exact .ended hserver

end TChannel

end OllamaMitm
