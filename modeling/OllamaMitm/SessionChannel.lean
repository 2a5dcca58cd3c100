import OllamaMitm.Closing
import OllamaMitm.Rounds

/-!
# A session on the channel

The thread of a session sees the channel through `TCommObject` only.  Whatever it does there is a
sequence of accesses, and every sequence of accesses is a run of the two threads: a flag that the
thread finds set has been set by somebody before.  So what is proved of the channel holds for
sessions.
-/

namespace OllamaMitm

open Lib

variable {env : TEnvironment} {commands : TAiCommands} {parsedUserJson : Json}

/-- The accesses that the Ollama thread makes to the communication object. -/
inductive TCommObject.Accesses (env : TEnvironment) (c : TCommObject) : TCommObject → Prop
  | refl : Accesses env c c
  | tick {d : TCommObject} (h : Accesses env c d) : Accesses env c { d with clock := d.clock + 1 }
  | isDisconnected {d : TCommObject} (h : Accesses env c d) : Accesses env c (d.isDisconnected env)
  | sendToUser {d : TCommObject} (h : Accesses env c d) (what : Option TUserMessage) :
      Accesses env c (d.sendToUser env what)
  | disconnectAll {d : TCommObject} (h : Accesses env c d) : Accesses env c d.disconnectAll

lemma TCommObject.Accesses.trans {c d e : TCommObject} (h : c.Accesses env d)
    (h' : d.Accesses env e) : c.Accesses env e := by
  induction h' with
  | refl => exact h
  | tick _ ih => exact ih.tick
  | isDisconnected _ ih => exact ih.isDisconnected
  | sendToUser _ what ih => exact ih.sendToUser what
  | disconnectAll _ ih => exact ih.disconnectAll

/-! ## All that a session does -/

namespace TThread

/-- From one thread to the other the channel is accessed, and nothing else is done to it. -/
def Accesses (env : TEnvironment) (s t : TThread) : Prop := s.commObject.Accesses env t.commObject

variable {s t u : TThread}

lemma Accesses.trans (h : s.Accesses env t) (h' : t.Accesses env u) : s.Accesses env u :=
  TCommObject.Accesses.trans h h'

lemma accesses_isDisconnected (s : TThread) : s.Accesses env (s.isDisconnected env) :=
  .isDisconnected .refl

lemma accesses_sendToUser (s : TThread) (what : Option TUserMessage) :
    s.Accesses env (s.sendToUser env what) := .sendToUser .refl what

lemma accesses_disconnectAll (s : TThread) : s.Accesses env s.disconnectAll := .disconnectAll .refl

lemma accesses_isThreadLoopingYet (s : TThread) : s.Accesses env (s.isThreadLoopingYet env) := by
  unfold isThreadLoopingYet
  simp only
  split
  · exact .tick .refl
  · exact .isDisconnected (.tick .refl)

lemma accesses_ping (s : TThread) : s.Accesses env (s.ping env) := by
  rw [ping]
  split
  · exact .refl
  · exact accesses_sendToUser s (some _)

lemma accesses_finish (s : TThread) : s.Accesses env (s.finish env) := by
  rw [finish]
  split
  · exact .refl
  · exact accesses_sendToUser s _

lemma accesses_respondToUserAndOllama (s : TThread) (status : EReadingBehahve) :
    s.Accesses env (s.respondToUserAndOllama env status).2 := by
  cases status with
  | ollamaHasMore => exact accesses_isDisconnected s
  | communicationFailure | ollamaSentAll => exact accesses_disconnectAll s

lemma accesses_sendPlainTextToUser (s : TThread) (r : TOllamaResponse) (plain : TString) :
    s.Accesses env (s.sendPlainTextToUser env r plain).2 := by
  unfold sendPlainTextToUser
  simp only
  split
  · exact accesses_finish s
  · exact ((accesses_finish s).trans (accesses_sendToUser _ _)).trans (accesses_isDisconnected _)

lemma accesses_visitDecision (s : TThread) (r : TOllamaResponse) (decision : TDecision) :
    s.Accesses env (s.visitDecision env r decision).2 := by
  cases decision with
  | alreadyDetected => exact (accesses_sendToUser s _).trans (accesses_isDisconnected _)
  | needMoreData status collected =>
    rw [visitDecision]
    split
    · exact accesses_sendPlainTextToUser s r collected
    · exact accesses_isDisconnected s
  | passToUser status collected => exact accesses_sendPlainTextToUser s r collected
  | detected detected =>
    rw [visitDecision, setValue]
    split <;> exact .refl

lemma accesses_concludeResponse (status : EReadingBehahve) (x : Except TException Bool × TThread) :
    x.2.Accesses env (concludeResponse env status x).2 := by
  rcases x with ⟨_ | _ | _, s⟩
  · exact accesses_respondToUserAndOllama s _
  · exact .refl
  · exact accesses_respondToUserAndOllama s _

lemma accesses_ollamaResponseHandler (env : TEnvironment) (commands : TAiCommands) (s : TThread)
    (r : TOllamaResponse) :
    s.Accesses env (s.ollamaResponseHandler env commands r).2 := by
  have hread : s.Accesses env (s.isDisconnected env) := accesses_isDisconnected s
  have hupdate : s.Accesses env ((s.isDisconnected env).updateDetector commands r) := hread
  rw [ollamaResponseHandler]
  simp only
  split
  · exact hread
  · split
    · exact hupdate.trans (accesses_respondToUserAndOllama _ _)
    · exact hupdate.trans (accesses_respondToUserAndOllama _ _)
    · exact (hupdate.trans (accesses_visitDecision _ r _)).trans (accesses_concludeResponse _ _)

lemma accesses_deliver (rs : List TOllamaResponse) (s : TThread) :
    s.Accesses env (s.deliver env commands rs) := by
  induction rs generalizing s with
  | nil => exact .refl
  | cons r rs ih =>
    have hhandler := accesses_ollamaResponseHandler env commands s r
    rw [deliver]
    split
    · next heq =>
      rw [heq] at hhandler
      exact hhandler.trans (ih _)
    · next heq =>
      rw [heq] at hhandler
      exact hhandler

lemma accesses_makeResponseForCommand (s : TThread) (aiCommand : TDetected) :
    s.Accesses env (s.makeResponseForCommand env commands parsedUserJson aiCommand).2 := by
  rw [makeResponseForCommand]
  split
  · exact .refl
  · next cmd _ =>
    have hping : s.Accesses env (s.ping env) := accesses_ping s
    let u : TThread := { s.ping env with
      calls := (s.ping env).calls ++ [⟨aiCommand.whatDetected, aiCommand.collectedString⟩] }
    have hagain : (s.ping env).Accesses env (u.ping env) := accesses_ping u
    simp only
    split
    · exact hping
    · exact hping
    · exact hping.trans hagain
    · exact hping.trans hagain

lemma accesses_respondText (s : TThread) (model responseForUser : TString) :
    s.Accesses env (s.respondText env model responseForUser) :=
  Accesses.trans (t := TThread.finish env { s with loopDetector := s.loopDetector.reset })
    (accesses_finish { s with loopDetector := s.loopDetector.reset }) (accesses_sendToUser _ _)

lemma accesses_respondRequest (s : TThread) (cmd : TString) (forOllama : Json) :
    s.Accesses env (s.respondRequest parsedUserJson cmd forOllama).2 := by
  rw [respondRequest]
  simp only
  split
  · exact .refl
  · exact .refl

lemma accesses_handleCommand (s : TThread) (model : TString) (aiCommand : TDetected) :
    s.Accesses env (s.handleCommand env commands parsedUserJson model aiCommand).2 := by
  have hmake : s.Accesses env (s.makeResponseForCommand env commands parsedUserJson aiCommand).2 :=
    accesses_makeResponseForCommand s aiCommand
  rw [handleCommand]
  split
  · next heq =>
    rw [heq] at hmake
    exact hmake
  · next heq =>
    rw [heq] at hmake
    exact hmake.trans (accesses_respondText _ _ _)
  · next heq =>
    rw [heq] at hmake
    exact hmake.trans (accesses_respondRequest _ _ _)

lemma accesses_finishInnerLoop (x : Except TException Json × TThread) :
    x.2.Accesses env (finishInnerLoop env x).2 := by
  rcases x with ⟨_ | _, s⟩
  · exact .refl
  · exact accesses_finish s

lemma accesses_getFuture (s : TThread) (model : TString) :
    s.Accesses env (s.getFuture env commands parsedUserJson model).2 := by
  rw [getFuture]
  split
  · exact .refl
  · exact (accesses_handleCommand _ _ _).trans (accesses_finishInnerLoop _)

lemma accesses_innerLoop (s : TThread) (model : TString) :
    s.Accesses env (s.innerLoop env commands parsedUserJson model).2 := by
  have h₁ : s.Accesses env (s.isThreadLoopingYet env) := accesses_isThreadLoopingYet s
  have h₂ : s.Accesses env ((s.isThreadLoopingYet env).isThreadLoopingYet env) :=
    h₁.trans (accesses_isThreadLoopingYet _)
  rw [innerLoop]
  simp only
  split
  · split
    · exact h₂.trans (accesses_getFuture _ _)
    · exact (h₂.trans (accesses_isThreadLoopingYet _)).trans (accesses_finish _)
  · exact h₁.trans (accesses_finish _)

lemma accesses_endRound (env : TEnvironment) (commands : TAiCommands) (parsedUserJson : Json)
    (s : TThread) (model : TString) (chat : TChat) :
    s.Accesses env (s.endRound env commands parsedUserJson model chat).2 := by
  have hdeliver : s.Accesses env (s.deliver env commands chat.responses) := accesses_deliver _ s
  unfold endRound
  simp only
  split
  · exact hdeliver
  · exact hdeliver.trans (accesses_innerLoop _ _)

end TThread

open TThread

lemma accesses_threadLoop (chats : List TChat) (request : Json) (s : TThread) :
    s.Accesses env (threadLoop env commands parsedUserJson chats request s).2 := by
  induction chats generalizing request s with
  | nil =>
    have hread : s.Accesses env (s.isThreadLoopingYet env) := accesses_isThreadLoopingYet s
    rw [threadLoop.eq_def]
    simp only
    split
    · exact (hread.trans (accesses_finish _)).trans (accesses_disconnectAll _)
    · split <;> exact hread
  | cons chat chats ih =>
    have hread : s.Accesses env (s.isThreadLoopingYet env) := accesses_isThreadLoopingYet s
    rw [threadLoop.eq_def]
    simp only
    split
    · exact (hread.trans (accesses_finish _)).trans (accesses_disconnectAll _)
    · split
      · exact hread
      · next model _ =>
        have hround : s.Accesses env _ := hread.trans (accesses_endRound env commands parsedUserJson
          ((s.isThreadLoopingYet env).beginRound model request) model chat)
        split
        · next heq =>
          rw [heq] at hround
          exact hround
        · next heq =>
          rw [heq] at hround
          exact hround.trans (ih _ _)

/-- **A session accesses the channel through `TCommObject` only.** -/
theorem accesses_threadedOllama (env : TEnvironment) (commands : TAiCommands)
    (parsedUserJson : Json) (std : LengthSort) (chats : List TChat) :
    TCommObject.Accesses env {}
      (threadedOllama env commands parsedUserJson std chats).2.commObject :=
  accesses_threadLoop chats parsedUserJson { commandDetector := .ofCommands std commands }

/-! ## Accesses are runs -/

/-- The two threads stand where the Ollama thread believes them to be. -/
structure Sees (dump : TUserMessage → TString) (c : TCommObject) (s : TChannel) : Prop where
  accepted : s.accepted = c.ollamaToUser.map dump
  flag : s.disconnected = c.disconnected
  sender : s.sender = .outside
  /-- The server has not been called yet. -/
  server : s.server = .outside
  queue : s.ollamaToUser = s.accepted
  sink : s.sink = []

variable {dump : TUserMessage → TString}

/-- Somebody sets the flag, if the thread finds it set. -/
lemma Sees.isDisconnected (env : TEnvironment) {c : TCommObject} {s : TChannel}
    (h : Sees dump c s) :
    ∃ es t, TChannel.run s es = some t ∧ Sees dump (c.isDisconnected env) t := by
  cases hflag : (c.isDisconnected env).disconnected with
  | false =>
    have hc : c.disconnected = false := (Bool.or_eq_false_iff.1 hflag).1
    exact ⟨[], s, rfl, ⟨h.accepted, h.flag.trans (hc.trans hflag.symm), h.sender, h.server, h.queue,
      h.sink⟩⟩
  | true =>
    exact ⟨[.disconnectAll], { s with disconnected := true }, rfl,
      ⟨h.accepted, hflag.symm, h.sender, h.server, h.queue, h.sink⟩⟩

/-- Every access is a run. -/
lemma Sees.run_of_accesses (hdump : ∀ m, dump m ≠ []) {c : TCommObject}
    (h : TCommObject.Accesses env {} c) : ∃ es s, TChannel.run {} es = some s ∧ Sees dump c s := by
  induction h with
  | refl => exact ⟨[], {}, rfl, ⟨rfl, rfl, rfl, rfl, rfl, rfl⟩⟩
  | tick _ ih =>
    obtain ⟨es, s, hrun, hs⟩ := ih
    exact ⟨es, s, hrun, hs.accepted, hs.flag, hs.sender, hs.server, hs.queue, hs.sink⟩
  | isDisconnected _ ih =>
    obtain ⟨es, s, hrun, hs⟩ := ih
    obtain ⟨es', t, hrun', ht⟩ := hs.isDisconnected env
    exact ⟨es ++ es', t, run_append_eq_some.2 ⟨s, hrun, hrun'⟩, ht⟩
  | @sendToUser d _ what ih =>
    -- first the flag is read, then the string is pushed if the flag was not set
    obtain ⟨es, s, hrun, hs⟩ := ih
    obtain ⟨es', t, hrun', ht⟩ := hs.isDisconnected env
    have hrun'' := run_append_eq_some.2 ⟨s, hrun, hrun'⟩
    cases what with
    | none => exact ⟨es ++ es', t, hrun'', ht⟩
    | some m =>
      have hsend : d.sendToUser env (some m) = if (d.isDisconnected env).disconnected then
          d.isDisconnected env else { d.isDisconnected env with
            ollamaToUser := (d.isDisconnected env).ollamaToUser ++ [m] } := rfl
      cases hflag : (d.isDisconnected env).disconnected with
      | true =>
        rw [hsend, if_pos hflag]
        exact ⟨es ++ es', t, hrun'', ht⟩
      | false =>
        rw [hsend, if_neg (by simp [hflag])]
        refine ⟨es ++ es' ++ [.sendToUser (dump m), .push],
          { t with
            ollamaToUser := t.ollamaToUser ++ [dump m]
            accepted := t.accepted ++ [dump m] }, ?_, ?_⟩
        · refine run_append_eq_some.2 ⟨t, hrun'', ?_⟩
          have hgo : t.disconnected = false ∧ dump m ≠ [] := ⟨ht.flag.trans hflag, hdump m⟩
          simp [Lib.run, TChannel.step, ht.sender, hgo]
        · exact ⟨by simp [ht.accepted], ht.flag, ht.sender, ht.server, by simp [ht.queue], ht.sink⟩
  | disconnectAll _ ih =>
    obtain ⟨es, s, hrun, hs⟩ := ih
    exact ⟨es ++ [.disconnectAll], { s with disconnected := true },
      run_append_eq_some.2 ⟨s, hrun, rfl⟩, hs.accepted, rfl, hs.sender, hs.server, hs.queue,
      hs.sink⟩

/-! ## The end of a session -/

/-- A thread that has ended has set the flag. -/
lemma disconnected_of_finished {chats : List TChat} {request : Json} {s t : TThread}
    (h : threadLoop env commands parsedUserJson chats request s = (.finished, t)) :
    t.commObject.disconnected = true := by
  induction chats generalizing request s with
  | nil =>
    rcases head_cases env parsedUserJson request s with hstop | ⟨hl, hr, ⟨e, hm⟩ | ⟨model, hm⟩⟩
    · rw [threadLoop_of_stop hstop] at h
      rw [← (Prod.mk.inj h).2]
      rfl
    · rw [threadLoop_of_error hl hr hm] at h
      cases h
    · rw [threadLoop_nil hl hr hm] at h
      cases h
  | cons chat chats ih =>
    rcases head_cases env parsedUserJson request s with hstop | ⟨hl, hr, ⟨e, hm⟩ | ⟨model, hm⟩⟩
    · rw [threadLoop_of_stop hstop] at h
      rw [← (Prod.mk.inj h).2]
      rfl
    · rw [threadLoop_of_error hl hr hm] at h
      cases h
    · rw [threadLoop_cons hl hr hm] at h
      split at h
      · cases h
      · exact ih h

/-- The server thread can write the whole queue. -/
lemma TChannel.exists_run_drained {s : TChannel} (hserver : s.server = .popping)
    (hne : ∀ what ∈ s.ollamaToUser, what ≠ []) :
    ∃ es t, s.run es = some t ∧ t.server = .popping ∧ t.ollamaToUser = [] ∧
      t.sink = s.sink ++ s.ollamaToUser.map frame ∧ t.disconnected = s.disconnected ∧
      t.sender = s.sender := by
  generalize hq : s.ollamaToUser = queue
  induction queue generalizing s with
  | nil => exact ⟨[], s, rfl, hserver, hq, by simp, rfl, rfl⟩
  | cons what queue ih =>
    have hwhat : what ≠ [] := hne what (by simp [hq])
    let u : TChannel := { s with
      ollamaToUser := queue, acceptedAtPop := s.accepted, sink := s.sink ++ [frame what] }
    have hu : s.run [.pop, .isWritable true, .write] = some u := by
      simp [TChannel.run, Lib.run, TChannel.step, hserver, hq, hwhat, u]
    obtain ⟨es, t, hrun, hpop, hnil, hsink, hflag, hsender⟩ :=
      ih (s := u) hserver (fun x hx => hne x (by rw [hq]; exact List.mem_cons_of_mem _ hx)) rfl
    refine ⟨_ ++ es, t, run_append_eq_some.2 ⟨u, hu, hrun⟩, hpop, hnil, ?_, hflag, hsender⟩
    rw [hsink]
    simp [u]

/-- **After a session the connection stays open.**  A thread that has ended may have been served so
that the user has received all its messages, and from then on no call of `operator()` ends the
response. -/
theorem session_stays_open (hdump : ∀ m, dump m ≠ []) {std : LengthSort} {chats : List TChat}
    {s : TThread} (h : threadedOllama env commands parsedUserJson std chats = (.finished, s)) :
    ∃ es t, TChannel.run {} es = some t ∧
      t.sink = s.commObject.ollamaToUser.map (fun m => frame (dump m)) ∧
      ∀ es' u, t.run es' = some u → .returns false ∉ es' := by
  have haccess := accesses_threadedOllama env commands parsedUserJson std chats
  rw [h] at haccess
  obtain ⟨es, u, hrun, hu⟩ := Sees.run_of_accesses hdump haccess
  have hqueue : u.ollamaToUser = s.commObject.ollamaToUser.map dump := hu.queue.trans hu.accepted
  have hflag : u.disconnected = true := hu.flag.trans (disconnected_of_finished h)
  -- the server is called, drains the queue, and returns true
  let v : TChannel := { u with server := .popping }
  have hcall : u.run [.call] = some v := by
    simp [TChannel.run, Lib.run, TChannel.step, hu.server, v]
  obtain ⟨es', w, hrun', hpop, hnil, hsink, hflag', hsender⟩ :=
    TChannel.exists_run_drained (s := v) rfl (by
      intro what hwhat
      obtain ⟨m, -, rfl⟩ := List.mem_map.1 (hqueue ▸ hwhat)
      exact hdump m)
  let t : TChannel := { w with server := .outside, acceptedAtPop := w.accepted }
  have hreturn : w.run [.pop, .returns true] = some t := by
    simp [TChannel.run, Lib.run, TChannel.step, hpop, hnil, t]
  have hall := run_append_eq_some.2 ⟨u, hrun, run_append_eq_some.2
    ⟨v, hcall, run_append_eq_some.2 ⟨w, hrun', hreturn⟩⟩⟩
  have hover : t.Over := ⟨hflag'.trans hflag, hnil, hsender.trans hu.sender, Or.inl rfl⟩
  refine ⟨_, t, hall, ?_, fun _ _ hrun => hover.not_mem hrun⟩
  have : t.sink = w.sink := rfl
  rw [this, hsink]
  simp [v, hu.sink, hqueue]

end OllamaMitm
