import OllamaMitm.SessionChannel

/-!
# The records only grow

A step of the thread may queue a message, send a request, report a command, call a provider or
prepare a follow-up; it never takes any of these back.
-/

namespace OllamaMitm

lemma TCommObject.Accesses.queue_grows {env : TEnvironment} {c d : TCommObject}
    (h : c.Accesses env d) : c.ollamaToUser <+: d.ollamaToUser := by
  induction h with
  | refl => exact List.prefix_rfl
  | tick _ ih | isDisconnected _ ih | disconnectAll _ ih => exact ih
  | @sendToUser d _ what ih =>
    cases what with
    | none => exact ih
    | some m =>
      rw [TCommObject.sendToUser]
      split
      · exact ih
      · exact ih.trans (List.prefix_append _ _)

namespace TThread

variable {env : TEnvironment} {s t u : TThread}

/-- The thread `t` has done all that `s` has done, and perhaps more. -/
structure Extends (s t : TThread) : Prop where
  queue : s.queue <+: t.queue
  requests : s.requests <+: t.requests
  reported : s.reported <+: t.reported
  calls : s.calls <+: t.calls
  followUps : s.followUps <+: t.followUps

namespace Extends

lemma refl (s : TThread) : Extends s s :=
  ⟨List.prefix_rfl, List.prefix_rfl, List.prefix_rfl, List.prefix_rfl, List.prefix_rfl⟩

lemma trans (h : Extends s t) (h' : Extends t u) : Extends s u :=
  ⟨h.queue.trans h'.queue, h.requests.trans h'.requests, h.reported.trans h'.reported,
    h.calls.trans h'.calls, h.followUps.trans h'.followUps⟩

end Extends

lemma OnlyTalks.extends (h : OnlyTalks s t) (ha : s.Accesses env t) : Extends s t := by
  have hqueue : s.queue <+: t.queue := TCommObject.Accesses.queue_grows ha
  obtain ⟨gen, comm, rfl⟩ := h
  exact ⟨hqueue, List.prefix_rfl, List.prefix_rfl, List.prefix_rfl, List.prefix_rfl⟩

lemma extends_isDisconnected (env : TEnvironment) (s : TThread) :
    Extends s (s.isDisconnected env) :=
  (onlyTalks_isDisconnected env s).extends (accesses_isDisconnected s)

lemma extends_sendToUser (env : TEnvironment) (s : TThread) (what : Option TUserMessage) :
    Extends s (s.sendToUser env what) :=
  (onlyTalks_sendToUser env s what).extends (accesses_sendToUser s what)

lemma extends_ping (env : TEnvironment) (s : TThread) : Extends s (s.ping env) :=
  (onlyTalks_ping env s).extends (accesses_ping s)

lemma extends_finish (env : TEnvironment) (s : TThread) : Extends s (s.finish env) :=
  (onlyTalks_finish env s).extends (accesses_finish s)

lemma extends_disconnectAll (s : TThread) : Extends s s.disconnectAll := ⟨List.prefix_rfl,
  List.prefix_rfl, List.prefix_rfl, List.prefix_rfl, List.prefix_rfl⟩

lemma extends_isThreadLoopingYet (env : TEnvironment) (s : TThread) :
    Extends s (s.isThreadLoopingYet env) := by
  have hqueue : s.queue <+: (s.isThreadLoopingYet env).queue :=
    TCommObject.Accesses.queue_grows (accesses_isThreadLoopingYet s)
  obtain ⟨comm, stop, h⟩ := isThreadLoopingYet_eq env s
  rw [h] at hqueue ⊢
  exact ⟨hqueue, List.prefix_rfl, List.prefix_rfl, List.prefix_rfl, List.prefix_rfl⟩

lemma extends_updateDetector (commands : TAiCommands) (s : TThread) (r : TOllamaResponse) :
    Extends s (s.updateDetector commands r) :=
  ⟨List.prefix_rfl, List.prefix_rfl, List.prefix_rfl, List.prefix_append _ _, List.prefix_rfl⟩

lemma extends_setValue (s : TThread) (detected : TDetected) :
    Extends s (s.setValue detected).2 := by
  rw [setValue]
  split
  · exact Extends.refl s
  · exact ⟨List.prefix_rfl, List.prefix_rfl, List.prefix_append _ _, List.prefix_rfl,
      List.prefix_rfl⟩

lemma extends_respondToUserAndOllama (env : TEnvironment) (s : TThread)
    (status : EReadingBehahve) : Extends s (s.respondToUserAndOllama env status).2 :=
  (onlyTalks_respondToUserAndOllama env s status).extends (accesses_respondToUserAndOllama s status)

lemma extends_concludeResponse (env : TEnvironment) (status : EReadingBehahve)
    (res : Except TException Bool × TThread) :
    Extends res.2 (concludeResponse env status res).2 :=
  (onlyTalks_concludeResponse env status res).extends (accesses_concludeResponse status res)

lemma extends_visitDecision (env : TEnvironment) (s : TThread) (r : TOllamaResponse)
    (decision : TDecision) : Extends s (s.visitDecision env r decision).2 := by
  cases decision with
  | detected detected => exact extends_setValue s detected
  | alreadyDetected | needMoreData | passToUser =>
    exact (onlyTalks_visitDecision env s r (by simp)).extends (accesses_visitDecision s r _)

lemma extends_ollamaResponseHandler (env : TEnvironment) (commands : TAiCommands) (s : TThread)
    (r : TOllamaResponse) : Extends s (s.ollamaResponseHandler env commands r).2 := by
  have hread := extends_isDisconnected env s
  have hupdate := hread.trans (extends_updateDetector commands _ r)
  rw [ollamaResponseHandler]
  simp only
  split
  · exact hread
  · split
    · exact hupdate.trans (extends_respondToUserAndOllama env _ _)
    · exact hupdate.trans (extends_respondToUserAndOllama env _ _)
    · exact (hupdate.trans (extends_visitDecision env _ r _)).trans
        (extends_concludeResponse env _ _)

lemma extends_deliver (env : TEnvironment) (commands : TAiCommands) (rs : List TOllamaResponse)
    (s : TThread) : Extends s (deliver env commands rs s) := by
  induction rs generalizing s with
  | nil => exact Extends.refl s
  | cons r rs ih =>
    have hr := extends_ollamaResponseHandler env commands s r
    rw [deliver]
    split
    · next t ht =>
      rw [ht] at hr
      exact hr.trans (ih t)
    · next t ht =>
      rw [ht] at hr
      exact hr

lemma extends_makeResponseForCommand (env : TEnvironment) (commands : TAiCommands)
    (parsedUserJson : Json) (s : TThread) (aiCommand : TDetected) :
    Extends s (s.makeResponseForCommand env commands parsedUserJson aiCommand).2 := by
  rw [makeResponseForCommand]
  split
  · exact Extends.refl s
  · have hcall : Extends s { s.ping env with
        calls := (s.ping env).calls ++ [⟨aiCommand.whatDetected, aiCommand.collectedString⟩] } :=
      (extends_ping env s).trans ⟨List.prefix_rfl, List.prefix_rfl, List.prefix_rfl,
        List.prefix_append _ _, List.prefix_rfl⟩
    simp only
    split
    · exact hcall
    · exact hcall
    · exact hcall.trans (extends_ping env _)
    · exact hcall.trans (extends_ping env _)

lemma extends_respondRequest (parsedUserJson : Json) (s : TThread) (cmd : TString)
    (forOllama : Json) : Extends s (s.respondRequest parsedUserJson cmd forOllama).2 := by
  rw [respondRequest]
  simp only
  split
  · exact ⟨List.prefix_rfl, List.prefix_rfl, List.prefix_rfl, List.prefix_rfl, List.prefix_rfl⟩
  · exact ⟨List.prefix_rfl, List.prefix_rfl, List.prefix_rfl, List.prefix_rfl,
      List.prefix_append _ _⟩

lemma extends_handleCommand (env : TEnvironment) (commands : TAiCommands) (parsedUserJson : Json)
    (s : TThread) (model : TString) (aiCommand : TDetected) :
    Extends s (s.handleCommand env commands parsedUserJson model aiCommand).2 := by
  have hmake := extends_makeResponseForCommand env commands parsedUserJson s aiCommand
  rw [handleCommand]
  split
  · next heq =>
    rw [heq] at hmake
    exact hmake
  · next heq =>
    rw [heq] at hmake
    have hreset (u : TThread) : Extends u { u with loopDetector := u.loopDetector.reset } :=
      ⟨List.prefix_rfl, List.prefix_rfl, List.prefix_rfl, List.prefix_rfl, List.prefix_rfl⟩
    exact ((hmake.trans (hreset _)).trans (extends_finish env _)).trans
      (extends_sendToUser env _ _)
  · next heq =>
    rw [heq] at hmake
    exact hmake.trans (extends_respondRequest parsedUserJson _ _ _)

lemma extends_finishInnerLoop (env : TEnvironment) (res : Except TException Json × TThread) :
    Extends res.2 (finishInnerLoop env res).2 := by
  rcases res with ⟨_ | _, s⟩
  · exact Extends.refl s
  · exact extends_finish env s

lemma extends_innerLoop (env : TEnvironment) (commands : TAiCommands) (parsedUserJson : Json)
    (s : TThread) (model : TString) :
    Extends s (s.innerLoop env commands parsedUserJson model).2 := by
  have hfirst := extends_isThreadLoopingYet env s
  have hsecond := hfirst.trans (extends_isThreadLoopingYet env _)
  rw [innerLoop]
  simp only
  split
  · split
    · rw [getFuture]
      split
      · exact hsecond
      · exact (hsecond.trans (extends_handleCommand env commands parsedUserJson _ model _)).trans
          (extends_finishInnerLoop env _)
    · exact (hsecond.trans (extends_isThreadLoopingYet env _)).trans (extends_finish env _)
  · exact hfirst.trans (extends_finish env _)

lemma extends_endRound (env : TEnvironment) (commands : TAiCommands) (parsedUserJson : Json)
    (s : TThread) (model : TString) (chat : TChat) :
    Extends s (s.endRound env commands parsedUserJson model chat).2 := by
  have hdeliver := extends_deliver env commands chat.responses s
  unfold endRound
  simp only
  split
  · exact hdeliver
  · exact hdeliver.trans (extends_innerLoop env commands parsedUserJson _ model)

lemma extends_beginRound (s : TThread) (model : TString) (request : Json) :
    Extends s (s.beginRound model request) :=
  ⟨List.prefix_rfl, List.prefix_append _ _, List.prefix_rfl, List.prefix_rfl, List.prefix_rfl⟩

end TThread

open TThread

lemma extends_threadLoop (env : TEnvironment) (commands : TAiCommands) (parsedUserJson : Json)
    (chats : List TChat) (request : Json) (s : TThread) :
    Extends s (threadLoop env commands parsedUserJson chats request s).2 := by
  have hread := extends_isThreadLoopingYet env s
  induction chats generalizing request s with
  | nil =>
    rw [threadLoop.eq_def]
    simp only
    split
    · exact (hread.trans (extends_finish env _)).trans (extends_disconnectAll _)
    · split
      · exact hread
      · exact hread.trans (extends_beginRound _ _ _)
  | cons chat chats ih =>
    rw [threadLoop.eq_def]
    simp only
    split
    · exact (hread.trans (extends_finish env _)).trans (extends_disconnectAll _)
    · split
      · exact hread
      · next model _ =>
        have hround := (hread.trans (extends_beginRound _ model request)).trans
          (extends_endRound env commands parsedUserJson _ model chat)
        split
        · next heq =>
          rw [heq] at hround
          exact hround
        · next heq =>
          rw [heq] at hround
          exact hround.trans (ih _ _ (extends_isThreadLoopingYet env _))

end OllamaMitm
