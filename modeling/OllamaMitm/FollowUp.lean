import OllamaMitm.Steps

/-!
# What a command leads to

Once a command was reported, its provider decides how the round ends: with a text for the user,
with a follow-up request, or with an exception.  A follow-up request is the user's request with
one more message; the loop detector may replace it by the loop warning, and it is recorded.
-/

namespace OllamaMitm

/-- The backend answers the command with the given text. -/
def BackendText (commands : TAiCommands) (detected : TDetected) (text : TString) : Prop :=
  (commands.find? detected.whatDetected = none ∧ text = backendFailure) ∨
  ∃ cmd now, commands.find? detected.whatDetected = some cmd ∧
    (cmd.resultProvider now detected.whatDetected detected.collectedString
        = .ok (.thatWasRequestToFulfill text) ∨
      cmd.resultProvider now detected.whatDetected detected.collectedString
        = .ok (.probablyThatWasResponseToUser text))

/-- The text with which the backend answers the command when the provider is called at the instant
`now`.  There is none if the provider throws or takes the reply for a text for the user. -/
def answerAt (commands : TAiCommands) (now : ℕ) (detected : TDetected) : Option TString :=
  match commands.find? detected.whatDetected with
  | none => some backendFailure
  | some cmd =>
    match cmd.resultProvider now detected.whatDetected detected.collectedString with
    | .ok (.thatWasRequestToFulfill text) => some text
    | .ok (.probablyThatWasResponseToUser text) => some text
    | .ok (.thatWasResponseToUser _) => none
    | .error _ => none

lemma backendText_of_answerAt {commands : TAiCommands} {now : ℕ} {detected : TDetected}
    {text : TString} (h : answerAt commands now detected = some text) :
    BackendText commands detected text := by
  rw [answerAt] at h
  split at h
  · next hcmd => exact Or.inl ⟨hcmd, (Option.some.inj h).symm⟩
  · next cmd hcmd =>
    split at h
    · next hcall => exact Or.inr ⟨cmd, now, hcmd, Or.inl (Option.some.inj h ▸ hcall)⟩
    · next hcall => exact Or.inr ⟨cmd, now, hcmd, Or.inr (Option.some.inj h ▸ hcall)⟩
    · cases h
    · cases h

/-- What `MakeResponseForOllama(aiCommand, pingUser)` may return or throw, when it calls the
provider at the instant `now`. -/
inductive CommandAnswer (commands : TAiCommands) (parsedUserJson : Json) (now : ℕ)
    (detected : TDetected) : Except TException TCommandResult → Prop
  | throws {cmd : TAiCommand} {e : TException}
      (hcmd : commands.find? detected.whatDetected = some cmd)
      (he : cmd.resultProvider now detected.whatDetected detected.collectedString = .error e) :
      CommandAnswer commands parsedUserJson now detected (.error e)
  | text {cmd : TAiCommand} {x : TString}
      (hcmd : commands.find? detected.whatDetected = some cmd)
      (hx : cmd.resultProvider now detected.whatDetected detected.collectedString
        = .ok (.thatWasResponseToUser x)) :
      CommandAnswer commands parsedUserJson now detected (.ok (.text x))
  | request {x : TString} (hx : answerAt commands now detected = some x) :
      CommandAnswer commands parsedUserJson now detected
        ((makeResponseForOllama parsedUserJson x).map .request)

namespace TThread

variable {env : TEnvironment} {commands : TAiCommands} {parsedUserJson forOllama request : Json}
variable {s t : TThread} {cmd model : TString} {e : TException} {detected : TDetected}

/-- The thread talks and calls providers, and nothing else changes. -/
def TalksAndCalls (s t : TThread) : Prop :=
  ∃ gen comm calls, t = { s with pingGen := gen, commObject := comm, calls := calls }

lemma TalksAndCalls.refl (s : TThread) : TalksAndCalls s s :=
  ⟨s.pingGen, s.commObject, s.calls, rfl⟩

lemma TalksAndCalls.talks {u : TThread} (h : TalksAndCalls s t) (h' : OnlyTalks t u) :
    TalksAndCalls s u := by
  obtain ⟨gen, comm, calls, rfl⟩ := h
  obtain ⟨gen', comm', rfl⟩ := h'
  exact ⟨gen', comm', calls, rfl⟩

/-- While a command is answered, pings are sent and the call is recorded. -/
lemma makeResponseForCommand_cases (env : TEnvironment) (commands : TAiCommands)
    (parsedUserJson : Json) (s : TThread) (detected : TDetected) :
    let res := s.makeResponseForCommand env commands parsedUserJson detected
    CommandAnswer commands parsedUserJson (s.ping env).commObject.clock detected res.1 ∧
      res.2.replies = s.replies ∧ TalksAndCalls s res.2 ∧
      (env.Connected → res.2.commObject.disconnected = s.commObject.disconnected) := by
  cases hcmd : commands.find? detected.whatDetected with
  | none =>
    simp only [makeResponseForCommand, hcmd, true_and]
    exact ⟨.request (by simp [answerAt, hcmd]), TalksAndCalls.refl s, fun _ => trivial⟩
  | some cmd =>
    have hreplies : (s.ping env).replies = s.replies := replies_ping
    have hflag (henv : env.Connected) :
        (s.ping env).commObject.disconnected = s.commObject.disconnected := disconnected_ping henv
    obtain ⟨gen, comm, hping⟩ := onlyTalks_ping env s
    set u := s.ping env with hu
    set v : TThread := { u with
      calls := u.calls ++ [⟨detected.whatDetected, detected.collectedString⟩] } with hv
    have hsv : TalksAndCalls s v := ⟨gen, comm, _, by rw [hv, hping]⟩
    have hsv' : TalksAndCalls s (v.ping env) := hsv.talks (onlyTalks_ping env v)
    have hflag' (henv : env.Connected) :
        (v.ping env).commObject.disconnected = s.commObject.disconnected :=
      (disconnected_ping henv).trans (hflag henv)
    simp only [makeResponseForCommand, hcmd]
    cases hcall : cmd.resultProvider u.commObject.clock detected.whatDetected
        detected.collectedString with
    | error e => exact ⟨.throws hcmd hcall, hreplies, hsv, hflag⟩
    | ok answer =>
      cases answer with
      | thatWasResponseToUser x => exact ⟨.text hcmd hcall, hreplies, hsv, hflag⟩
      | thatWasRequestToFulfill x =>
        exact ⟨.request (by simp [answerAt, hcmd, hcall]), replies_ping.trans hreplies, hsv',
          hflag'⟩
      | probablyThatWasResponseToUser x =>
        exact ⟨.request (by simp [answerAt, hcmd, hcall]), replies_ping.trans hreplies, hsv',
          hflag'⟩

/-! ## The follow-up request -/

/-- The request that follows on a command: the one given, or the loop warning in its place. -/
def nextRequest (parsedUserJson : Json) (s : TThread) (cmd : TString) (forOllama : Json) :
    Except TException Json :=
  if (s.loopDetector.update cmd).isLooping then makeResponseForOllama parsedUserJson loopWarning
  else .ok forOllama

lemma respondRequest_error (h : nextRequest parsedUserJson s cmd forOllama = .error e) :
    s.respondRequest parsedUserJson cmd forOllama
      = (.error e, { s with loopDetector := s.loopDetector.update cmd }) := by
  rw [nextRequest] at h
  simp only [respondRequest, h]

lemma respondRequest_ok (h : nextRequest parsedUserJson s cmd forOllama = .ok request) :
    s.respondRequest parsedUserJson cmd forOllama
      = (.ok request, { s with
          loopDetector := s.loopDetector.update cmd
          commandDetector := s.commandDetector.reset
          followUps := s.followUps ++ [⟨cmd, forOllama, request⟩] }) := by
  rw [nextRequest] at h
  simp only [respondRequest, h]

lemma makeResponseForOllama_of_nextRequest
    (h : nextRequest parsedUserJson s cmd forOllama = .error e) :
    makeResponseForOllama parsedUserJson loopWarning = .error e := by
  unfold nextRequest at h
  split at h
  · exact h
  · cases h

/-- The step from the thread `s`, to which a command was reported, to the thread `t` that has
prepared the follow-up `f`. -/
structure FollowsUp (env : TEnvironment) (commands : TAiCommands) (parsedUserJson : Json)
    (detected : TDetected) (s t : TThread) (f : TFollowUp) : Prop where
  command : f.command = detected.whatDetected
  answer : ∃ text, answerAt commands (s.ping env).commObject.clock detected = some text ∧
    makeResponseForOllama parsedUserJson text = .ok f.answer
  request : nextRequest parsedUserJson s detected.whatDetected f.answer = .ok f.request
  loopDetector : t.loopDetector = s.loopDetector.update detected.whatDetected
  followUps : t.followUps = s.followUps ++ [f]
  requests : t.requests = s.requests
  reported : t.reported = s.reported
  shouldStop : t.shouldStop = s.shouldStop
  words : t.commandDetector.words = s.commandDetector.words
  replies : t.replies = s.replies

/-- How the body of the inner loop may end for a reported command. -/
inductive CommandEnding (env : TEnvironment) (commands : TAiCommands) (parsedUserJson : Json)
    (detected : TDetected) (s : TThread) : Except TException Json → TThread → Prop
  /-- A provider throws, or a request cannot be made. -/
  | throws {e : TException} {t : TThread}
      (he : (∃ cmd now, commands.find? detected.whatDetected = some cmd ∧
          cmd.resultProvider now detected.whatDetected detected.collectedString = .error e) ∨
        ∃ text, makeResponseForOllama parsedUserJson text = .error e)
      (hfollowUps : t.followUps = s.followUps) (hrequests : t.requests = s.requests)
      (hreplies : t.replies = s.replies) :
      CommandEnding env commands parsedUserJson detected s (.error e) t
  /-- The text goes to the user. -/
  | answers {cmd : TAiCommand} {now : ℕ} {x : TString} {t : TThread}
      (hcmd : commands.find? detected.whatDetected = some cmd)
      (hx : cmd.resultProvider now detected.whatDetected detected.collectedString
        = .ok (.thatWasResponseToUser x))
      (hfollowUps : t.followUps = s.followUps) (hrequests : t.requests = s.requests)
      (hstop : t.shouldStop = s.shouldStop)
      (hsent : env.Connected → s.commObject.disconnected = false →
        t.commObject.disconnected = false ∧ ∃ m, m.origin = .reply ∧ m.content = x ∧
          m.isDone = false ∧ t.replies = s.replies ++ [m]) :
      CommandEnding env commands parsedUserJson detected s (.ok .null) t
  /-- A follow-up request is prepared. -/
  | followsUp {t : TThread} {f : TFollowUp}
      (hf : FollowsUp env commands parsedUserJson detected s t f)
      (hflag : env.Connected → t.commObject.disconnected = s.commObject.disconnected) :
      CommandEnding env commands parsedUserJson detected s (.ok f.request) t

/-- **What a command leads to.** -/
theorem commandEnding_handleCommand (env : TEnvironment) (commands : TAiCommands)
    (parsedUserJson : Json) (s : TThread) (model : TString) (detected : TDetected) :
    let res := finishInnerLoop env (s.handleCommand env commands parsedUserJson model detected)
    CommandEnding env commands parsedUserJson detected s res.1 res.2 := by
  obtain ⟨hanswer, hreplies, hcalls, hflag⟩ :=
    makeResponseForCommand_cases env commands parsedUserJson s detected
  rw [handleCommand]
  rcases hres : s.makeResponseForCommand env commands parsedUserJson detected with ⟨res, u⟩
  rw [hres] at hanswer hreplies hcalls hflag
  obtain ⟨gen, comm, calls, hu⟩ : TalksAndCalls s u := hcalls
  have hbooks : u.followUps = s.followUps ∧ u.requests = s.requests := by rw [hu]; exact ⟨rfl, rfl⟩
  cases hanswer with
  | throws hcmd he => exact .throws (Or.inl ⟨_, _, hcmd, he⟩) hbooks.1 hbooks.2 hreplies
  | @text cmd x hcmd hx =>
    -- the pings are finished, the text is sent, and the pings are finished once more
    simp only [respondText, finishInnerLoop]
    set v : TThread := { u with loopDetector := u.loopDetector.reset } with hv
    set m : TUserMessage :=
      ⟨.reply, buildJsStringForUser (env.utcTime u.commObject.clock) model x⟩ with hm
    obtain ⟨gen', comm', hfin⟩ := ((onlyTalks_finish env v).trans
      (onlyTalks_sendToUser env _ (some m))).trans (onlyTalks_finish env _)
    refine .answers hcmd hx ?_ ?_ ?_ fun henv hs => ?_
    · rw [hfin, hv, hu]
    · rw [hfin, hv, hu]
    · rw [hfin, hv, hu]
    · have hflag' : (v.finish env).commObject.disconnected = false :=
        (disconnected_finish henv).trans ((hflag henv).trans hs)
      refine ⟨?_, m, rfl, by simp [hm], by simp [hm], ?_⟩
      · rw [disconnected_finish henv, disconnected_sendToUser henv, hflag']
      · rw [replies_finish, replies_sendToUser henv hflag' rfl, replies_finish]
        exact congrArg (fun l => l ++ [m]) hreplies
  | @request x hx =>
    cases hmake : makeResponseForOllama parsedUserJson x with
    | error e => exact .throws (Or.inr ⟨x, hmake⟩) hbooks.1 hbooks.2 hreplies
    | ok forOllama =>
      simp only
      cases hnext : nextRequest parsedUserJson u detected.whatDetected forOllama with
      | error e =>
        rw [respondRequest_error hnext]
        exact .throws (Or.inr ⟨_, makeResponseForOllama_of_nextRequest hnext⟩) hbooks.1 hbooks.2
          hreplies
      | ok request =>
        -- the request is prepared; the finish behind the loop only talks
        rw [respondRequest_ok hnext]
        simp only [finishInnerLoop]
        set v : TThread := { u with
          loopDetector := u.loopDetector.update detected.whatDetected
          commandDetector := u.commandDetector.reset
          followUps := u.followUps ++ [⟨detected.whatDetected, forOllama, request⟩] } with hv
        obtain ⟨gen', comm', hfin⟩ := onlyTalks_finish env v
        have hsame :
            nextRequest parsedUserJson s detected.whatDetected forOllama = .ok request := by
          rw [← hnext, hu]
          rfl
        have hf : FollowsUp env commands parsedUserJson detected s (v.finish env)
            ⟨detected.whatDetected, forOllama, request⟩ :=
          { command := rfl
            answer := ⟨x, hx, hmake⟩
            request := hsame
            loopDetector := by rw [hfin, hv, hu]
            followUps := by rw [hfin, hv, hu]
            requests := by rw [hfin, hv, hu]
            reported := by rw [hfin, hv, hu]
            shouldStop := by rw [hfin, hv, hu]
            words := by rw [hfin, hv, hu, CContentRestorator.words_reset]
            replies := replies_finish.trans hreplies }
        exact .followsUp hf fun henv => (disconnected_finish henv).trans (hflag henv)

end TThread

end OllamaMitm
