import OllamaMitm.Lib.Weaving
import OllamaMitm.Steps
import OllamaMitm.UserRequest

/-!
# Where the messages come from

The user reads messages that the proxy composes itself, and messages that are responses of Ollama:
unchanged, or with the text that was held back in place of their own.  Each response leaves one
message at most, and in its place.  So the proxy repeats no response, changes no order, and ends
the answer only where Ollama has ended it.
-/

namespace OllamaMitm

open Lib

/-! ## Messages -/

/-- The value is a chat response in which the text was replaced. -/
structure Replaces (r : TOllamaResponse) (j : Json) : Prop where
  done : j.find? (lit "done") = some (.bool false)
  content : ∃ message text, j.find? (lit "message") = some message ∧
    message.find? (lit "content") = some (.string text) ∧
    ∀ key, key ≠ lit "content" →
      message.find? key = ((r.asJson.find? (lit "message")).getD .null).find? key
  others : ∀ key, key ≠ lit "done" → key ≠ lit "message" → j.find? key = r.asJson.find? key

/-- The message is this response of Ollama, or the response with another text. -/
structure Carries (r : TOllamaResponse) (m : TUserMessage) : Prop where
  origin : m.origin = .reply
  modelDone : r.isModelDone.isSome
  json : m.json = r.asJson ∨ Replaces r m.json

/-- The texts of the pings are fixed. -/
def TOrigin.Says (text : TString) : TOrigin → Prop
  | .ping => text = lit "Working." ∨ text = lit "."
  | .finish => text = CUserPingGenerator.kFinishMessage
  | .reply => True

/-- The proxy has composed the message, for this model. -/
def Own (model : TString) (m : TUserMessage) : Prop :=
  ∃ utcTime text, m.json = buildJsStringForUser utcTime model text ∧ m.origin.Says text

lemma replaces_of_replaceOllamaText {r : TOllamaResponse} {text : TString} {j : Json}
    (h : replaceOllamaText r text = .ok j) : Replaces r j := by
  rw [replaceOllamaText] at h
  cases hd : r.asJson.assign (lit "done") (.bool false) with
  | error e => simp [hd, bind, Except.bind] at h
  | ok jobj =>
    simp only [hd, bind, Except.bind] at h
    have hne : lit "message" ≠ lit "done" := by decide
    obtain ⟨done, hdone, hjd⟩ := Json.find?_modify_self hd
    obtain ⟨message, hmessage, hj⟩ := Json.find?_modify_self h
    obtain ⟨content, hcontent, hm⟩ := Json.find?_modify_self hmessage
    refine ⟨?_, ⟨message, text, hj, ?_, ?_⟩, ?_⟩
    · rw [Json.find?_modify_of_ne hne.symm h, hjd, ← Except.ok.inj hdone]
    · rw [hm, ← Except.ok.inj hcontent]
    · intro key hkey
      rw [Json.find?_modify_of_ne hkey hmessage, Json.find?_modify_of_ne hne hd]
    · intro key hkd hkm
      rw [Json.find?_modify_of_ne hkm h, Json.find?_modify_of_ne hkd hd]

namespace TThread

variable {env : TEnvironment} {commands : TAiCommands} {parsedUserJson : Json} {model : TString}
variable {s t u : TThread} {r : TOllamaResponse} {rs rs' : List TOllamaResponse}
variable {m : TUserMessage}

/-! ## Steps -/

/-- The pings are for this model. -/
def PingsFor (model : TString) (s : TThread) : Prop :=
  ∀ gen, s.pingGen.ping = some gen → gen.model = model

/-- What the thread queues on its way from `s` to `t` is woven from these responses. -/
structure Weaves (model : TString) (rs : List TOllamaResponse) (s t : TThread) : Prop where
  pings : s.PingsFor model → t.PingsFor model
  queue : s.PingsFor model → ∃ ms, t.queue = s.queue ++ ms ∧ Woven (Own model) Carries rs ms

namespace Weaves

lemma trans (h : Weaves model rs s t) (h' : Weaves model rs' t u) :
    Weaves model (rs ++ rs') s u where
  pings := fun hs => h'.pings (h.pings hs)
  queue := by
    intro hs
    obtain ⟨ms, hqueue, hms⟩ := h.queue hs
    obtain ⟨ms', hqueue', hms'⟩ := h'.queue (h.pings hs)
    exact ⟨ms ++ ms', by rw [hqueue', hqueue, List.append_assoc], hms.append hms'⟩

lemma refl (s : TThread) : Weaves model [] s s :=
  ⟨id, fun _ => ⟨[], (List.append_nil _).symm, .nil⟩⟩

/-- A step before that reads nothing. -/
lemma after (h : Weaves model rs t u) (h' : Weaves model [] s t) : Weaves model rs s u :=
  h'.trans h

/-- A step behind that reads nothing. -/
lemma followed (h : Weaves model rs s t) (h' : Weaves model [] t u) : Weaves model rs s u := by
  simpa using h.trans h'

/-- Responses may leave nothing. -/
lemma skip (h : Weaves model rs s t) (rs' : List TOllamaResponse) :
    Weaves model (rs ++ rs') s t where
  pings := h.pings
  queue := by
    intro hs
    obtain ⟨ms, hqueue, hms⟩ := h.queue hs
    have hdropped : Woven (Own model) Carries rs' [] := Woven.drop_all rs'
    exact ⟨ms, hqueue, by simpa using hms.append hdropped⟩

end Weaves

lemma Quietly.weaves (h : Quietly s t) (model : TString) : Weaves model [] s t where
  pings := by
    intro hs gen hgen
    exact hs gen (h.pingGen ▸ hgen)
  queue := fun _ => ⟨[], by rw [h.queue, List.append_nil], .nil⟩

/-- A step that leaves the channel and the pings alone. -/
lemma weaves_of_eq (hcomm : t.commObject = s.commObject) (hping : t.pingGen = s.pingGen) :
    Weaves model [] s t :=
  Quietly.weaves ⟨congrArg TCommObject.ollamaToUser hcomm, hping, fun hflag => by rwa [← hcomm]⟩
    model

/-- Only the message may be queued. -/
lemma queue_sendToUser_cases (env : TEnvironment) (s : TThread) (m : TUserMessage) :
    (s.sendToUser env (some m)).queue = s.queue ∨
      (s.sendToUser env (some m)).queue = s.queue ++ [m] := by
  rw [queue, sendToUser, TCommObject.sendToUser]
  split
  · exact Or.inl rfl
  · exact Or.inr rfl

/-- The message that is sent is woven from these responses. -/
lemma weaves_sendToUser (env : TEnvironment)
    (hm : s.PingsFor model → Woven (Own model) Carries rs [m]) :
    Weaves model rs s (s.sendToUser env (some m)) where
  pings := id
  queue := by
    intro hs
    rcases queue_sendToUser_cases env s m with hqueue | hqueue
    · exact ⟨[], by rw [hqueue, List.append_nil], .drop_all rs⟩
    · exact ⟨[m], hqueue, hm hs⟩

lemma weaves_ping (env : TEnvironment) (s : TThread) : Weaves model [] s (s.ping env) := by
  rw [ping]
  split
  · exact Weaves.refl s
  · next gen hgen =>
    have hown : s.PingsFor model →
        Own model (gen.generatePingResponse (env.utcTime s.commObject.clock)) := by
      intro hs
      refine ⟨_, _, by rw [CUserPingGenerator.generatePingResponse, hs gen hgen], ?_⟩
      cases gen.once <;> simp [CUserPingGenerator.generatePingResponse, TOrigin.Says]
    have hsend := weaves_sendToUser env fun hs => Woven.own_singleton (hown hs)
    refine ⟨?_, hsend.queue⟩
    intro hs gen' hgen'
    rw [← Option.some.inj hgen']
    exact hs gen hgen

lemma weaves_finish (env : TEnvironment) (s : TThread) : Weaves model [] s (s.finish env) := by
  rw [finish]
  split
  · exact Weaves.refl s
  · next gen hgen =>
    have hnone : ∀ t : TThread, { t with pingGen := ⟨none⟩ : TThread }.PingsFor model := by
      intro t gen' hgen'
      cases hgen'
    refine ⟨fun _ => hnone _, ?_⟩
    intro hs
    cases hfinish : gen.finishPingsIfAny (env.utcTime s.commObject.clock) with
    | none => exact ⟨[], (List.append_nil _).symm, .nil⟩
    | some m =>
      have hown : Own model m := by
        rw [CUserPingGenerator.finishPingsIfAny] at hfinish
        split at hfinish
        · rw [← Option.some.inj hfinish]
          exact ⟨_, _, by rw [hs gen hgen], rfl⟩
        · cases hfinish
      exact (weaves_sendToUser env fun _ => Woven.own_singleton hown).queue hs

/-- The text that was held back is sent in place of the text of the response. -/
lemma weaves_sendPlainTextToUser (env : TEnvironment) (s : TThread) (hdone : r.isModelDone.isSome)
    (plain : TString) : Weaves model [r] s (s.sendPlainTextToUser env r plain).2 := by
  have hfinish : Weaves model [] s (s.finish env) := weaves_finish env s
  rw [sendPlainTextToUser]
  split
  · exact hfinish.skip [r]
  · next j hj =>
    have hcarries : Carries r ⟨.reply, j⟩ :=
      ⟨rfl, hdone, Or.inr (replaces_of_replaceOllamaText hj)⟩
    have hsend : Weaves model [r] (s.finish env) _ :=
      weaves_sendToUser env fun _ => Woven.carries_singleton hcarries
    exact (hsend.after hfinish).followed ((quietly_isDisconnected env _).weaves model)

lemma weaves_setValue (s : TThread) (detected : TDetected) :
    Weaves model [] s (s.setValue detected).2 := by
  rw [setValue]
  split
  · exact Weaves.refl s
  · exact weaves_of_eq rfl rfl

/-- The visitor sends one message at most, and it carries the response. -/
lemma weaves_visitDecision (env : TEnvironment) (s : TThread) (hdone : r.isModelDone.isSome)
    (decision : TDecision) : Weaves model [r] s (s.visitDecision env r decision).2 := by
  have hread (t : TThread) : Weaves model [] t (t.keepGoing env).2 :=
    (quietly_isDisconnected env t).weaves model
  cases decision with
  | alreadyDetected status =>
    have hcarries : Carries r ⟨.reply, r.asJson⟩ := ⟨rfl, hdone, Or.inl rfl⟩
    have hsend : Weaves model [r] s _ :=
      weaves_sendToUser env fun _ => Woven.carries_singleton hcarries
    exact hsend.followed (hread _)
  | needMoreData status plain =>
    rw [visitDecision]
    split
    · exact weaves_sendPlainTextToUser env s hdone plain
    · exact (hread s).skip [r]
  | passToUser status plain => exact weaves_sendPlainTextToUser env s hdone plain
  | detected detected => exact (weaves_setValue s detected).skip [r]

lemma weaves_respondToUserAndOllama (env : TEnvironment) (s : TThread) (status : EReadingBehahve) :
    Weaves model [] s (s.respondToUserAndOllama env status).2 :=
  (quietly_respondToUserAndOllama env s status).weaves model

lemma weaves_concludeResponse (env : TEnvironment) (status : EReadingBehahve)
    (res : Except TException Bool × TThread) :
    Weaves model [] res.2 (concludeResponse env status res).2 := by
  obtain ⟨e | b, t⟩ := res
  · exact weaves_respondToUserAndOllama env t _
  · cases b with
    | true => exact weaves_respondToUserAndOllama env t _
    | false => exact Weaves.refl t

/-- **The callback queues what is woven from its response.** -/
theorem weaves_ollamaResponseHandler (env : TEnvironment) (commands : TAiCommands) (s : TThread)
    (r : TOllamaResponse) : Weaves model [r] s (s.ollamaResponseHandler env commands r).2 := by
  have hread := (quietly_isDisconnected env s).weaves model
  have hupdate := hread.followed ((quietly_updateDetector commands _ r).weaves model)
  have hfailed := (hupdate.followed (weaves_respondToUserAndOllama env _ .communicationFailure))
    |>.skip [r]
  rw [ollamaResponseHandler]
  simp only
  split
  · exact hread.skip [r]
  · split
    · exact hfailed
    · exact hfailed
    · next hno hresult =>
      have hdone : r.isModelDone.isSome := by
        by_contra hnone
        rw [CContentRestorator.update_of_isModelDone_none (by simpa using hnone)] at hresult
        obtain ⟨hstatus, -⟩ := Prod.mk.inj (Except.ok.inj hresult)
        exact hno hstatus.symm
      exact ((weaves_visitDecision env _ hdone _).after hupdate).followed
        (weaves_concludeResponse env _ _)

lemma weaves_deliver (env : TEnvironment) (commands : TAiCommands) (rs : List TOllamaResponse)
    (s : TThread) : Weaves model rs s (deliver env commands rs s) := by
  induction rs generalizing s with
  | nil => exact Weaves.refl s
  | cons r rs ih =>
    have hr : Weaves model [r] s _ := weaves_ollamaResponseHandler env commands s r
    rw [deliver]
    split
    · next t ht =>
      rw [ht] at hr
      exact hr.trans (ih t)
    · next t ht =>
      rw [ht] at hr
      exact hr.skip rs

/-! ## The session -/

lemma weaves_makeResponseForCommand (env : TEnvironment) (commands : TAiCommands)
    (parsedUserJson : Json) (s : TThread) (aiCommand : TDetected) :
    Weaves model [] s (s.makeResponseForCommand env commands parsedUserJson aiCommand).2 := by
  rw [makeResponseForCommand]
  split
  · exact Weaves.refl s
  · have hcall : Weaves model [] s { s.ping env with
        calls := (s.ping env).calls ++ [⟨aiCommand.whatDetected, aiCommand.collectedString⟩] } :=
      (weaves_ping env s).followed (weaves_of_eq rfl rfl)
    simp only
    split
    · exact hcall
    · exact hcall
    · exact hcall.followed (weaves_ping env _)
    · exact hcall.followed (weaves_ping env _)

lemma weaves_respondText (env : TEnvironment) (s : TThread) (responseForUser : TString) :
    Weaves model [] s (s.respondText env model responseForUser) := by
  have hreset : Weaves model [] s { s with loopDetector := s.loopDetector.reset } :=
    weaves_of_eq rfl rfl
  have hfinish := hreset.followed (weaves_finish env _)
  have hown (utcTime : TString) :
      Own model ⟨.reply, buildJsStringForUser utcTime model responseForUser⟩ :=
    ⟨utcTime, responseForUser, rfl, trivial⟩
  exact hfinish.followed (weaves_sendToUser env fun _ => Woven.own_singleton (hown _))

lemma weaves_respondRequest (parsedUserJson : Json) (s : TThread) (cmd : TString)
    (forOllama : Json) : Weaves model [] s (s.respondRequest parsedUserJson cmd forOllama).2 := by
  rw [respondRequest]
  simp only
  split <;> exact weaves_of_eq rfl rfl

lemma weaves_handleCommand (env : TEnvironment) (commands : TAiCommands) (parsedUserJson : Json)
    (s : TThread) (aiCommand : TDetected) :
    Weaves model [] s (s.handleCommand env commands parsedUserJson model aiCommand).2 := by
  have hmake : Weaves model [] s _ :=
    weaves_makeResponseForCommand env commands parsedUserJson s aiCommand
  rw [handleCommand]
  split
  · next heq =>
    rw [heq] at hmake
    exact hmake
  · next heq =>
    rw [heq] at hmake
    exact hmake.followed (weaves_respondText env _ _)
  · next heq =>
    rw [heq] at hmake
    exact hmake.followed (weaves_respondRequest parsedUserJson _ _ _)

lemma weaves_finishInnerLoop (env : TEnvironment) (res : Except TException Json × TThread) :
    Weaves model [] res.2 (finishInnerLoop env res).2 := by
  rcases res with ⟨_ | _, s⟩
  · exact Weaves.refl s
  · exact weaves_finish env s

lemma weaves_innerLoop (env : TEnvironment) (commands : TAiCommands) (parsedUserJson : Json)
    (s : TThread) : Weaves model [] s (s.innerLoop env commands parsedUserJson model).2 := by
  have hread (t : TThread) : Weaves model [] t (t.isThreadLoopingYet env) :=
    (quietly_isThreadLoopingYet env t).weaves model
  have hsecond := (hread s).followed (hread _)
  rw [innerLoop]
  simp only
  split
  · split
    · rw [getFuture]
      split
      · exact hsecond
      · exact (hsecond.followed (weaves_handleCommand env commands parsedUserJson _ _)).followed
          (weaves_finishInnerLoop env _)
    · exact (hsecond.followed (hread _)).followed (weaves_finish env _)
  · exact (hread s).followed (weaves_finish env _)

lemma weaves_endRound (env : TEnvironment) (commands : TAiCommands) (parsedUserJson : Json)
    (s : TThread) (chat : TChat) :
    Weaves model chat.responses s (s.endRound env commands parsedUserJson model chat).2 := by
  have hdeliver : Weaves model chat.responses s _ := weaves_deliver env commands chat.responses s
  unfold endRound
  simp only
  split
  · exact hdeliver
  · exact hdeliver.followed (weaves_innerLoop env commands parsedUserJson _)

/-- A round begins with pings for the model of the request. -/
lemma weaves_beginRound (s : TThread) (request : Json) :
    Weaves model [] s (s.beginRound model request) where
  pings := by
    intro _ gen hgen
    rw [← Option.some.inj hgen]
  queue := fun _ => ⟨[], (List.append_nil _).symm, .nil⟩

end TThread

open TThread

variable {model : TString} {parsedUserJson : Json}

lemma weaves_threadLoop (hmodel : modelOf parsedUserJson = .ok model) (env : TEnvironment)
    (commands : TAiCommands) (chats : List TChat) (request : Json) (s : TThread) :
    Weaves model (chats.flatMap (·.responses)) s
      (threadLoop env commands parsedUserJson chats request s).2 := by
  have hread (t : TThread) : Weaves model [] t (t.isThreadLoopingYet env) :=
    (quietly_isThreadLoopingYet env t).weaves model
  have hend (t : TThread) : Weaves model [] t ((t.finish env).disconnectAll) :=
    (weaves_finish env t).followed ((quietly_disconnectAll _).weaves model)
  induction chats generalizing request s with
  | nil =>
    rw [threadLoop.eq_def]
    simp only [hmodel]
    split
    · exact (hread s).followed (hend _)
    · exact (hread s).followed (weaves_beginRound _ request)
  | cons chat chats ih =>
    have hround := ((hread s).followed (weaves_beginRound _ request)).trans
      (weaves_endRound env commands parsedUserJson _ chat)
    rw [threadLoop.eq_def, List.flatMap_cons]
    simp only [hmodel]
    split
    · exact ((hread s).followed (hend _)).skip _
    · split
      · next heq =>
        rw [heq] at hround
        exact hround.skip _
      · next heq =>
        rw [heq] at hround
        exact hround.trans (ih _ _)

/-- A message that the proxy has composed is not the end of the answer. -/
lemma Own.done {m : TUserMessage} (h : Own model m) :
    m.json.find? (lit "done") = some (.bool false) := by
  obtain ⟨utcTime, text, hjson, -⟩ := h
  have hne : lit "created_at" ≠ lit "done" := by decide
  simp [hjson, buildJsStringForUser, Json.find?, Json.lookup, hne]

/-- A message that carries a response is the end of the answer only if it is this response. -/
lemma Carries.done {r : TOllamaResponse} {m : TUserMessage} (h : Carries r m) :
    ∃ b, m.json.find? (lit "done") = some (.bool b) ∧ (b = true → m.json = r.asJson) := by
  rcases h.json with hjson | hjson
  · have hdone := h.modelDone
    rw [TOllamaResponse.isModelDone] at hdone
    split at hdone
    · next b hb => exact ⟨b, by rw [hjson, hb], fun _ => hjson⟩
    · cases hdone
  · exact ⟨false, hjson.done, fun h => absurd h Bool.false_ne_true⟩

/-- **The proxy sends what it composes and what Ollama says, and nothing else.**  In any session the
messages for the user are woven from the responses of Ollama: each response leaves one message at
most and in its place, which is the response itself or the response with another text, and all
other messages are composed by the proxy for the model of the request.  Every message has a boolean
`done`, and a message that ends the answer is a response of Ollama. -/
theorem queue_woven (env : TEnvironment) (commands : TAiCommands) (std : LengthSort)
    (chats : List TChat) (hmodel : modelOf parsedUserJson = .ok model) :
    let responses := chats.flatMap (·.responses)
    let queue := (threadedOllama env commands parsedUserJson std chats).2.queue
    Woven (Own model) Carries responses queue ∧
      ∀ m ∈ queue, ∃ done, m.json.find? (lit "done") = some (.bool done) ∧
        (done = true → ∃ r ∈ responses, m.json = r.asJson) := by
  intro responses queue
  have hwoven : Woven (Own model) Carries responses queue := by
    obtain ⟨ms, hqueue, hms⟩ := (weaves_threadLoop hmodel env commands chats parsedUserJson
      { commandDetector := .ofCommands std commands }).queue nofun
    have heq : queue = ms := hqueue
    rw [heq]
    exact hms
  refine ⟨hwoven, ?_⟩
  intro m hm
  rcases hwoven.origin hm with hown | ⟨r, hr, hcarries⟩
  · exact ⟨false, hown.done, nofun⟩
  · obtain ⟨b, hb, hjson⟩ := hcarries.done
    exact ⟨b, hb, fun hdone => ⟨r, hr, hjson hdone⟩⟩

/-- A model that answers at once. -/
theorem queue_woven_answer :
    let commands := getAiCommandsList fun _ _ => .ok (lit "Monday")
    let user := TUserRequest.ofMessage (lit "m") (lit "What time is it?")
    let answer : TChat := ⟨[.ofText (lit "Good ") false, .ofText (lit "day.") true], none⟩
    let queue := (threadedOllama .quiet commands user.parsedUserJson .stable [answer]).2.queue
    Woven (Own (lit "m")) Carries answer.responses queue ∧
      ∀ m ∈ queue, ∃ done, m.json.find? (lit "done") = some (.bool done) ∧
        (done = true → ∃ r ∈ answer.responses, m.json = r.asJson) := by
  intro commands user answer queue
  have hmodel : modelOf user.parsedUserJson = .ok (lit "m") := user.modelOf_parsedUserJson
  have hwoven := queue_woven .quiet commands .stable [answer] hmodel
  simpa using hwoven

end OllamaMitm
