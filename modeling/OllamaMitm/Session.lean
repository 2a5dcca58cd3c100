import OllamaMitm.Pinger
import OllamaMitm.Restorator

/-!
# The session thread

`RunOllamaThread` of `network/chunkedcontentprovider.cpp`: the callback that handles the chunks
of one response, the loop that sends chat requests and executes the commands the model answers
with, and the two overloads of `MakeResponseForOllama`.  The Ollama library is outside: a chat is
given by the responses it would deliver to the callback and by whether it throws in the end.

The thread state also keeps records that the program does not have: the requests it has sent, the
commands it was told, the calls of providers it has made, and the follow-up requests.
-/

namespace OllamaMitm

/-- What `ollamaServer.chat` does in one round: it delivers these responses until the callback
returns false, and then returns or throws. -/
structure TChat where
  responses : List TOllamaResponse
  failure : Option TException := none

/-- One follow-up request: the command that led to it, the request with the answer of the command,
and the request that is sent. -/
structure TFollowUp where
  command : TString
  answer : Json
  request : Json

/-- The state of the Ollama thread. -/
structure TThread where
  commandDetector : CContentRestorator
  pingGen : CPinger := {}
  loopDetector : CAiLoopDetector := {}
  commObject : TCommObject := {}
  shouldStop : Bool := false
  detectionPromise : Option TDetected := none
  /-- The chat requests sent so far. -/
  requests : List Json := []
  /-- The detections that were reported to the session loop so far. -/
  reported : List TDetected := []
  /-- The calls of providers made so far. -/
  calls : List TProviderCall := []
  /-- The follow-up requests prepared so far. -/
  followUps : List TFollowUp := []

/-! ## Requests -/

/-- The message by which the backend answers the model. -/
def backendMessage (plainText : TString) : Json :=
  .object [(lit "content", .string (plainText ++ lit "\n")), (lit "role", .string (lit "user"))]

/-- `MakeResponseForOllama(plainText)` for the stored request of the user. -/
def makeResponseForOllama (parsedUserJson : Json) (plainText : TString) : Except TException Json :=
  parsedUserJson.modify (lit "messages") fun messages =>
    messages.emplaceBack (backendMessage plainText)

/-- The request by which the model is told that it repeats itself. -/
def loopWarning : TString :=
  lit "You request cannot produce more data than you already got. Stop repeating it."

/-- The text for a command that is not in the table. -/
def backendFailure : TString := lit "Backend failure. This request cannot be processed now."

/-- The conversion of `parsedUserJson["model"]` to the string that `CPinger::Restart` takes. -/
def modelOf (parsedUserJson : Json) : Except TException TString :=
  match parsedUserJson with
  | .null => Json.toStdString .null
  | .object fs => ((Json.lookup (lit "model") fs).getD .null).toStdString
  | j => .error (Json.subscriptError j)

/-- `TCommandResutl`: a request for Ollama, or a text for the user. -/
inductive TCommandResult where
  | request (forOllama : Json)
  | text (responseForUser : TString)

namespace TThread

variable (env : TEnvironment) (commands : TAiCommands) (parsedUserJson : Json) (s : TThread)

/-! ## Access to shared data -/

/-- `commObject.IsDisconnected()`; the value read is the flag in the result. -/
def isDisconnected : TThread := { s with commObject := s.commObject.isDisconnected env }

/-- `commObject.SendToUser(what)`. -/
def sendToUser (what : Option TUserMessage) : TThread :=
  { s with commObject := s.commObject.sendToUser env what }

/-- `commObject.DisconnectAll()`. -/
def disconnectAll : TThread := { s with commObject := s.commObject.disconnectAll }

/-- Read `*shouldStopPtr`. -/
def readShouldStop : TThread :=
  { s with
    shouldStop := s.shouldStop || env.shouldStop s.commObject.clock
    commObject := { s.commObject with clock := s.commObject.clock + 1 } }

/-- `isThreadLoopingYet()`: the stop flag, and unless it is set the disconnect flag.  Whether the
thread is looping is then `IsLooping` of the result. -/
def isThreadLoopingYet : TThread :=
  let s := s.readShouldStop env
  if s.shouldStop then s else s.isDisconnected env

/-- The answer of the last `isThreadLoopingYet()`. -/
def IsLooping : Prop := s.shouldStop = false ∧ s.commObject.disconnected = false

instance : Decidable s.IsLooping := inferInstanceAs (Decidable (_ ∧ _))

/-- `CPinger::Ping`. -/
def ping : TThread :=
  match s.pingGen.ping with
  | none => s
  | some gen =>
    { s.sendToUser env (some (gen.generatePingResponse (env.utcTime s.commObject.clock))) with
      pingGen := ⟨some gen.callOnce⟩ }

/-- `CPinger::Finish`. -/
def finish : TThread :=
  match s.pingGen.ping with
  | none => s
  | some gen =>
    { s.sendToUser env (gen.finishPingsIfAny (env.utcTime s.commObject.clock)) with
      pingGen := ⟨none⟩ }

/-- `CPinger::Restart`. -/
def restart (model : TString) : TThread := { s with pingGen := ⟨some { model := model }⟩ }

/-! ## The response callback -/

/-- `respondToUserAndOllama`. -/
def respondToUserAndOllama (status : EReadingBehahve) : Bool × TThread :=
  match status with
  | .ollamaHasMore =>
    let s := s.isDisconnected env
    (!s.commObject.disconnected, s)
  | .communicationFailure => (false, s.disconnectAll)
  | .ollamaSentAll => (false, s.disconnectAll)

/-- `return !commObject.IsDisconnected();` -/
def keepGoing : Except TException Bool × TThread :=
  let s := s.isDisconnected env
  (.ok (!s.commObject.disconnected), s)

/-- `sendPlainTextToUser(plain); return !commObject.IsDisconnected();` -/
def sendPlainTextToUser (ollamaResponse : TOllamaResponse) (plain : TString) :
    Except TException Bool × TThread :=
  let s := s.finish env
  match replaceOllamaText ollamaResponse plain with
  | .error e => (.error e, s)
  | .ok resp => (s.sendToUser env (some ⟨.reply, resp⟩)).keepGoing env

/-- `detectionPromise->set_value(detected); return false;` -/
def setValue (detected : TDetected) : Except TException Bool × TThread :=
  match s.detectionPromise with
  | some _ => (.error ⟨lit "std::future_error: Promise already satisfied"⟩, s)
  | none =>
    (.ok false,
      { s with detectionPromise := some detected, reported := s.reported ++ [detected] })

/-- The visitor of the decision. -/
def visitDecision (ollamaResponse : TOllamaResponse) (decision : TDecision) :
    Except TException Bool × TThread :=
  match decision with
  | .alreadyDetected _ =>
    (s.sendToUser env (some ⟨.reply, ollamaResponse.asJson⟩)).keepGoing env
  | .needMoreData status currentlyCollectedString =>
    if status = .ollamaSentAll then
      s.sendPlainTextToUser env ollamaResponse currentlyCollectedString
    else s.keepGoing env
  | .passToUser _ collectedString => s.sendPlainTextToUser env ollamaResponse collectedString
  | .detected detected => s.setValue detected

/-- The thread after one call of `commandDetector->Update(ollamaResponse)`. -/
def updateDetector (ollamaResponse : TOllamaResponse) : TThread :=
  let step := s.commandDetector.update commands s.commObject.clock ollamaResponse
  { s with commandDetector := step.self, calls := s.calls ++ step.calls }

/-- `std::visit(visitor, decision) && respondToUserAndOllama(status)` inside the `try`: what the
visitor did is followed by the answer to Ollama. -/
def concludeResponse (status : EReadingBehahve) :
    Except TException Bool × TThread → Bool × TThread
  | (.error _, s) => s.respondToUserAndOllama env .communicationFailure
  | (.ok true, s) => s.respondToUserAndOllama env status
  | (.ok false, s) => (false, s)

/-- `ollamaResponseHandler`: whether to keep reading, and the thread afterwards. -/
def ollamaResponseHandler (ollamaResponse : TOllamaResponse) : Bool × TThread :=
  let s := s.isDisconnected env
  if s.commObject.disconnected then (false, s)
  else
    let result := (s.commandDetector.update commands s.commObject.clock ollamaResponse).result
    let s := s.updateDetector commands ollamaResponse
    match result with
    | .error _ => s.respondToUserAndOllama env .communicationFailure
    | .ok (.communicationFailure, _) => s.respondToUserAndOllama env .communicationFailure
    | .ok (status, decision) =>
      concludeResponse env status (s.visitDecision env ollamaResponse decision)

/-- The chat delivers the responses until the callback returns false. -/
def deliver : List TOllamaResponse → TThread → TThread
  | [], s => s
  | r :: rs, s =>
    match s.ollamaResponseHandler env commands r with
    | (true, s) => deliver rs s
    | (false, s) => s

/-! ## The session loop -/

/-- `MakeResponseForOllama(aiCommand, pingUser)`. -/
def makeResponseForCommand (aiCommand : TDetected) : Except TException TCommandResult × TThread :=
  match commands.find? aiCommand.whatDetected with
  | none => ((makeResponseForOllama parsedUserJson backendFailure).map .request, s)
  | some cmd =>
    let s := s.ping env
    let result := cmd.resultProvider s.commObject.clock aiCommand.whatDetected
      aiCommand.collectedString
    let s := { s with calls := s.calls ++ [⟨aiCommand.whatDetected, aiCommand.collectedString⟩] }
    match result with
    | .error e => (.error e, s)
    | .ok (.thatWasResponseToUser originalOllamaAnswer) => (.ok (.text originalOllamaAnswer), s)
    | .ok (.thatWasRequestToFulfill computedValueForOllama) =>
      ((makeResponseForOllama parsedUserJson computedValueForOllama).map .request, s.ping env)
    | .ok (.probablyThatWasResponseToUser computedValueForOllama) =>
      ((makeResponseForOllama parsedUserJson computedValueForOllama).map .request, s.ping env)

/-- The session visitor for a text for the user. -/
def respondText (model responseForUser : TString) : TThread :=
  let s := { s with loopDetector := s.loopDetector.reset }
  let json := buildJsStringForUser (env.utcTime s.commObject.clock) model responseForUser
  (s.finish env).sendToUser env (some ⟨.reply, json⟩)

/-- The session visitor for a follow-up request: the next request, and the thread. -/
def respondRequest (cmd : TString) (forOllama : Json) : Except TException Json × TThread :=
  let s := { s with loopDetector := s.loopDetector.update cmd }
  let request := if s.loopDetector.isLooping then makeResponseForOllama parsedUserJson loopWarning
    else .ok forOllama
  match request with
  | .error e => (.error e, s)
  | .ok request =>
    (.ok request,
      { s with
        commandDetector := s.commandDetector.reset
        followUps := s.followUps ++ [⟨cmd, forOllama, request⟩] })

/-- The body of the inner loop once the future is ready with a command. -/
def handleCommand (model : TString) (aiCommand : TDetected) : Except TException Json × TThread :=
  match s.makeResponseForCommand env commands parsedUserJson aiCommand with
  | (.error e, s) => (.error e, s)
  | (.ok (.text responseForUser), s) => (.ok .null, s.respondText env model responseForUser)
  | (.ok (.request forOllama), s) =>
    s.respondRequest parsedUserJson aiCommand.whatDetected forOllama

/-- The beginning of a round, up to the chat call: restart the pings and send the request with a
new promise. -/
def beginRound (model : TString) (request : Json) : TThread :=
  { s.restart model with detectionPromise := none, requests := s.requests ++ [request] }

/-- `pingGen.Finish()` behind the inner loop, which an exception skips. -/
def finishInnerLoop : Except TException Json × TThread → Except TException Json × TThread
  | (.error e, s) => (.error e, s)
  | (.ok request, s) => (.ok request, s.finish env)

/-- `fut.get()` and what follows it. -/
def getFuture (model : TString) : Except TException Json × TThread :=
  match s.detectionPromise with
  | none => (.error ⟨lit "std::future_error: Broken promise"⟩, s)
  | some aiCommand =>
    finishInnerLoop env (s.handleCommand env commands parsedUserJson model aiCommand)

/-- The inner loop, after the chat returned.  The promise is gone by now, so the future is ready at
the first wait: with the command, or with the broken promise.  Once `isThreadLoopingYet` has
failed it fails again. -/
def innerLoop (model : TString) : Except TException Json × TThread :=
  let s := s.isThreadLoopingYet env
  if s.IsLooping then
    let s := s.isThreadLoopingYet env
    if s.IsLooping then s.getFuture env commands parsedUserJson model
    else (.ok .null, (s.isThreadLoopingYet env).finish env)
  else (.ok .null, s.finish env)

/-- A round from the chat call on: the next request, or the exception that leaves the thread
function. -/
def endRound (model : TString) (chat : TChat) : Except TException Json × TThread :=
  let s := s.deliver env commands chat.responses
  match chat.failure with
  | some e => (.error e, s)
  | none => s.innerLoop env commands parsedUserJson model

end TThread

/-- Where the thread function stands: it waits for the answer to a chat request, it has ended, or
an exception has left it. -/
inductive TThreadStatus where
  | waiting
  | finished
  | escaped (e : TException)
deriving DecidableEq

open TThread

variable (env : TEnvironment) (commands : TAiCommands) (parsedUserJson : Json)

/-- The outer loop of `threadedOllama`, against the chats that Ollama answers with. -/
def threadLoop : List TChat → Json → TThread → TThreadStatus × TThread
  | chats, request, s =>
    let s := s.isThreadLoopingYet env
    if ¬s.IsLooping ∨ request.empty then (.finished, (s.finish env).disconnectAll)
    else
      match modelOf parsedUserJson with
      | .error e => (.escaped e, s)
      | .ok model =>
        let s := s.beginRound model request
        match chats with
        | [] => (.waiting, s)
        | chat :: chats =>
          match s.endRound env commands parsedUserJson model chat with
          | (.error e, s) => (.escaped e, s)
          | (.ok request, s) => threadLoop chats request s

/-- The thread function `threadedOllama`, when Ollama answers with the given chats: how far it
gets with them, and the thread then. -/
def threadedOllama (std : LengthSort) (chats : List TChat) : TThreadStatus × TThread :=
  threadLoop env commands parsedUserJson chats parsedUserJson
    { commandDetector := .ofCommands std commands }

end OllamaMitm
