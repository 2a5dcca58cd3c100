import OllamaMitm.Callback
import OllamaMitm.FollowUp
import OllamaMitm.Lib.Groups
import OllamaMitm.Rounds

/-!
# The pings are bracketed

Every group of pings is opened by `Working.`, continued by dots and closed by the finish message,
and once text of a reply is queued there are no more groups.  The invariant of the session says in
which stage the queue is: while the thread waits for Ollama all groups are closed, and while a
command runs a group may be open, exactly when the ping generator was used.
-/

namespace OllamaMitm

open Computability Lib

/-- The messages of the ping generator with a given text; none of them is marked as done. -/
def generated (origin : TOrigin) (text : TString) : Set TUserMessage :=
  {m | m.origin = origin ∧ m.content = text ∧ m.isDone = false}

/-- The letters of the queue: the first ping, the other pings, the finish message, and the texts
of replies. -/
def pingGroups : GroupAlphabet TUserMessage where
  opens := generated .ping (lit "Working.")
  continues := generated .ping (lit ".")
  closes := generated .finish CUserPingGenerator.kFinishMessage
  tail := {m | m.origin = .reply}

namespace TThread

variable {env : TEnvironment} {commands : TAiCommands} {parsedUserJson request : Json}
variable {std : LengthSort} {s s' : TThread} {r : TOllamaResponse} {L : Language TUserMessage}
variable {m : TUserMessage} {decision : TDecision} {res : Except TException Bool} {b : Bool}

/-! ## The stages of the queue -/

/-- No group is open, and the queue is in the language `L` as long as the flag is not set. -/
structure Standing (L : Language TUserMessage) (s : TThread) : Prop where
  isPartial : pingGroups.IsPartial s.queue
  queue : s.commObject.disconnected = false → s.pinging = false ∧ s.queue ∈ L

/-- A group is open exactly when the generator was used, as long as the flag is not set. -/
structure Grouping (s : TThread) : Prop where
  isPartial : pingGroups.IsPartial s.queue
  queue : s.commObject.disconnected = false →
    if s.pinging then s.queue ∈ pingGroups.opened else s.queue ∈ pingGroups.closed

lemma Standing.quietly (h : Standing L s) (hs : Quietly s s') : Standing L s' := by
  refine ⟨by rw [hs.queue]; exact h.isPartial, fun hf => ?_⟩
  rw [hs.queue, hs.pinging]
  exact h.queue (hs.flag hf)

lemma Grouping.quietly (h : Grouping s) (hs : Quietly s s') : Grouping s' := by
  refine ⟨by rw [hs.queue]; exact h.isPartial, fun hf => ?_⟩
  rw [hs.queue, hs.pinging]
  exact h.queue (hs.flag hf)

lemma Standing.words (h : Standing pingGroups.closed s) : Standing pingGroups.words s :=
  ⟨h.isPartial, fun hf => ⟨(h.queue hf).1, GroupAlphabet.words_of_closed (h.queue hf).2⟩⟩

lemma Standing.grouping (h : Standing pingGroups.closed s) : Grouping s := by
  refine ⟨h.isPartial, fun hf => ?_⟩
  obtain ⟨hp, hq⟩ := h.queue hf
  simpa [hp] using hq

/-- Once the flag is set, only what is queued counts. -/
lemma Standing.of_seen (h : pingGroups.IsPartial s.queue) (hq : s'.queue = s.queue)
    (hd : s'.commObject.disconnected = true) : Standing L s' :=
  ⟨by rw [hq]; exact h, fun hf => absurd (hd.symm.trans hf) (by decide)⟩

lemma Grouping.of_seen (h : pingGroups.IsPartial s.queue) (hq : s'.queue = s.queue)
    (hd : s'.commObject.disconnected = true) : Grouping s' :=
  ⟨by rw [hq]; exact h, fun hf => absurd (hd.symm.trans hf) (by decide)⟩

/-! ## Sending -/

/-- Text of a reply may be queued once no group is open. -/
lemma Standing.sendReply (h : Standing pingGroups.words s) (hm : m.origin = .reply) :
    Standing pingGroups.words (s.sendToUser env (some m)) := by
  rcases sendToUser_cases env s m with ⟨hq, hd⟩ | ⟨hq, hf⟩
  · exact .of_seen h.isPartial hq hd
  · have hmem : (s.sendToUser env (some m)).queue ∈ pingGroups.words := by
      rw [hq]
      exact GroupAlphabet.words_append (h.queue hf).2 hm
    exact ⟨GroupAlphabet.isPartial_of_words hmem, fun _ => ⟨(h.queue hf).1, hmem⟩⟩

/-- A message that closes groups. -/
lemma exists_mem_closes : ∃ m, m ∈ pingGroups.closes :=
  ⟨⟨.finish, buildJsStringForUser [] [] CUserPingGenerator.kFinishMessage⟩, rfl, by simp, by simp⟩

lemma isPartial_of_opened {l : List TUserMessage} (hl : l ∈ pingGroups.opened) :
    pingGroups.IsPartial l :=
  have ⟨_, hm⟩ := exists_mem_closes
  GroupAlphabet.isPartial_of_opened hl hm

/-- A ping opens a group, or continues the open one. -/
lemma Grouping.ping (h : Grouping s) : Grouping (s.ping env) := by
  rw [TThread.ping]
  cases hgen : s.pingGen.ping with
  | none => exact h
  | some gen =>
    simp only
    set msg := gen.generatePingResponse (env.utcTime s.commObject.clock) with hmsg
    rcases sendToUser_cases env s msg with ⟨hq, hd⟩ | ⟨hq, hf⟩
    · exact .of_seen h.isPartial hq hd
    · have hping : s.pinging = gen.once := by rw [pinging, hgen, Option.any_some]
      have hstage := h.queue hf
      have hopened : s.queue ++ [msg] ∈ pingGroups.opened := by
        rw [hping] at hstage
        cases honce : gen.once with
        | false =>
          -- the first ping of its group
          rw [honce] at hstage
          refine GroupAlphabet.opened_of_closed hstage ⟨rfl, ?_⟩
          simp [hmsg, CUserPingGenerator.generatePingResponse, honce]
        | true =>
          rw [honce] at hstage
          refine GroupAlphabet.opened_append hstage ⟨rfl, ?_⟩
          simp [hmsg, CUserPingGenerator.generatePingResponse, honce]
      rw [← hq] at hopened
      exact ⟨isPartial_of_opened hopened, fun _ => hopened⟩

/-- The finish message closes the open group, if there is one. -/
lemma Grouping.finish (h : Grouping s) : Standing pingGroups.closed (s.finish env) := by
  obtain ⟨hno, ⟨hq, hf⟩ | ⟨m, horigin, hcontent, hdone, hq, hf, hping⟩⟩ := finish_cases env s
  · refine ⟨by rw [hq]; exact h.isPartial, fun hf' => ⟨hno, ?_⟩⟩
    have hstage := h.queue (hf hf').1
    rw [(hf hf').2] at hstage
    rw [hq]
    exact hstage
  · have hstage := h.queue hf
    rw [hping] at hstage
    have hclosed := GroupAlphabet.closed_of_opened hstage ⟨horigin, hcontent, hdone⟩
    rw [← hq] at hclosed
    exact ⟨GroupAlphabet.isPartial_of_closed hclosed, fun _ => ⟨hno, hclosed⟩⟩

/-- Where no group is open, there is nothing to finish. -/
lemma Standing.finish (h : Standing L s) : Standing L (s.finish env) := by
  obtain ⟨hno, ⟨hq, hf⟩ | ⟨m, -, -, -, -, hf, hping⟩⟩ := finish_cases env s
  · refine ⟨by rw [hq]; exact h.isPartial, fun hf' => ⟨hno, ?_⟩⟩
    rw [hq]
    exact (h.queue (hf hf').1).2
  · exact absurd (hping.symm.trans (h.queue hf).1) (by decide)

/-! ## While a reply is read -/

/-- The stage in which a reply may leave the queue, by the phase of the detector. -/
def stage (p : Phase) : Language TUserMessage :=
  if p = .decided then pingGroups.words else pingGroups.closed

/-- The thread reads a reply: as long as nothing is decided, no text was queued. -/
def Listening (s : TThread) : Prop :=
  ∃ p, s.commandDetector.Represents p ∧ s.detectionPromise = none ∧ Standing (stage p) s

/-- The thread has read a reply: if a command was reported, no text was queued. -/
structure Heard (s : TThread) : Prop where
  standing : Standing pingGroups.words s
  reported : ∀ detected, s.detectionPromise = some detected → Standing pingGroups.closed s

lemma Standing.words_of_stage {p : Phase} (h : Standing (stage p) s) :
    Standing pingGroups.words s := by
  by_cases hp : p = .decided
  · rwa [stage, if_pos hp] at h
  · rw [stage, if_neg hp] at h
    exact h.words

lemma Heard.of_none (h : Standing pingGroups.words s) (hprom : s.detectionPromise = none) :
    Heard s :=
  ⟨h, fun d hd => absurd (hprom.symm.trans hd) (by simp)⟩

lemma Listening.heard (h : Listening s) : Heard s :=
  have ⟨_, _, hprom, hs⟩ := h
  .of_none hs.words_of_stage hprom

/-- One call of the callback. -/
lemma Listening.ollamaResponseHandler (h : Listening s) (r : TOllamaResponse) :
    let res := s.ollamaResponseHandler env commands r
    Heard res.2 ∧ (res.1 = true → Listening res.2) := by
  obtain ⟨p, hp, hprom, hs⟩ := h
  have hcase := handled_ollamaResponseHandler env commands hp hprom r
  intro res
  rw [show s.ollamaResponseHandler env commands r = res from rfl] at hcase
  generalize r.isModelDone = done at hcase
  obtain ⟨b, t⟩ := res
  cases hcase with
  | stops hu ht _ hprom' =>
    -- at most the finish message was queued
    have hw := hs.words_of_stage.quietly hu
    rcases ht with ht | ht
    · exact ⟨.of_none (hw.quietly ht) hprom', by simp⟩
    · exact ⟨.of_none (hw.finish.quietly ht) hprom', by simp⟩
  | collects _ hne hne' ht hrep _ hprom' =>
    -- nothing was queued, and nothing is decided yet
    rw [stage, if_neg hne] at hs
    have hs' := hs.quietly ht
    refine ⟨.of_none hs'.words hprom', fun _ => ⟨_, hrep, hprom', ?_⟩⟩
    rwa [stage, if_neg hne']
  | answers hne hu ht hgo _ hprom' =>
    -- the pings are finished before the first text is queued
    rw [stage, if_neg hne] at hs
    have hs' := ((hs.quietly hu).finish.words.sendReply rfl).quietly ht
    exact ⟨.of_none hs' hprom', fun hb => ⟨_, (hgo hb).2, hprom', by rwa [stage, if_pos rfl]⟩⟩
  | passes hdec hu ht hgo _ hprom' =>
    have hs' := ((hs.words_of_stage.quietly hu).sendReply rfl).quietly ht
    exact ⟨.of_none hs' hprom', fun hb => ⟨_, (hgo hb).2, hprom', by rwa [stage, if_pos rfl]⟩⟩
  | reports hne _ ht hprom' =>
    rw [stage, if_neg hne] at hs
    exact ⟨⟨(hs.quietly ht).words, fun _ _ => hs.quietly ht⟩, by simp⟩

/-- All the responses of a chat. -/
lemma Listening.deliver (h : Listening s) (rs : List TOllamaResponse) :
    Heard (deliver env commands rs s) := by
  induction rs generalizing s with
  | nil => exact h.heard
  | cons r rs ih =>
    have hres : Heard (s.ollamaResponseHandler env commands r).2 ∧ _ := h.ollamaResponseHandler r
    obtain ⟨hheard, hgo⟩ := hres
    rw [TThread.deliver]
    split
    · next t ht => exact ih (by rw [ht] at hgo; exact hgo rfl)
    · next t ht => rw [ht] at hheard; exact hheard

/-! ## While a command runs -/

lemma Grouping.makeResponseForCommand (h : Grouping s) (aiCommand : TDetected) :
    Grouping (s.makeResponseForCommand env commands parsedUserJson aiCommand).2 := by
  rw [TThread.makeResponseForCommand]
  split
  · exact h
  · next cmd hcmd =>
    have hping : Grouping { s.ping env with
        calls := (s.ping env).calls ++ [⟨aiCommand.whatDetected, aiCommand.collectedString⟩] } :=
      h.ping.quietly ⟨rfl, rfl, id⟩
    simp only
    split
    · exact hping
    · exact hping
    · exact hping.ping
    · exact hping.ping

/-- The thread is at the head of the loop: with a request to send, no text was queued and the
detector is new. -/
structure Ready (request : Json) (s : TThread) : Prop where
  standing : Standing pingGroups.words s
  next : request.empty = false →
    Standing pingGroups.closed s ∧ s.commandDetector.Represents (.initial s.commandDetector.words)

/-- What a round leaves: the thread is ready for the next request, or an exception was thrown. -/
def Ended : Except TException Json × TThread → Prop
  | (.error _, s) => pingGroups.IsPartial s.queue
  | (.ok request, s) => Ready request s

lemma Ready.of_null (h : Standing pingGroups.words s) : Ready .null s := ⟨h, by simp [Json.empty]⟩

/-- The command that was reported. -/
lemma Standing.handleCommand (h : Standing pingGroups.closed s) (model : TString)
    (aiCommand : TDetected) :
    Ended (finishInnerLoop env (s.handleCommand env commands parsedUserJson model aiCommand)) := by
  have hgroup : Grouping (s.makeResponseForCommand env commands parsedUserJson aiCommand).2 :=
    h.grouping.makeResponseForCommand aiCommand
  rw [TThread.handleCommand]
  rcases hres : s.makeResponseForCommand env commands parsedUserJson aiCommand with
    ⟨e | request | text, t⟩
  all_goals rw [hres] at hgroup
  · exact hgroup.isPartial
  · -- a follow-up request
    simp only
    cases hnext : nextRequest parsedUserJson t aiCommand.whatDetected request with
    | error e =>
      rw [respondRequest_error hnext]
      exact hgroup.isPartial
    | ok request' =>
      rw [respondRequest_ok hnext]
      set u : TThread := { t with
        loopDetector := t.loopDetector.update aiCommand.whatDetected
        commandDetector := t.commandDetector.reset
        followUps := t.followUps ++ [⟨aiCommand.whatDetected, request, request'⟩] } with hu
      have hclosed : Standing pingGroups.closed (u.finish env) :=
        (hgroup.quietly (show Quietly t u from ⟨rfl, rfl, id⟩)).finish
      refine ⟨hclosed.words, fun _ => ⟨hclosed, ?_⟩⟩
      rw [(onlyTalks_finish env u).commandDetector]
      exact CContentRestorator.represents_reset
  · -- a text for the user
    simp only [TThread.respondText]
    set u : TThread := { t with loopDetector := t.loopDetector.reset } with hu
    have hclosed : Standing pingGroups.closed (u.finish env) :=
      (hgroup.quietly (show Quietly t u from ⟨rfl, rfl, id⟩)).finish
    exact Ready.of_null (hclosed.words.sendReply rfl).finish

/-- The inner loop. -/
lemma Heard.innerLoop (h : Heard s) (model : TString) :
    Ended (s.innerLoop env commands parsedUserJson model) := by
  have hq₁ := quietly_isThreadLoopingYet env s
  have hq₂ := hq₁.trans (quietly_isThreadLoopingYet env _)
  have hq₃ := hq₂.trans (quietly_isThreadLoopingYet env _)
  rw [TThread.innerLoop]
  simp only
  split
  · split
    · -- the future is ready
      rw [TThread.getFuture]
      split
      · exact (h.standing.quietly hq₂).isPartial
      · next aiCommand hprom =>
        have hprom' : s.detectionPromise = some aiCommand := by simpa using hprom
        exact ((h.reported _ hprom').quietly hq₂).handleCommand model aiCommand
    · -- the flag was seen when the future was ready
      exact Ready.of_null (h.standing.quietly hq₃).finish
  · exact Ready.of_null (h.standing.quietly hq₁).finish

/-! ## The session -/

/-- The thread waits for the answer to a request: no text was queued yet. -/
structure Waiting (s : TThread) : Prop where
  standing : Standing pingGroups.closed s
  detector : s.commandDetector.Represents (.initial s.commandDetector.words)
  promise : s.detectionPromise = none

lemma Waiting.listening (h : Waiting s) : Listening s := by
  refine ⟨_, h.detector, h.promise, ?_⟩
  rw [stage]
  split
  · exact h.standing.words
  · exact h.standing

end TThread

open TThread

variable {env : TEnvironment} {commands : TAiCommands} {parsedUserJson request : Json}
variable {s : TThread}

/-- What holds of a session between two chats. -/
def PingsBracketed : TThreadStatus × TThread → Prop
  | (.waiting, s) => Waiting s
  | (.finished, s) => pingGroups.IsPartial s.queue
  | (.escaped _, s) => pingGroups.IsPartial s.queue

lemma TThread.Ready.threadLoop (h : Ready request s) :
    PingsBracketed (threadLoop env commands parsedUserJson [] request s) := by
  have hq := quietly_isThreadLoopingYet env s
  rcases head_cases env parsedUserJson request s with hstop | ⟨hl, hr, ⟨e, hm⟩ | ⟨model, hm⟩⟩
  · rw [threadLoop_of_stop hstop]
    exact ((h.standing.quietly hq).finish.quietly (quietly_disconnectAll _)).isPartial
  · rw [threadLoop_of_error hl hr hm]
    exact (h.standing.quietly hq).isPartial
  · rw [threadLoop_nil hl hr hm]
    obtain ⟨hclosed, hdet⟩ := h.next hr
    have hclosed' := hclosed.quietly hq
    refine ⟨⟨hclosed'.isPartial, fun hf => ⟨rfl, (hclosed'.queue hf).2⟩⟩, ?_, rfl⟩
    have hsame : ((s.isThreadLoopingYet env).beginRound model request).commandDetector
        = s.commandDetector := commandDetector_isThreadLoopingYet
    rw [hsame]
    exact hdet

/-- One more round. -/
lemma PingsBracketed.nextRound {σ : TThreadStatus × TThread} (h : PingsBracketed σ)
    (chat : TChat) : PingsBracketed (nextRound env commands parsedUserJson chat σ) := by
  obtain ⟨status, s⟩ := σ
  cases status with
  | finished => exact h
  | escaped e => exact h
  | waiting =>
    have hs : Waiting s := h
    have hheard : Heard (s.deliver env commands chat.responses) := hs.listening.deliver _
    simp only [OllamaMitm.nextRound]
    split
    · exact hs.standing.isPartial
    · next model hm =>
      have hend : Ended (s.endRound env commands parsedUserJson model chat) := by
        unfold endRound
        simp only
        split
        · exact hheard.standing.isPartial
        · exact hheard.innerLoop model
      generalize s.endRound env commands parsedUserJson model chat = res at hend
      obtain ⟨e | request, t⟩ := res
      · exact hend
      · exact TThread.Ready.threadLoop hend

lemma pingsBracketed_threadedOllama (env : TEnvironment) (commands : TAiCommands)
    (parsedUserJson : Json) (std : LengthSort) (chats : List TChat) :
    PingsBracketed (threadedOllama env commands parsedUserJson std chats) := by
  induction chats using List.reverseRecOn with
  | nil =>
    have hstart : Standing pingGroups.closed { commandDetector := .ofCommands std commands } :=
      ⟨GroupAlphabet.isPartial_of_closed GroupAlphabet.nil_mem_closed,
        fun _ => ⟨rfl, GroupAlphabet.nil_mem_closed⟩⟩
    exact TThread.Ready.threadLoop
      ⟨hstart.words, fun _ => ⟨hstart, CContentRestorator.represents_ofCommands⟩⟩
  | append_singleton chats chat ih =>
    rw [threadedOllama_snoc]
    exact ih.nextRound chat

lemma PingsBracketed.isPartial {σ : TThreadStatus × TThread} (h : PingsBracketed σ) :
    pingGroups.IsPartial σ.2.queue := by
  obtain ⟨status, s⟩ := σ
  cases status with
  | waiting => exact h.standing.isPartial
  | finished => exact h
  | escaped e => exact h

/-- **The pings are bracketed.**  For every session, whatever Ollama answers and whenever the user
leaves, what is queued for the user is a prefix of a word `(W P* F)* R*`: groups of a first ping,
further pings and a finish message, and then only text of replies. -/
theorem isPartial_threadedOllama (env : TEnvironment) (commands : TAiCommands)
    (parsedUserJson : Json) (std : LengthSort) (chats : List TChat) :
    pingGroups.IsPartial (threadedOllama env commands parsedUserJson std chats).2.queue :=
  (pingsBracketed_threadedOllama env commands parsedUserJson std chats).isPartial

/-! ## What bracketing says about single messages -/

/-- Only a reply may be marked as done. -/
lemma isDone_of_isPartial {l : List TUserMessage} (h : pingGroups.IsPartial l) :
    ∀ m ∈ l, m.origin ≠ .reply → m.isDone = false := by
  refine GroupAlphabet.forall_mem_of_isPartial ?_ ?_ ?_ ?_ h
  · exact fun m hm _ => hm.2.2
  · exact fun m hm _ => hm.2.2
  · exact fun m hm _ => hm.2.2
  · exact fun m hm hne => absurd hm hne

/-- While the thread waits, no reply was queued. -/
lemma TThread.Waiting.replies (h : Waiting s) (hs : s.commObject.disconnected = false) :
    s.replies = [] := by
  have hne : ∀ m ∈ s.queue, m.origin ≠ .reply := by
    refine GroupAlphabet.forall_mem_of_closed ?_ ?_ ?_ (h.standing.queue hs).2
    · exact fun m hm => by simp [hm.1]
    · exact fun m hm => by simp [hm.1]
    · exact fun m hm => by simp [hm.1]
  rw [TThread.replies, List.filter_eq_nil_iff]
  intro m hm
  simpa using hne m hm

end OllamaMitm
