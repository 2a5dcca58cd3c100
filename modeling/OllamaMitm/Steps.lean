import OllamaMitm.Detector
import OllamaMitm.Session

/-!
# What the steps of the thread change

Most steps of the session thread only talk: they read the flags, send to the user and use the
pings, and leave the detectors, the promise and the records alone.  Some of them do not even queue
a message.  The two relations of this file say so, and the lemmas below prove it once for every
step.
-/

namespace OllamaMitm

namespace TThread

variable {env : TEnvironment} {commands : TAiCommands} {s s' t u : TThread}
variable {r : TOllamaResponse}

/-- The messages queued for the user so far. -/
def queue (s : TThread) : List TUserMessage := s.commObject.ollamaToUser

/-- The ping generator has been used since the last restart. -/
def pinging (s : TThread) : Bool := s.pingGen.ping.any fun gen => gen.once

/-! ## Steps that queue nothing -/

/-- The thread goes on without queueing a message or touching the pings. -/
structure Quietly (s s' : TThread) : Prop where
  queue : s'.queue = s.queue
  pingGen : s'.pingGen = s.pingGen
  flag : s'.commObject.disconnected = false → s.commObject.disconnected = false

namespace Quietly

lemma refl (s : TThread) : Quietly s s := ⟨rfl, rfl, id⟩

lemma trans {s₁ s₂ s₃ : TThread} (h : Quietly s₁ s₂) (h' : Quietly s₂ s₃) : Quietly s₁ s₃ :=
  ⟨h'.queue.trans h.queue, h'.pingGen.trans h.pingGen, fun hf => h.flag (h'.flag hf)⟩

lemma pinging (h : Quietly s s') : s'.pinging = s.pinging := by
  rw [TThread.pinging, h.pingGen, TThread.pinging]

end Quietly

lemma quietly_isDisconnected (env : TEnvironment) (s : TThread) :
    Quietly s (s.isDisconnected env) :=
  ⟨rfl, rfl, fun h => (Bool.or_eq_false_iff.1 h).1⟩

lemma quietly_disconnectAll (s : TThread) : Quietly s s.disconnectAll :=
  ⟨rfl, rfl, fun h => absurd h (by simp [disconnectAll, TCommObject.disconnectAll])⟩

lemma quietly_isThreadLoopingYet (env : TEnvironment) (s : TThread) :
    Quietly s (s.isThreadLoopingYet env) := by
  have hstop : Quietly s (s.readShouldStop env) := ⟨rfl, rfl, id⟩
  by_cases h : (s.readShouldStop env).shouldStop = true
  · simpa [isThreadLoopingYet, h] using hstop
  · simpa [isThreadLoopingYet, h] using hstop.trans (quietly_isDisconnected env _)

lemma quietly_updateDetector (commands : TAiCommands) (s : TThread) (r : TOllamaResponse) :
    Quietly s (s.updateDetector commands r) := ⟨rfl, rfl, id⟩

lemma quietly_respondToUserAndOllama (env : TEnvironment) (s : TThread)
    (status : EReadingBehahve) : Quietly s (s.respondToUserAndOllama env status).2 := by
  cases status with
  | ollamaHasMore => exact quietly_isDisconnected env s
  | ollamaSentAll => exact quietly_disconnectAll s
  | communicationFailure => exact quietly_disconnectAll s

/-! ## Steps that only talk -/

/-- The thread talks to the user and to the pings, and nothing else changes. -/
def OnlyTalks (s s' : TThread) : Prop :=
  ∃ gen comm, s' = { s with pingGen := gen, commObject := comm }

namespace OnlyTalks

lemma refl (s : TThread) : OnlyTalks s s := ⟨s.pingGen, s.commObject, rfl⟩

lemma trans {s₁ s₂ s₃ : TThread} (h : OnlyTalks s₁ s₂) (h' : OnlyTalks s₂ s₃) :
    OnlyTalks s₁ s₃ := by
  obtain ⟨gen, comm, rfl⟩ := h
  obtain ⟨gen', comm', rfl⟩ := h'
  exact ⟨gen', comm', rfl⟩

lemma commandDetector (h : OnlyTalks s s') : s'.commandDetector = s.commandDetector := by
  obtain ⟨gen, comm, rfl⟩ := h
  rfl

lemma detectionPromise (h : OnlyTalks s s') : s'.detectionPromise = s.detectionPromise := by
  obtain ⟨gen, comm, rfl⟩ := h
  rfl

end OnlyTalks

lemma onlyTalks_isDisconnected (env : TEnvironment) (s : TThread) :
    OnlyTalks s (s.isDisconnected env) := ⟨_, _, rfl⟩

lemma onlyTalks_sendToUser (env : TEnvironment) (s : TThread) (what : Option TUserMessage) :
    OnlyTalks s (s.sendToUser env what) := ⟨_, _, rfl⟩

lemma onlyTalks_disconnectAll (s : TThread) : OnlyTalks s s.disconnectAll := ⟨_, _, rfl⟩

lemma onlyTalks_ping (env : TEnvironment) (s : TThread) : OnlyTalks s (s.ping env) := by
  unfold ping
  split
  · exact OnlyTalks.refl s
  · exact ⟨_, _, rfl⟩

lemma onlyTalks_finish (env : TEnvironment) (s : TThread) : OnlyTalks s (s.finish env) := by
  rw [finish]
  split
  · exact OnlyTalks.refl s
  · exact ⟨_, _, rfl⟩

lemma onlyTalks_respondToUserAndOllama (env : TEnvironment) (s : TThread)
    (status : EReadingBehahve) : OnlyTalks s (s.respondToUserAndOllama env status).2 := by
  cases status with
  | ollamaHasMore => exact onlyTalks_isDisconnected env s
  | ollamaSentAll => exact onlyTalks_disconnectAll s
  | communicationFailure => exact onlyTalks_disconnectAll s

lemma onlyTalks_sendPlainTextToUser (env : TEnvironment) (s : TThread) (r : TOllamaResponse)
    (plain : TString) : OnlyTalks s (s.sendPlainTextToUser env r plain).2 := by
  rw [sendPlainTextToUser]
  split
  · exact onlyTalks_finish env s
  · exact ((onlyTalks_finish env s).trans (onlyTalks_sendToUser env _ _)).trans
      (onlyTalks_isDisconnected env _)

lemma onlyTalks_concludeResponse (env : TEnvironment) (status : EReadingBehahve)
    (res : Except TException Bool × TThread) :
    OnlyTalks res.2 (concludeResponse env status res).2 := by
  obtain ⟨e | b, t⟩ := res
  · exact onlyTalks_respondToUserAndOllama env t _
  · cases b with
    | true => exact onlyTalks_respondToUserAndOllama env t _
    | false => exact OnlyTalks.refl t

/-- A visitor that reports no command only talks. -/
lemma onlyTalks_visitDecision (env : TEnvironment) (s : TThread) (r : TOllamaResponse)
    {decision : TDecision} (h : ∀ detected, decision ≠ .detected detected) :
    OnlyTalks s (s.visitDecision env r decision).2 := by
  cases decision with
  | alreadyDetected status =>
    exact (onlyTalks_sendToUser env s _).trans (onlyTalks_isDisconnected env _)
  | needMoreData status plain =>
    by_cases hstatus : status = .ollamaSentAll
    · simp only [visitDecision, hstatus, if_true]
      exact onlyTalks_sendPlainTextToUser env s r plain
    · simp only [visitDecision, hstatus, if_false]
      exact onlyTalks_isDisconnected env s
  | passToUser status plain => exact onlyTalks_sendPlainTextToUser env s r plain
  | detected detected => exact absurd rfl (h detected)

/-- Asking whether to go on changes the flags only. -/
lemma isThreadLoopingYet_eq (env : TEnvironment) (s : TThread) :
    ∃ comm stop, s.isThreadLoopingYet env = { s with commObject := comm, shouldStop := stop } := by
  by_cases h : (s.readShouldStop env).shouldStop = true
  · exact ⟨_, _, by simp only [isThreadLoopingYet, h, if_true]; rfl⟩
  · exact ⟨_, _, by simp only [isThreadLoopingYet, h]; rfl⟩

@[simp] lemma commandDetector_isThreadLoopingYet :
    (s.isThreadLoopingYet env).commandDetector = s.commandDetector := by
  obtain ⟨comm, stop, h⟩ := isThreadLoopingYet_eq env s
  rw [h]

@[simp] lemma requests_isThreadLoopingYet :
    (s.isThreadLoopingYet env).requests = s.requests := by
  obtain ⟨comm, stop, h⟩ := isThreadLoopingYet_eq env s
  rw [h]

@[simp] lemma reported_isThreadLoopingYet :
    (s.isThreadLoopingYet env).reported = s.reported := by
  obtain ⟨comm, stop, h⟩ := isThreadLoopingYet_eq env s
  rw [h]

@[simp] lemma followUps_isThreadLoopingYet :
    (s.isThreadLoopingYet env).followUps = s.followUps := by
  obtain ⟨comm, stop, h⟩ := isThreadLoopingYet_eq env s
  rw [h]

@[simp] lemma loopDetector_isThreadLoopingYet :
    (s.isThreadLoopingYet env).loopDetector = s.loopDetector := by
  obtain ⟨comm, stop, h⟩ := isThreadLoopingYet_eq env s
  rw [h]

@[simp] lemma detectionPromise_isThreadLoopingYet :
    (s.isThreadLoopingYet env).detectionPromise = s.detectionPromise := by
  obtain ⟨comm, stop, h⟩ := isThreadLoopingYet_eq env s
  rw [h]

/-- A thread that goes on had not stopped before. -/
lemma isLooping_of_isThreadLoopingYet (h : (s.isThreadLoopingYet env).IsLooping) :
    s.IsLooping := by
  refine ⟨?_, (quietly_isThreadLoopingYet env s).flag h.2⟩
  have hstop : (s.readShouldStop env).shouldStop = false := by
    by_cases hs : (s.readShouldStop env).shouldStop = true
    · have := h.1
      simp only [isThreadLoopingYet, hs, if_true] at this
      exact absurd this (by simp)
    · simpa using hs
  exact (Bool.or_eq_false_iff.1 hstop).1

/-! ## Steps that leave the books alone -/

/-- The thread did not prepare or send requests, and looks for the same words. -/
structure SameBooks (s t : TThread) : Prop where
  requests : t.requests = s.requests
  followUps : t.followUps = s.followUps
  loopDetector : t.loopDetector = s.loopDetector
  shouldStop : t.shouldStop = s.shouldStop
  words : t.commandDetector.words = s.commandDetector.words

lemma SameBooks.refl (s : TThread) : SameBooks s s := ⟨rfl, rfl, rfl, rfl, rfl⟩

lemma SameBooks.trans (h : SameBooks s t) (h' : SameBooks t u) : SameBooks s u :=
  ⟨h'.requests.trans h.requests, h'.followUps.trans h.followUps,
    h'.loopDetector.trans h.loopDetector, h'.shouldStop.trans h.shouldStop,
    h'.words.trans h.words⟩

lemma OnlyTalks.sameBooks (h : OnlyTalks s t) : SameBooks s t := by
  obtain ⟨gen, comm, rfl⟩ := h
  exact ⟨rfl, rfl, rfl, rfl, rfl⟩

lemma sameBooks_updateDetector (commands : TAiCommands) (s : TThread) (r : TOllamaResponse) :
    SameBooks s (s.updateDetector commands r) :=
  ⟨rfl, rfl, rfl, rfl, CContentRestorator.words_update⟩

lemma sameBooks_setValue (s : TThread) (detected : TDetected) :
    SameBooks s (s.setValue detected).2 := by
  rw [setValue]
  split
  · exact SameBooks.refl s
  · exact ⟨rfl, rfl, rfl, rfl, rfl⟩

lemma sameBooks_visitDecision (env : TEnvironment) (s : TThread) (r : TOllamaResponse)
    (decision : TDecision) : SameBooks s (s.visitDecision env r decision).2 := by
  cases decision with
  | detected detected => exact sameBooks_setValue s detected
  | alreadyDetected | needMoreData | passToUser =>
    exact (onlyTalks_visitDecision env s r (by simp)).sameBooks

/-- The callback leaves the books alone. -/
lemma sameBooks_ollamaResponseHandler (env : TEnvironment) (commands : TAiCommands) (s : TThread)
    (r : TOllamaResponse) : SameBooks s (s.ollamaResponseHandler env commands r).2 := by
  have hread := (onlyTalks_isDisconnected env s).sameBooks
  have hupdate := hread.trans (sameBooks_updateDetector commands _ r)
  rw [ollamaResponseHandler]
  simp only
  split
  · exact hread
  · split
    · exact hupdate.trans (onlyTalks_respondToUserAndOllama env _ _).sameBooks
    · exact hupdate.trans (onlyTalks_respondToUserAndOllama env _ _).sameBooks
    · exact (hupdate.trans (sameBooks_visitDecision env _ r _)).trans
        (onlyTalks_concludeResponse env _ _).sameBooks

lemma sameBooks_deliver (env : TEnvironment) (commands : TAiCommands) (rs : List TOllamaResponse)
    (s : TThread) : SameBooks s (deliver env commands rs s) := by
  induction rs generalizing s with
  | nil => exact SameBooks.refl s
  | cons r rs ih =>
    have hr := sameBooks_ollamaResponseHandler env commands s r
    rw [deliver]
    split
    · next t ht =>
      rw [ht] at hr
      exact hr.trans (ih t)
    · next t ht =>
      rw [ht] at hr
      exact hr

/-! ## Sending -/

/-- A message is queued, unless the flag was seen. -/
lemma sendToUser_cases (env : TEnvironment) (s : TThread) (m : TUserMessage) :
    ((s.sendToUser env (some m)).queue = s.queue ∧
      (s.sendToUser env (some m)).commObject.disconnected = true) ∨
    ((s.sendToUser env (some m)).queue = s.queue ++ [m] ∧ s.commObject.disconnected = false) := by
  cases hd : (s.commObject.isDisconnected env).disconnected with
  | true =>
    refine Or.inl ?_
    simp only [queue, sendToUser, TCommObject.sendToUser, hd, if_true, and_true]
    rfl
  | false =>
    refine Or.inr ⟨?_, (Bool.or_eq_false_iff.1 hd).1⟩
    simp only [queue, sendToUser, TCommObject.sendToUser, hd, Bool.false_eq_true, if_false]
    rfl

/-- `Finish` queues a finish message only if the generator was used. -/
lemma finish_cases (env : TEnvironment) (s : TThread) :
    (s.finish env).pinging = false ∧
    (((s.finish env).queue = s.queue ∧ ((s.finish env).commObject.disconnected = false →
        s.commObject.disconnected = false ∧ s.pinging = false)) ∨
      ∃ m, m.origin = .finish ∧ m.content = CUserPingGenerator.kFinishMessage ∧
        m.isDone = false ∧ (s.finish env).queue = s.queue ++ [m] ∧
        s.commObject.disconnected = false ∧ s.pinging = true) := by
  rw [finish]
  cases hgen : s.pingGen.ping with
  | none =>
    have hping : s.pinging = false := by rw [pinging, hgen, Option.any_none]
    exact ⟨hping, Or.inl ⟨rfl, fun hf => ⟨hf, hping⟩⟩⟩
  | some gen =>
    have hping : s.pinging = gen.once := by rw [pinging, hgen, Option.any_some]
    refine ⟨rfl, ?_⟩
    cases honce : gen.once with
    | false =>
      simp only [CUserPingGenerator.finishPingsIfAny, honce, Bool.false_eq_true, if_false]
      exact Or.inl ⟨rfl, fun hf => ⟨(Bool.or_eq_false_iff.1 hf).1, hping.trans honce⟩⟩
    | true =>
      simp only [CUserPingGenerator.finishPingsIfAny, honce, if_true]
      set msg : TUserMessage := ⟨.finish, buildJsStringForUser (env.utcTime s.commObject.clock)
        gen.model CUserPingGenerator.kFinishMessage⟩ with hmsg
      rcases sendToUser_cases env s msg with ⟨hq, hd⟩ | ⟨hq, hf⟩
      · exact Or.inl ⟨hq, fun hf => absurd (hd.symm.trans hf) (by decide)⟩
      · exact Or.inr ⟨msg, rfl, by simp [hmsg], by simp [hmsg], hq, hf, hping.trans honce⟩

/-- Where no ping was sent, there is nothing to finish. -/
lemma queue_finish (h : s.pinging = false) : (s.finish env).queue = s.queue := by
  obtain ⟨-, ⟨hq, -⟩ | ⟨m, -, -, -, -, -, hping⟩⟩ := finish_cases env s
  · exact hq
  · exact absurd (hping.symm.trans h) (by decide)

/-! ## A connected user -/

/-- Nobody but the thread itself sets the flag. -/
lemma disconnected_sendToUser (henv : env.Connected) (what : Option TUserMessage) :
    (s.sendToUser env what).commObject.disconnected = s.commObject.disconnected := by
  cases what with
  | none => simp [sendToUser, TCommObject.sendToUser, TCommObject.isDisconnected, henv.user]
  | some m =>
    simp only [sendToUser, TCommObject.sendToUser, TCommObject.isDisconnected, henv.user,
      Bool.or_false]
    split <;> rfl

/-- What is sent to a connected user is queued. -/
lemma queue_sendToUser (henv : env.Connected) (hs : s.commObject.disconnected = false)
    (m : TUserMessage) : (s.sendToUser env (some m)).queue = s.queue ++ [m] := by
  simp [queue, sendToUser, TCommObject.sendToUser, TCommObject.isDisconnected, henv.user, hs]

lemma isLooping_isThreadLoopingYet (henv : env.Connected) (hs : s.IsLooping) :
    (s.isThreadLoopingYet env).IsLooping := by
  have hstop : (s.readShouldStop env).shouldStop = false := by
    simp [readShouldStop, henv.stop, hs.1]
  constructor
  · simp only [isThreadLoopingYet, hstop, Bool.false_eq_true, if_false]
    exact hstop
  · simp only [isThreadLoopingYet, hstop, Bool.false_eq_true, if_false]
    simp [isDisconnected, TCommObject.isDisconnected, henv.user, readShouldStop, hs.2]

lemma disconnected_ping (henv : env.Connected) :
    (s.ping env).commObject.disconnected = s.commObject.disconnected := by
  rw [ping]
  split
  · rfl
  · exact disconnected_sendToUser henv _

lemma disconnected_finish (henv : env.Connected) :
    (s.finish env).commObject.disconnected = s.commObject.disconnected := by
  rw [finish]
  split
  · rfl
  · exact disconnected_sendToUser henv _

/-! ## Replies -/

/-- The queued messages that carry text of replies. -/
def replies (s : TThread) : List TUserMessage := s.queue.filter fun m => m.origin = .reply

lemma replies_of_queue_eq (hq : t.queue = s.queue) : t.replies = s.replies := by
  rw [replies, hq, replies]

/-- Messages of the ping generator are not replies. -/
lemma replies_sendToUser_of_ne {m : TUserMessage} (hm : m.origin ≠ .reply) :
    (s.sendToUser env (some m)).replies = s.replies := by
  rcases sendToUser_cases env s m with ⟨hq, -⟩ | ⟨hq, -⟩
  · exact replies_of_queue_eq hq
  · rw [replies, hq, replies]
    simp [hm]

@[simp] lemma replies_ping : (s.ping env).replies = s.replies := by
  rw [ping]
  split
  · rfl
  · exact replies_sendToUser_of_ne (by simp [CUserPingGenerator.generatePingResponse])

@[simp] lemma replies_isThreadLoopingYet : (s.isThreadLoopingYet env).replies = s.replies :=
  replies_of_queue_eq (quietly_isThreadLoopingYet env s).queue

@[simp] lemma replies_finish : (s.finish env).replies = s.replies := by
  obtain ⟨-, ⟨hq, -⟩ | ⟨m, hm, -, -, hq, -, -⟩⟩ := finish_cases env s
  · exact replies_of_queue_eq hq
  · rw [replies, hq, replies]
    simp [hm]

/-- A reply that is sent to a connected user is queued. -/
lemma replies_sendToUser (henv : env.Connected) (hs : s.commObject.disconnected = false)
    {m : TUserMessage} (hm : m.origin = .reply) :
    (s.sendToUser env (some m)).replies = s.replies ++ [m] := by
  rw [replies, queue_sendToUser henv hs, replies]
  simp [hm]

end TThread

end OllamaMitm
