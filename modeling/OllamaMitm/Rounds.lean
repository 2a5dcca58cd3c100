import Mathlib.Data.List.Induction
import OllamaMitm.FollowUp

/-!
# The session as a sequence of rounds

The thread function stops for input in one place only: after it has sent a chat request.  So a
session is a transition system whose states are the status and the thread, and in which every chat
makes one transition.  Invariants of sessions are proved over this view: what holds of the thread
when it waits is preserved from one round to the next.
-/

namespace OllamaMitm

/-- The session after one more chat; only a waiting thread takes notice of it. -/
def nextRound (env : TEnvironment) (commands : TAiCommands) (parsedUserJson : Json) (chat : TChat) :
    TThreadStatus × TThread → TThreadStatus × TThread
  | (.waiting, s) =>
    match modelOf parsedUserJson with
    | .error e => (.escaped e, s)
    | .ok model =>
      match s.endRound env commands parsedUserJson model chat with
      | (.error e, s) => (.escaped e, s)
      | (.ok request, s) => threadLoop env commands parsedUserJson [] request s
  | (.finished, s) => (.finished, s)
  | (.escaped e, s) => (.escaped e, s)

variable {env : TEnvironment} {commands : TAiCommands} {parsedUserJson request : Json}
variable {std : LengthSort} {chats : List TChat} {chat : TChat} {s t : TThread}
variable {model : TString} {e : TException}

lemma eq_waiting {σ : TThreadStatus × TThread} (h : σ.1 = .waiting) : σ = (.waiting, σ.2) :=
  Prod.ext h rfl

/-! ## The head of the loop -/

lemma threadLoop_of_stop (h : ¬(s.isThreadLoopingYet env).IsLooping ∨ request.empty = true) :
    threadLoop env commands parsedUserJson chats request s
      = (.finished, ((s.isThreadLoopingYet env).finish env).disconnectAll) := by
  rw [threadLoop.eq_def]
  exact if_pos h

lemma threadLoop_of_error (hl : (s.isThreadLoopingYet env).IsLooping) (hr : request.empty = false)
    (hm : modelOf parsedUserJson = .error e) :
    threadLoop env commands parsedUserJson chats request s
      = (.escaped e, s.isThreadLoopingYet env) := by
  rw [threadLoop.eq_def]
  simp only [hl, hr, not_true_eq_false, Bool.false_eq_true, or_self, if_false, hm]

lemma threadLoop_nil (hl : (s.isThreadLoopingYet env).IsLooping) (hr : request.empty = false)
    (hm : modelOf parsedUserJson = .ok model) :
    threadLoop env commands parsedUserJson [] request s
      = (.waiting, (s.isThreadLoopingYet env).beginRound model request) := by
  rw [threadLoop.eq_def]
  simp only [hl, hr, not_true_eq_false, Bool.false_eq_true, or_self, if_false, hm]

lemma threadLoop_cons (hl : (s.isThreadLoopingYet env).IsLooping) (hr : request.empty = false)
    (hm : modelOf parsedUserJson = .ok model) :
    threadLoop env commands parsedUserJson (chat :: chats) request s
      = match ((s.isThreadLoopingYet env).beginRound model request).endRound env commands
          parsedUserJson model chat with
        | (.error e, s) => (.escaped e, s)
        | (.ok request, s) => threadLoop env commands parsedUserJson chats request s := by
  have hgo : ¬(¬(s.isThreadLoopingYet env).IsLooping ∨ request.empty = true) := by simp [hl, hr]
  rw [threadLoop.eq_def]
  refine (if_neg hgo).trans ?_
  generalize modelOf parsedUserJson = res at hm ⊢
  subst hm
  rfl

/-- The head of the loop stops, fails on the model, or sends the request. -/
lemma head_cases (env : TEnvironment) (parsedUserJson request : Json) (s : TThread) :
    (¬(s.isThreadLoopingYet env).IsLooping ∨ request.empty = true) ∨
    ((s.isThreadLoopingYet env).IsLooping ∧ request.empty = false ∧
      ((∃ e, modelOf parsedUserJson = .error e) ∨
        ∃ model, modelOf parsedUserJson = .ok model)) := by
  by_cases hl : (s.isThreadLoopingYet env).IsLooping
  · cases hr : request.empty with
    | true => exact Or.inl (Or.inr rfl)
    | false =>
      refine Or.inr ⟨hl, rfl, ?_⟩
      cases modelOf parsedUserJson with
      | error e => exact Or.inl ⟨e, rfl⟩
      | ok model => exact Or.inr ⟨model, rfl⟩
  · exact Or.inl (Or.inl hl)

/-! ## One more round -/

lemma threadLoop_snoc : threadLoop env commands parsedUserJson (chats ++ [chat]) request s
    = nextRound env commands parsedUserJson chat
        (threadLoop env commands parsedUserJson chats request s) := by
  induction chats generalizing request s with
  | nil =>
    rcases head_cases env parsedUserJson request s with
      hstop | ⟨hl, hr, ⟨e, hm⟩ | ⟨model, hm⟩⟩
    · rw [threadLoop_of_stop hstop, threadLoop_of_stop hstop]
      rfl
    · rw [threadLoop_of_error hl hr hm, threadLoop_of_error hl hr hm]
      rfl
    · rw [List.nil_append, threadLoop_cons hl hr hm, threadLoop_nil hl hr hm]
      simp only [nextRound, hm]
  | cons c chats ih =>
    rcases head_cases env parsedUserJson request s with
      hstop | ⟨hl, hr, ⟨e, hm⟩ | ⟨model, hm⟩⟩
    · rw [threadLoop_of_stop hstop, threadLoop_of_stop hstop]
      rfl
    · rw [threadLoop_of_error hl hr hm, threadLoop_of_error hl hr hm]
      rfl
    · rw [List.cons_append, threadLoop_cons hl hr hm, threadLoop_cons hl hr hm]
      split
      · rfl
      · exact ih

/-- **Every chat is one transition of the session.** -/
theorem threadedOllama_snoc (env : TEnvironment) (commands : TAiCommands) (parsedUserJson : Json)
    (std : LengthSort) (chats : List TChat) (chat : TChat) :
    threadedOllama env commands parsedUserJson std (chats ++ [chat])
      = nextRound env commands parsedUserJson chat
          (threadedOllama env commands parsedUserJson std chats) := threadLoop_snoc

/-! ## How a round ends -/

namespace TThread

/-- The thread that looks at the future after a chat: it has asked twice whether to go on. -/
def atFuture (env : TEnvironment) (s : TThread) : TThread :=
  (s.isThreadLoopingYet env).isThreadLoopingYet env

@[simp] lemma requests_atFuture : (s.atFuture env).requests = s.requests := by simp [atFuture]

@[simp] lemma followUps_atFuture : (s.atFuture env).followUps = s.followUps := by simp [atFuture]

@[simp] lemma loopDetector_atFuture : (s.atFuture env).loopDetector = s.loopDetector := by
  simp [atFuture]

@[simp] lemma reported_atFuture : (s.atFuture env).reported = s.reported := by simp [atFuture]

@[simp] lemma commandDetector_atFuture :
    (s.atFuture env).commandDetector = s.commandDetector := by simp [atFuture]

@[simp] lemma replies_atFuture : (s.atFuture env).replies = s.replies := by simp [atFuture]

/-- How a round may end, from the chat call on. -/
inductive RoundEnding (env : TEnvironment) (commands : TAiCommands) (parsedUserJson : Json)
    (chat : TChat) (s : TThread) : Except TException Json → TThread → Prop
  /-- The chat throws. -/
  | chatThrows {e : TException} (he : chat.failure = some e) :
      RoundEnding env commands parsedUserJson chat s (.error e)
        (s.deliver env commands chat.responses)
  /-- The promise was destroyed without a value. -/
  | brokenPromise {e : TException} (he : chat.failure = none)
      (hprom : (s.deliver env commands chat.responses).detectionPromise = none)
      (hlooping : ((s.deliver env commands chat.responses).atFuture env).IsLooping) :
      RoundEnding env commands parsedUserJson chat s (.error e)
        ((s.deliver env commands chat.responses).atFuture env)
  /-- The thread has stopped looping. -/
  | stops {t : TThread} (he : chat.failure = none)
      (hlooping : ¬((s.deliver env commands chat.responses).atFuture env).IsLooping)
      (hrequests : t.requests = s.requests) (hfollowUps : t.followUps = s.followUps)
      (hpinging : t.pinging = false)
      (hqueue : (s.deliver env commands chat.responses).pinging = false →
        t.queue = (s.deliver env commands chat.responses).queue) :
      RoundEnding env commands parsedUserJson chat s (.ok .null) t
  /-- A reported command is handled. -/
  | command {detected : TDetected} {res : Except TException Json} {t : TThread}
      (he : chat.failure = none)
      (hprom : (s.deliver env commands chat.responses).detectionPromise = some detected)
      (hlooping : ((s.deliver env commands chat.responses).atFuture env).IsLooping)
      (hend : CommandEnding env commands parsedUserJson detected
        ((s.deliver env commands chat.responses).atFuture env) res t) :
      RoundEnding env commands parsedUserJson chat s res t

/-- The inner loop is left without a command. -/
lemma RoundEnding.of_stopped {u : TThread} (he : chat.failure = none)
    (hlooping : ¬((s.deliver env commands chat.responses).atFuture env).IsLooping)
    (hrequests : u.requests = (s.deliver env commands chat.responses).requests)
    (hfollowUps : u.followUps = (s.deliver env commands chat.responses).followUps)
    (hquiet : Quietly (s.deliver env commands chat.responses) u) :
    RoundEnding env commands parsedUserJson chat s (.ok .null) (u.finish env) := by
  have hbooks := sameBooks_deliver env commands chat.responses s
  have hfin := (onlyTalks_finish env u).sameBooks
  exact .stops he hlooping ((hfin.requests.trans hrequests).trans hbooks.requests)
    ((hfin.followUps.trans hfollowUps).trans hbooks.followUps) (finish_cases env u).1
    fun hping => (queue_finish (hquiet.pinging.trans hping)).trans hquiet.queue

/-- **How a round ends.** -/
theorem roundEnding_endRound (env : TEnvironment) (commands : TAiCommands) (parsedUserJson : Json)
    (s : TThread) (model : TString) (chat : TChat) :
    RoundEnding env commands parsedUserJson chat s
      (s.endRound env commands parsedUserJson model chat).1
      (s.endRound env commands parsedUserJson model chat).2 := by
  unfold endRound
  simp only
  cases hfail : chat.failure with
  | some e => exact .chatThrows hfail
  | none =>
    simp only [innerLoop]
    split
    · split
      · next hlooping =>
        rw [getFuture]
        split
        · next hprom => exact .brokenPromise hfail (by simpa using hprom) hlooping
        · next detected hprom =>
          exact .command hfail (by simpa using hprom) hlooping
            (commandEnding_handleCommand env commands parsedUserJson _ model detected)
      · next hlooping =>
        exact .of_stopped hfail hlooping (by simp) (by simp)
          (((quietly_isThreadLoopingYet env _).trans (quietly_isThreadLoopingYet env _)).trans
            (quietly_isThreadLoopingYet env _))
    · next hlooping =>
      -- a thread that has stopped once stays stopped
      have hlooping' : ¬((s.deliver env commands chat.responses).atFuture env).IsLooping :=
        fun h => hlooping (isLooping_of_isThreadLoopingYet h)
      exact .of_stopped hfail hlooping' (by simp) (by simp) (quietly_isThreadLoopingYet env _)

/-- A round after whose chat the thread goes on looks at the future. -/
lemma endRound_of_looping (parsedUserJson : Json) (model : TString) (hfail : chat.failure = none)
    (hlooping : ((s.deliver env commands chat.responses).atFuture env).IsLooping) :
    s.endRound env commands parsedUserJson model chat
      = ((s.deliver env commands chat.responses).atFuture env).getFuture env commands
          parsedUserJson model := by
  have hfirst := isLooping_of_isThreadLoopingYet hlooping
  unfold endRound
  simp only [hfail, innerLoop, if_pos hfirst]
  exact if_pos hlooping

/-- A round in which a command was reported and the thread goes on. -/
lemma endRound_of_reported {detected : TDetected} (parsedUserJson : Json) (model : TString)
    (hfail : chat.failure = none)
    (hprom : (s.deliver env commands chat.responses).detectionPromise = some detected)
    (hlooping : ((s.deliver env commands chat.responses).atFuture env).IsLooping) :
    s.endRound env commands parsedUserJson model chat = finishInnerLoop env
      (((s.deliver env commands chat.responses).atFuture env).handleCommand env commands
        parsedUserJson model detected) := by
  have hprom' : ((s.deliver env commands chat.responses).atFuture env).detectionPromise
      = some detected := by simpa [atFuture] using hprom
  rw [endRound_of_looping parsedUserJson model hfail hlooping, getFuture, hprom']

/-- A round in which nothing was reported and the thread goes on. -/
lemma endRound_of_broken (parsedUserJson : Json) (model : TString) (hfail : chat.failure = none)
    (hprom : (s.deliver env commands chat.responses).detectionPromise = none)
    (hlooping : ((s.deliver env commands chat.responses).atFuture env).IsLooping) :
    ∃ e t, s.endRound env commands parsedUserJson model chat = (.error e, t) := by
  have hprom' : ((s.deliver env commands chat.responses).atFuture env).detectionPromise = none := by
    simpa [atFuture] using hprom
  rw [endRound_of_looping parsedUserJson model hfail hlooping, getFuture, hprom']
  exact ⟨_, _, rfl⟩

/-! ## From one request to the next -/

/-- The command that is reported in the round in which the chat answers the waiting thread. -/
def commandIn (env : TEnvironment) (commands : TAiCommands) (s : TThread) (chat : TChat) :
    Option TDetected :=
  (s.deliver env commands chat.responses).detectionPromise

/-- The instant at which the round calls the provider of the command that was reported. -/
def providerTime (env : TEnvironment) (commands : TAiCommands) (s : TThread) (chat : TChat) : ℕ :=
  (((s.deliver env commands chat.responses).atFuture env).ping env).commObject.clock

/-- The text with which the backend answers the command of the round. -/
def answerIn (env : TEnvironment) (commands : TAiCommands) (s : TThread) (chat : TChat) :
    Option TString :=
  (s.commandIn env commands chat).bind fun detected =>
    answerAt commands (s.providerTime env commands chat) detected

/-- What a round that ends in the follow-up `f` does to the books. -/
structure RoundStep (env : TEnvironment) (commands : TAiCommands) (parsedUserJson : Json)
    (chat : TChat) (s t : TThread) (f : TFollowUp) : Prop where
  command : ∃ detected, s.commandIn env commands chat = some detected ∧
    f.command = detected.whatDetected
  answer : ∃ text, s.answerIn env commands chat = some text ∧
    makeResponseForOllama parsedUserJson text = .ok f.answer
  request : nextRequest parsedUserJson s f.command f.answer = .ok f.request
  loopDetector : t.loopDetector = s.loopDetector.update f.command
  followUps : t.followUps = s.followUps ++ [f]
  words : t.commandDetector.words = s.commandDetector.words

/-- The answer in the follow-up is one that the backend gives to its command. -/
lemma RoundStep.backendText {f : TFollowUp}
    (h : RoundStep env commands parsedUserJson chat s t f) :
    ∃ detected text, f.command = detected.whatDetected ∧ BackendText commands detected text ∧
      makeResponseForOllama parsedUserJson text = .ok f.answer := by
  obtain ⟨detected, hdetected, hcommand⟩ := h.command
  obtain ⟨text, htext, hanswer⟩ := h.answer
  rw [answerIn, hdetected, Option.bind_some] at htext
  exact ⟨detected, text, hcommand, backendText_of_answerAt htext, hanswer⟩

/-- A round leaves no request and the follow-ups as they were, or it prepares one more. -/
lemma endRound_cases (env : TEnvironment) (commands : TAiCommands) (parsedUserJson : Json)
    (s : TThread) (model : TString) (chat : TChat) :
    let res := s.endRound env commands parsedUserJson model chat
    (res.2.followUps = s.followUps ∧ ∀ request, res.1 = .ok request → request = .null) ∨
      ∃ f, res.1 = .ok f.request ∧ res.2.requests = s.requests ∧
        RoundStep env commands parsedUserJson chat s res.2 f := by
  have hbooks := sameBooks_deliver env commands chat.responses s
  have hend := roundEnding_endRound env commands parsedUserJson s model chat
  rcases hround : s.endRound env commands parsedUserJson model chat with ⟨res, t⟩
  rw [hround] at hend
  have hsame : ((s.deliver env commands chat.responses).atFuture env).followUps = s.followUps :=
    followUps_atFuture.trans hbooks.followUps
  cases hend with
  | chatThrows => exact Or.inl ⟨hbooks.followUps, nofun⟩
  | brokenPromise => exact Or.inl ⟨hsame, nofun⟩
  | stops _ _ _ hfollowUps => exact Or.inl ⟨hfollowUps, fun _ h => (Except.ok.inj h).symm⟩
  | command _ hprom _ hcommand =>
    cases hcommand with
    | throws _ hfollowUps => exact Or.inl ⟨hfollowUps.trans hsame, nofun⟩
    | answers _ _ hfollowUps =>
      exact Or.inl ⟨hfollowUps.trans hsame, fun _ h => (Except.ok.inj h).symm⟩
    | @followsUp _ f hf _ =>
      obtain ⟨text, htext, hanswer⟩ := hf.answer
      have hloop : ((s.deliver env commands chat.responses).atFuture env).loopDetector
          = s.loopDetector := loopDetector_atFuture.trans hbooks.loopDetector
      have hnext := hf.request
      rw [nextRequest, hloop, ← hf.command] at hnext
      have htext' : s.answerIn env commands chat = some text := by
        rw [answerIn, commandIn, hprom, Option.bind_some]
        exact htext
      refine Or.inr ⟨f, rfl, ?_, ⟨_, hprom, hf.command⟩, ⟨text, htext', hanswer⟩, hnext, ?_, ?_, ?_⟩
      · exact hf.requests.trans (requests_atFuture.trans hbooks.requests)
      · rw [hf.loopDetector, hloop, hf.command]
      · rw [hf.followUps, hsame]
      · rw [hf.words, commandDetector_atFuture, hbooks.words]

/-- A round that leaves a request has prepared it as a follow-up. -/
lemma roundStep_endRound (hr : request.empty = false)
    (h : s.endRound env commands parsedUserJson model chat = (.ok request, t)) :
    t.requests = s.requests ∧
      ∃ f, request = f.request ∧ RoundStep env commands parsedUserJson chat s t f := by
  have hcases := endRound_cases env commands parsedUserJson s model chat
  rw [h] at hcases
  rcases hcases with ⟨-, hnull⟩ | ⟨f, hf, hrequests, hstep⟩
  · rw [hnull request rfl] at hr
    exact absurd hr (by decide)
  · exact ⟨hrequests, f, Except.ok.inj hf, hstep⟩

end TThread

open TThread

/-- The thread when it waits for the answer to the first request. -/
structure FirstRequest (commands : TAiCommands) (parsedUserJson : Json) (std : LengthSort)
    (s : TThread) : Prop where
  requests : s.requests = [parsedUserJson]
  followUps : s.followUps = []
  loopDetector : s.loopDetector = {}
  words : s.commandDetector.words = (CContentRestorator.ofCommands std commands).words
  looping : s.IsLooping

/-- A thread that waits at the end of the loop head has just sent the request. -/
lemma waiting_of_threadLoop
    (h : threadLoop env commands parsedUserJson [] request s = (.waiting, t)) :
    request.empty = false ∧ t.IsLooping ∧ t.requests = s.requests ++ [request] ∧
      t.loopDetector = s.loopDetector ∧ t.followUps = s.followUps ∧
      t.commandDetector = s.commandDetector := by
  rcases head_cases env parsedUserJson request s with hstop | ⟨hl, hr, ⟨e, hm⟩ | ⟨model, hm⟩⟩
  · rw [threadLoop_of_stop hstop] at h
    simp at h
  · rw [threadLoop_of_error hl hr hm] at h
    simp at h
  · rw [threadLoop_nil hl hr hm] at h
    obtain rfl := (Prod.mk.inj h).2
    have hlooping : (((s.isThreadLoopingYet env)).beginRound model request).IsLooping := hl
    exact ⟨hr, hlooping, by simp [beginRound, restart], by simp [beginRound, restart],
      by simp [beginRound, restart], by simp [beginRound, restart]⟩

lemma firstRequest_of_waiting
    (h : threadedOllama env commands parsedUserJson std [] = (.waiting, s)) :
    FirstRequest commands parsedUserJson std s := by
  obtain ⟨-, hlooping, hrequests, hloop, hfollowUps, hdet⟩ := waiting_of_threadLoop h
  exact ⟨hrequests, hfollowUps, hloop, by rw [hdet], hlooping⟩

/-- A thread that waits after one more chat waited before, and has prepared and sent a
follow-up. -/
lemma roundStep_of_waiting
    (h : threadedOllama env commands parsedUserJson std (chats ++ [chat]) = (.waiting, t)) :
    ∃ s f, threadedOllama env commands parsedUserJson std chats = (.waiting, s) ∧
      RoundStep env commands parsedUserJson chat s t f ∧ t.requests = s.requests ++ [f.request] ∧
      t.IsLooping := by
  rw [threadedOllama_snoc] at h
  rcases hσ : threadedOllama env commands parsedUserJson std chats with ⟨status, s⟩
  rw [hσ] at h
  cases status with
  | finished => simp [nextRound] at h
  | escaped e => simp [nextRound] at h
  | waiting =>
    simp only [nextRound] at h
    split at h
    · simp at h
    · next model hm =>
      rcases hround : s.endRound env commands parsedUserJson model chat with ⟨e | request, u⟩
      · rw [hround] at h
        simp at h
      · rw [hround] at h
        obtain ⟨hr, hlooping, hrequests, hloop, hfollowUps, hdet⟩ := waiting_of_threadLoop h
        obtain ⟨hsame, f, rfl, hstep⟩ := roundStep_endRound hr hround
        refine ⟨s, f, rfl, ⟨hstep.command, hstep.answer, hstep.request, ?_, ?_, ?_⟩,
          by rw [hrequests, hsame], hlooping⟩
        · rw [hloop, hstep.loopDetector]
        · rw [hfollowUps, hstep.followUps]
        · rw [hdet, hstep.words]

/-- **What holds of a thread that waits follows from the first request and the steps between
requests.** -/
theorem waiting_induction {motive : List TChat → TThread → Prop}
    (hfirst : ∀ s, FirstRequest commands parsedUserJson std s → motive [] s)
    (hstep : ∀ chats chat s t f, motive chats s →
      RoundStep env commands parsedUserJson chat s t f →
      t.requests = s.requests ++ [f.request] → motive (chats ++ [chat]) t)
    (h : threadedOllama env commands parsedUserJson std chats = (.waiting, s)) :
    motive chats s := by
  induction chats using List.reverseRecOn generalizing s with
  | nil => exact hfirst s (firstRequest_of_waiting h)
  | append_singleton chats chat ih =>
    obtain ⟨s₀, f, hs₀, hround, hrequests, -⟩ := roundStep_of_waiting h
    exact hstep chats chat s₀ s f (ih hs₀) hround hrequests

/-- The words a waiting thread looks for are those of the table. -/
lemma words_of_waiting (h : threadedOllama env commands parsedUserJson std chats = (.waiting, s)) :
    s.commandDetector.words = (CContentRestorator.ofCommands std commands).words :=
  waiting_induction (motive := fun _ s => s.commandDetector.words = _)
    (fun _ hs => hs.words) (fun _ _ _ _ _ ih hstep _ => hstep.words.trans ih) h

lemma mem_words_of_waiting
    (h : threadedOllama env commands parsedUserJson std chats = (.waiting, s)) (w : TString) :
    w ∈ s.commandDetector.words ↔ w ∈ commands.keys := by
  rw [words_of_waiting h]
  exact CContentRestorator.mem_words_ofCommands

/-- A waiting thread has seen no flag. -/
lemma isLooping_of_waiting
    (h : threadedOllama env commands parsedUserJson std chats = (.waiting, s)) : s.IsLooping := by
  cases chats using List.reverseRecOn with
  | nil => exact (firstRequest_of_waiting h).looping
  | append_singleton chats chat =>
    obtain ⟨_, _, _, _, _, hlooping⟩ := roundStep_of_waiting h
    exact hlooping

/-! ## The requests and follow-ups of every session -/

/-- A round sends nothing itself. -/
lemma requests_endRound (env : TEnvironment) (commands : TAiCommands) (parsedUserJson : Json)
    (s : TThread) (model : TString) (chat : TChat) :
    (s.endRound env commands parsedUserJson model chat).2.requests = s.requests := by
  have hbooks := sameBooks_deliver env commands chat.responses s
  have hfuture : ((s.deliver env commands chat.responses).atFuture env).requests = s.requests :=
    requests_atFuture.trans hbooks.requests
  have hend := roundEnding_endRound env commands parsedUserJson s model chat
  rcases hround : s.endRound env commands parsedUserJson model chat with ⟨res, t⟩
  rw [hround] at hend
  cases hend with
  | chatThrows => exact hbooks.requests
  | brokenPromise => exact hfuture
  | stops _ _ hrequests => exact hrequests
  | command _ _ _ hcommand =>
    cases hcommand with
    | throws _ _ hrequests => exact hrequests.trans hfuture
    | answers _ _ _ hrequests => exact hrequests.trans hfuture
    | followsUp hf => exact hf.requests.trans hfuture

/-- The head of the loop sends the request, or sends nothing. -/
lemma requests_threadLoop_nil (env : TEnvironment) (commands : TAiCommands)
    (parsedUserJson request : Json) (s : TThread) :
    let t := (threadLoop env commands parsedUserJson [] request s).2
    t.requests = s.requests ∨
      (request.empty = false ∧ t.requests = s.requests ++ [request]) := by
  intro t
  rcases hσ : threadLoop env commands parsedUserJson [] request s with ⟨status, u⟩
  rcases head_cases env parsedUserJson request s with hstop | ⟨hl, hr, ⟨e, hm⟩ | ⟨model, hm⟩⟩
  · have hbooks := (onlyTalks_finish env (s.isThreadLoopingYet env)).trans
      (onlyTalks_disconnectAll _)
    left
    show (threadLoop env commands parsedUserJson [] request s).2.requests = _
    rw [threadLoop_of_stop hstop]
    exact hbooks.sameBooks.requests.trans (by simp)
  · left
    show (threadLoop env commands parsedUserJson [] request s).2.requests = _
    rw [threadLoop_of_error hl hr hm]
    simp
  · refine Or.inr ⟨hr, ?_⟩
    show (threadLoop env commands parsedUserJson [] request s).2.requests = _
    rw [threadLoop_nil hl hr hm]
    simp [beginRound, restart]

/-- The head of the loop prepares no follow-up. -/
lemma followUps_threadLoop_nil (env : TEnvironment) (commands : TAiCommands)
    (parsedUserJson request : Json) (s : TThread) :
    (threadLoop env commands parsedUserJson [] request s).2.followUps = s.followUps := by
  rcases head_cases env parsedUserJson request s with hstop | ⟨hl, hr, ⟨e, hm⟩ | ⟨model, hm⟩⟩
  · have hbooks := (onlyTalks_finish env (s.isThreadLoopingYet env)).trans
      (onlyTalks_disconnectAll _)
    rw [threadLoop_of_stop hstop]
    exact hbooks.sameBooks.followUps.trans (by simp)
  · rw [threadLoop_of_error hl hr hm]
    simp
  · rw [threadLoop_nil hl hr hm]
    simp [beginRound, restart]

/-- **What holds of the loop detector and the follow-ups** after every round that prepares one holds
of the follow-ups of every session, also of one that has ended, by an exception or without. -/
theorem followUps_induction (env : TEnvironment) (std : LengthSort)
    {motive : CAiLoopDetector → List TFollowUp → Prop} (hfirst : motive {} [])
    (hstep : ∀ chat s t f, motive s.loopDetector s.followUps →
      RoundStep env commands parsedUserJson chat s t f → motive t.loopDetector t.followUps)
    (chats : List TChat) :
    ∃ detector, motive detector
      (threadedOllama env commands parsedUserJson std chats).2.followUps := by
  induction chats using List.reverseRecOn with
  | nil =>
    refine ⟨{}, ?_⟩
    rw [threadedOllama, followUps_threadLoop_nil]
    exact hfirst
  | append_singleton chats chat ih =>
    rw [threadedOllama_snoc]
    rcases hσ : threadedOllama env commands parsedUserJson std chats with ⟨status, s⟩
    rw [hσ] at ih
    cases status with
    | finished => exact ih
    | escaped e => exact ih
    | waiting =>
      have hs : motive s.loopDetector s.followUps := by
        refine waiting_induction (motive := fun _ s => motive s.loopDetector s.followUps) ?_ ?_ hσ
        · intro s hs
          rw [hs.loopDetector, hs.followUps]
          exact hfirst
        · exact fun _ chat s t f ih hround _ => hstep chat s t f ih hround
      simp only [nextRound]
      split
      · exact ⟨_, hs⟩
      · next model hm =>
        have hcases := endRound_cases env commands parsedUserJson s model chat
        rcases hround : s.endRound env commands parsedUserJson model chat with ⟨e | request, u⟩
        · rw [hround] at hcases
          rcases hcases with ⟨hsame, -⟩ | ⟨f, hf, -⟩
          · exact ⟨s.loopDetector, hsame ▸ hs⟩
          · cases hf
        · rw [hround] at hcases
          simp only [followUps_threadLoop_nil]
          rcases hcases with ⟨hsame, -⟩ | ⟨f, -, -, hnext⟩
          · exact ⟨s.loopDetector, hsame ▸ hs⟩
          · exact ⟨u.loopDetector, hstep chat s u f hs hnext⟩

end OllamaMitm
