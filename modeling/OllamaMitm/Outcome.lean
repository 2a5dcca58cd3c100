import OllamaMitm.Bracketing
import OllamaMitm.Reading
import OllamaMitm.UserRequest

/-!
# The outcome of a round while the user stays

A waiting thread that receives a whole reply either ends, with an answer for the user, or waits
again, with one more request sent.
-/

namespace OllamaMitm

open Lib TThread

variable {env : TEnvironment} {commands : TAiCommands} {user : TUserRequest} {std : LengthSort}
variable {chats : List TChat} {chat : TChat} {s t : TThread} {rs : List TOllamaResponse}
variable {T : TString} {detected : TDetected}

/-- A waiting thread reads from the initial phase of the detector. -/
lemma reads_of_waiting
    (h : threadedOllama env commands user.parsedUserJson std chats = (.waiting, s)) :
    Reads s ∧ s.commandDetector.Represents (.initial s.commandDetector.words) ∧
      s.replies = [] := by
  have hinv := pingsBracketed_threadedOllama env commands user.parsedUserJson std chats
  rw [h] at hinv
  have hs : Waiting s := hinv
  have hflag := (isLooping_of_waiting h).2
  exact ⟨⟨hflag, (hs.standing.queue hflag).1, hs.promise⟩, hs.detector, hs.replies hflag⟩

lemma pingGen_of_threadLoop {request : Json}
    (h : threadLoop env commands user.parsedUserJson [] request s = (.waiting, t)) :
    t.pingGen = ⟨some { model := user.model }⟩ := by
  rcases head_cases env user.parsedUserJson request s with hstop | ⟨hl, hr, ⟨e, hm⟩ | ⟨model, hm⟩⟩
  · rw [threadLoop_of_stop hstop] at h
    cases h
  · rw [threadLoop_of_error hl hr hm] at h
    cases h
  · rw [threadLoop_nil hl hr hm] at h
    obtain rfl : user.model = model := Except.ok.inj (user.modelOf_parsedUserJson.symm.trans hm)
    rw [← (Prod.mk.inj h).2]
    rfl

/-- The pings of a waiting thread have just been restarted. -/
lemma pingGen_of_waiting
    (h : threadedOllama env commands user.parsedUserJson std chats = (.waiting, s)) :
    s.pingGen = ⟨some { model := user.model }⟩ := by
  cases chats using List.reverseRecOn with
  | nil => exact pingGen_of_threadLoop h
  | append_singleton chats chat =>
    rw [threadedOllama_snoc] at h
    rcases hσ : threadedOllama env commands user.parsedUserJson std chats with ⟨_ | _ | e, u⟩
    · rw [hσ, nextRound, user.modelOf_parsedUserJson] at h
      simp only at h
      split at h
      · cases h
      · exact pingGen_of_threadLoop h
    · rw [hσ] at h
      cases h
    · rw [hσ] at h
      cases h

/-- The replies in the queue are those queued since the thread waited. -/
lemma replies_of_queue {ms : List TUserMessage} (hq : t.queue = s.queue ++ ms)
    (hs : s.replies = []) (hms : ∀ m ∈ ms, m.origin = .reply) : t.replies = ms := by
  rw [replies, hq, List.filter_append]
  rw [replies] at hs
  rw [hs, List.nil_append, List.filter_eq_self]
  intro m hm
  simp [hms m hm]

/-- A waiting thread that reads a whole reply. -/
lemma ending_of_waiting (henv : env.Connected)
    (hs : threadedOllama env commands user.parsedUserJson std chats = (.waiting, s))
    (hrs : IsReply T rs) :
    let W := s.commandDetector.words
    let d := s.deliver env commands rs
    d.pinging = false ∧
      ((W = [] ∧ d.queue = s.queue ++ rs.map passOn ∧ d.commObject.disconnected = true) ∨
        (W ≠ [] ∧ ReadEnding commands W s [] rs d)) := by
  obtain ⟨hreads, hdet, -⟩ := reads_of_waiting hs
  intro W d
  by_cases hW : W = []
  · rw [Phase.initial, if_pos hW] at hdet
    obtain ⟨hping, hqueue, hflag⟩ := deliver_decided henv hrs hreads hdet
    exact ⟨hping, Or.inl ⟨hW, hqueue, hflag⟩⟩
  · rw [Phase.initial, if_neg hW] at hdet
    obtain ⟨hping, hend⟩ := deliver_reply henv hrs hreads hdet undecided_nil
    exact ⟨hping, Or.inr ⟨hW, hend⟩⟩

/-! ## The end of the round -/

/-- Without a request the loop ends. -/
lemma threadLoop_null (s : TThread) :
    ∃ t, threadLoop env commands user.parsedUserJson [] .null s = (.finished, t) ∧
      t.requests = s.requests ∧ t.followUps = s.followUps ∧ t.replies = s.replies ∧
      (s.pinging = false → t.queue = s.queue) := by
  have hq := quietly_isThreadLoopingYet env s
  have hbooks := (onlyTalks_finish env (s.isThreadLoopingYet env)).sameBooks
  refine ⟨_, threadLoop_of_stop (Or.inr rfl), ?_, ?_, ?_, fun hping => ?_⟩
  · exact hbooks.requests.trans (by simp)
  · exact hbooks.followUps.trans (by simp)
  · exact replies_finish.trans (by simp)
  · exact (queue_finish (hq.pinging.trans hping)).trans hq.queue

/-- A round in which the thread itself has ended the connection. -/
lemma nextRound_of_left (user : TUserRequest) (chat : TChat) (hfail : chat.failure = none)
    (hping : (s.deliver env commands chat.responses).pinging = false)
    (hflag : (s.deliver env commands chat.responses).commObject.disconnected = true) :
    ∃ t, nextRound env commands user.parsedUserJson chat (.waiting, s) = (.finished, t) ∧
      t.queue = (s.deliver env commands chat.responses).queue ∧ t.requests = s.requests ∧
      t.followUps = s.followUps := by
  have hend := roundEnding_endRound env commands user.parsedUserJson s user.model chat
  have hno : ¬((s.deliver env commands chat.responses).atFuture env).IsLooping := by
    intro hloop
    have := (isLooping_of_isThreadLoopingYet (isLooping_of_isThreadLoopingYet hloop)).2
    exact absurd (hflag.symm.trans this) (by decide)
  simp only [nextRound, user.modelOf_parsedUserJson]
  rcases hround : s.endRound env commands user.parsedUserJson user.model chat with ⟨res, u⟩
  rw [hround] at hend
  cases hend with
  | chatThrows he => exact absurd (hfail.symm.trans he) (by simp)
  | brokenPromise _ _ hlooping => exact absurd hlooping hno
  | command _ _ hlooping _ => exact absurd hlooping hno
  | stops _ _ hrequests hfollowUps hpinging hqueue =>
    obtain ⟨t, ht, hr, hf, -, hq⟩ := threadLoop_null u
    exact ⟨t, ht, (hq hpinging).trans (hqueue hping), hr.trans hrequests, hf.trans hfollowUps⟩

/-- How a round may go on after a command was reported, when the thread is `d` after the chat. -/
inductive CommandOutcome (commands : TAiCommands) (user : TUserRequest) (detected : TDetected)
    (s d : TThread) : TThreadStatus → TThread → Prop
  /-- The provider throws. -/
  | throws {cmd : TAiCommand} {now : ℕ} {e : TException} {t : TThread}
      (hcmd : commands.find? detected.whatDetected = some cmd)
      (he : cmd.resultProvider now detected.whatDetected detected.collectedString = .error e)
      (hreplies : t.replies = d.replies) :
      CommandOutcome commands user detected s d (.escaped e) t
  /-- The session ends with an answer. -/
  | answers {cmd : TAiCommand} {now : ℕ} {x : TString} {m : TUserMessage} {t : TThread}
      (hcmd : commands.find? detected.whatDetected = some cmd)
      (hx : cmd.resultProvider now detected.whatDetected detected.collectedString
        = .ok (.thatWasResponseToUser x))
      (hcontent : m.content = x) (hdone : m.isDone = false)
      (hreplies : t.replies = d.replies ++ [m])
      (hrequests : t.requests = s.requests) (hfollowUps : t.followUps = s.followUps) :
      CommandOutcome commands user detected s d .finished t
  /-- A follow-up request is sent. -/
  | followsUp {f : TFollowUp} {t : TThread} (hcommand : f.command = detected.whatDetected)
      (hanswer : ∃ text, BackendText commands detected text ∧
        makeResponseForOllama user.parsedUserJson text = .ok f.answer)
      (hrequests : t.requests = s.requests ++ [f.request])
      (hfollowUps : t.followUps = s.followUps ++ [f]) (hreported : t.reported = d.reported)
      (hreplies : t.replies = d.replies) :
      CommandOutcome commands user detected s d .waiting t

/-- A prepared request is sent. -/
lemma threadLoop_request (user : TUserRequest) (henv : env.Connected) {request : Json}
    (hs : s.IsLooping) (hr : request.empty = false) :
    ∃ t, threadLoop env commands user.parsedUserJson [] request s = (.waiting, t) ∧
      t.requests = s.requests ++ [request] ∧ t.followUps = s.followUps ∧
      t.reported = s.reported ∧ t.replies = s.replies := by
  refine ⟨_, threadLoop_nil (isLooping_isThreadLoopingYet henv hs) hr user.modelOf_parsedUserJson,
    ?_, ?_, ?_, ?_⟩
  · simp [beginRound, restart]
  · simp [beginRound, restart]
  · simp [beginRound, restart]
  · exact replies_isThreadLoopingYet

/-- The follow-up request is never empty. -/
lemma TThread.FollowsUp.not_empty {f : TFollowUp}
    (h : FollowsUp env commands user.parsedUserJson detected s t f) : f.request.empty = false := by
  obtain ⟨text, -, hanswer⟩ := h.answer
  have hrequest := h.request
  rw [nextRequest] at hrequest
  split at hrequest
  · exact TUserRequest.not_empty_of_makeResponseForOllama hrequest
  · rw [← Except.ok.inj hrequest]
    exact TUserRequest.not_empty_of_makeResponseForOllama hanswer

/-- A round in which a command was reported. -/
lemma nextRound_of_reported (user : TUserRequest) (chat : TChat) (henv : env.Connected)
    (hs : s.IsLooping) (hfail : chat.failure = none)
    (hflag : (s.deliver env commands chat.responses).commObject.disconnected = false)
    (hprom : (s.deliver env commands chat.responses).detectionPromise = some detected) :
    ∃ status t, nextRound env commands user.parsedUserJson chat (.waiting, s) = (status, t) ∧
      CommandOutcome commands user detected s (s.deliver env commands chat.responses) status t := by
  have hbooks := sameBooks_deliver env commands chat.responses s
  have hend := roundEnding_endRound env commands user.parsedUserJson s user.model chat
  set d := s.deliver env commands chat.responses with hd
  have hloop : (d.atFuture env).IsLooping :=
    isLooping_isThreadLoopingYet henv (isLooping_isThreadLoopingYet henv
      ⟨hbooks.shouldStop.trans hs.1, hflag⟩)
  simp only [nextRound, user.modelOf_parsedUserJson]
  rcases hround : s.endRound env commands user.parsedUserJson user.model chat with ⟨res, u⟩
  rw [hround] at hend
  cases hend with
  | chatThrows he => exact absurd (hfail.symm.trans he) (by simp)
  | brokenPromise _ hnone _ => exact absurd (hnone.symm.trans hprom) (by simp)
  | stops _ hlooping => exact absurd hloop hlooping
  | @command detected' _ _ _ hprom' _ hcommand =>
    -- the command is the one that was reported
    obtain rfl : detected' = detected := Option.some.inj (hprom'.symm.trans hprom)
    cases hcommand with
    | throws he hfollowUps hrequests hreplies =>
      rcases he with ⟨cmd, now, hcmd, he⟩ | ⟨text, he⟩
      · exact ⟨_, _, rfl, .throws hcmd he (hreplies.trans replies_atFuture)⟩
      · obtain ⟨request, hrequest⟩ := user.exists_makeResponseForOllama text
        exact absurd (hrequest.symm.trans he) (by simp)
    | answers hcmd hx hfollowUps hrequests hstop hsent =>
      obtain ⟨hflag', m, horigin, hcontent, hdone, hreplies⟩ := hsent henv hloop.2
      obtain ⟨t, ht, hr, hf, hrep, -⟩ := threadLoop_null u
      refine ⟨_, t, ht, .answers hcmd hx hcontent hdone ?_ ?_ ?_⟩
      · rw [hrep, hreplies, replies_atFuture]
      · rw [hr, hrequests, requests_atFuture, hbooks.requests]
      · rw [hf, hfollowUps, followUps_atFuture, hbooks.followUps]
    | @followsUp _ f hf hflag' =>
      obtain ⟨text, htext, hanswer⟩ := hf.answer
      have hu : u.IsLooping := ⟨hf.shouldStop.trans hloop.1, (hflag' henv).trans hloop.2⟩
      obtain ⟨t, ht, hrequests, hfollowUps, hreported, hreplies⟩ :=
        threadLoop_request user henv hu hf.not_empty
      refine ⟨_, t, ht,
        .followsUp hf.command ⟨text, backendText_of_answerAt htext, hanswer⟩ ?_ ?_ ?_ ?_⟩
      · rw [hrequests, hf.requests, requests_atFuture, hbooks.requests]
      · rw [hfollowUps, hf.followUps, followUps_atFuture, hbooks.followUps]
      · rw [hreported, hf.reported, reported_atFuture]
      · rw [hreplies, hf.replies, replies_atFuture]

end OllamaMitm
