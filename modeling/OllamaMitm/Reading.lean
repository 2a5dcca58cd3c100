import OllamaMitm.Callback
import OllamaMitm.Reply

/-!
# Reading a reply while the user stays

With a connected user the callback is deterministic: no flag ever shows anything that the thread
did not set itself.  This file follows one reply through all its chunks and says how it may end:
a command is reported, the whole text is sent after the last chunk, the text is released to the
user before the last chunk, or a command fails.
-/

namespace OllamaMitm

open Lib
open CContentRestorator (statusOf consult)

/-- The message that passes a response on as it is. -/
def passOn (r : TOllamaResponse) : TUserMessage := ⟨.reply, r.asJson⟩

namespace TThread

variable {env : TEnvironment} {commands : TAiCommands} {s s' t u : TThread} {r : TOllamaResponse}
variable {rs seen : List TOllamaResponse} {p : Phase} {done left : Bool} {text T : TString}
variable {ms : List TUserMessage}

/-! ## A connected user -/

/-- The thread after `n` accesses to shared data that showed nothing. -/
def tick (s : TThread) (n : ℕ) : TThread :=
  { s with commObject := { s.commObject with clock := s.commObject.clock + n } }

lemma isDisconnected_of_stays (h : env.userLeft s.commObject.clock = false) :
    s.isDisconnected env = s.tick 1 := by
  simp [isDisconnected, TCommObject.isDisconnected, h, tick]

lemma isDisconnected_eq_tick (henv : env.Connected) (s : TThread) :
    s.isDisconnected env = s.tick 1 := isDisconnected_of_stays (henv.user _)

/-! ## What one chunk does -/

/-- The thread reads a reply: it is connected, no ping was sent, and no command was reported. -/
structure Reads (s : TThread) : Prop where
  connected : s.commObject.disconnected = false
  pinging : s.pinging = false
  promise : s.detectionPromise = none

/-- The thread has queued some messages, and perhaps set the flag. -/
structure Said (s t : TThread) (ms : List TUserMessage) (left : Bool) : Prop where
  talks : OnlyTalks s t
  queue : t.queue = s.queue ++ ms
  flag : t.commObject.disconnected = left
  pinging : t.pinging = false

/-- The thread after it has read the flag and called `Update`. -/
def afterUpdate (commands : TAiCommands) (s : TThread) (r : TOllamaResponse) : TThread :=
  (s.tick 1).updateDetector commands r

@[simp] lemma words_afterUpdate :
    (s.afterUpdate commands r).commandDetector.words = s.commandDetector.words :=
  CContentRestorator.words_update

lemma Reads.afterUpdate (h : Reads s) : Reads (s.afterUpdate commands r) :=
  ⟨h.connected, h.pinging, h.promise⟩

/-- A call of the callback while the user is there. -/
lemma ollamaResponseHandler_of_stays (commands : TAiCommands)
    (hstays : env.userLeft s.commObject.clock = false)
    (hs : s.commObject.disconnected = false) (r : TOllamaResponse) :
    s.ollamaResponseHandler env commands r =
      let u := s.afterUpdate commands r
      match (s.commandDetector.update commands (s.commObject.clock + 1) r).result with
      | .error _ => (false, u.disconnectAll)
      | .ok (.communicationFailure, _) => (false, u.disconnectAll)
      | .ok (status, decision) => concludeResponse env status (u.visitDecision env r decision) := by
  have hflag : (s.tick 1).commObject.disconnected = false := hs
  rw [ollamaResponseHandler]
  rw [isDisconnected_of_stays hstays]
  simp only [hflag, Bool.false_eq_true, if_false]
  rfl

/-- Text is collected while the user is there. -/
lemma concludeResponse_keepGoing_of_stays (hfirst : env.userLeft u.commObject.clock = false)
    (hsecond : env.userLeft (u.commObject.clock + 1) = false)
    (hu : u.commObject.disconnected = false) :
    concludeResponse env .ollamaHasMore (u.keepGoing env) = (true, u.tick 2) := by
  have hflag : ∀ n, (u.tick n).commObject.disconnected = false := fun _ => hu
  have htick : (u.tick 1).isDisconnected env = u.tick 2 := isDisconnected_of_stays hsecond
  simp only [keepGoing, isDisconnected_of_stays hfirst, hflag, Bool.not_false, concludeResponse,
    respondToUserAndOllama, htick]

lemma concludeResponse_keepGoing_connected (henv : env.Connected)
    (hu : u.commObject.disconnected = false) :
    concludeResponse env .ollamaHasMore (u.keepGoing env) = (true, u.tick 2) :=
  concludeResponse_keepGoing_of_stays (henv.user _) (henv.user _) hu

/-- A message is sent, and the answer to Ollama follows. -/
lemma concludeResponse_sendToUser (henv : env.Connected) (hu : u.commObject.disconnected = false)
    (hping : u.pinging = false) (done : Bool) (m : TUserMessage) :
    ∃ t, concludeResponse env (statusOf done) ((u.sendToUser env (some m)).keepGoing env)
      = (!done, t) ∧ Said u t [m] done := by
  set v := u.sendToUser env (some m) with hv
  have hflag : v.commObject.disconnected = false := (disconnected_sendToUser henv _).trans hu
  have hq : v.queue = u.queue ++ [m] := queue_sendToUser henv hu m
  have ht : OnlyTalks u v := onlyTalks_sendToUser env u _
  cases done with
  | false => exact ⟨v.tick 2, concludeResponse_keepGoing_connected henv hflag,
      ht.trans ⟨_, _, rfl⟩, hq, hflag, hping⟩
  | true =>
    refine ⟨(v.tick 1).disconnectAll, ?_, ht.trans ⟨_, _, rfl⟩, hq, rfl, hping⟩
    have hflag' : (v.tick 1).commObject.disconnected = false := hflag
    simp only [keepGoing, isDisconnected_eq_tick henv, hflag', Bool.not_false, concludeResponse,
      statusOf, if_true, respondToUserAndOllama, Bool.not_true]

/-- Where no ping was sent, finishing the pings says nothing. -/
lemma said_finish (henv : env.Connected) (hu : u.pinging = false) :
    Said u (u.finish env) [] u.commObject.disconnected := by
  rw [finish]
  cases hgen : u.pingGen.ping with
  | none => exact ⟨OnlyTalks.refl u, (List.append_nil _).symm, rfl, hu⟩
  | some gen =>
    have honce : gen.once = false := by rwa [pinging, hgen, Option.any_some] at hu
    simp only [CUserPingGenerator.finishPingsIfAny, honce, Bool.false_eq_true, if_false]
    exact ⟨⟨_, _, rfl⟩, (List.append_nil _).symm, disconnected_sendToUser henv none, rfl⟩

lemma Said.trans {left' : Bool} {ms' : List TUserMessage} (h : Said s t ms left)
    (h' : Said t u ms' left') : Said s u (ms ++ ms') left' :=
  ⟨h.talks.trans h'.talks, by rw [h'.queue, h.queue, List.append_assoc], h'.flag, h'.pinging⟩

/-- Text that was collected is sent in one message that is not marked as done. -/
lemma concludeResponse_sendPlainTextToUser (henv : env.Connected)
    (hu : u.commObject.disconnected = false) (hping : u.pinging = false) {mark : Bool}
    (hr : IsChunk r text mark) (done : Bool) (plain : TString) :
    ∃ t m, concludeResponse env (statusOf done) (u.sendPlainTextToUser env r plain) = (!done, t) ∧
      Said u t [m] done ∧ m.origin = .reply ∧ m.content = plain ∧ m.isDone = false := by
  obtain ⟨j, hj⟩ := hr.exists_replaceOllamaText plain
  have hfin := said_finish henv hping
  simp only [sendPlainTextToUser, hj]
  obtain ⟨t, ht, hsaid⟩ := concludeResponse_sendToUser henv (hfin.flag.trans hu) hfin.pinging done
    ⟨.reply, j⟩
  obtain ⟨hcontent, hdone⟩ := replaceOllamaText_spec hj .reply
  exact ⟨t, _, ht, hfin.trans hsaid, rfl, hcontent, hdone⟩

/-- A command is reported. -/
lemma concludeResponse_setValue (hu : Reads u) (detected : TDetected) :
    ∃ t, concludeResponse env (statusOf true) (u.setValue detected) = (false, t) ∧
      t.detectionPromise = some detected ∧ t.reported = u.reported ++ [detected] ∧
      t.queue = u.queue ∧ t.commObject.disconnected = false ∧ t.pinging = false := by
  rw [setValue_none hu.promise]
  exact ⟨_, rfl, rfl, rfl, rfl, hu.connected, hu.pinging⟩

/-- What the callback does with the result of `Update`, for a thread that is connected. -/
def concluded (env : TEnvironment) (done : Bool) (r : TOllamaResponse) (u : TThread) :
    Except TException TUpdateResult → Bool × TThread
  | .error _ => (false, u.disconnectAll)
  | .ok (_, decision) => concludeResponse env (statusOf done) (u.visitDecision env r decision)

/-- **One chunk while the user is there.**  The detector makes a step, and the callback does what
the decision says. -/
lemma hears_chunk (commands : TAiCommands) (hstays : env.userLeft s.commObject.clock = false)
    (hs : s.commObject.disconnected = false) (hp : s.commandDetector.Represents p)
    (hdone : r.isModelDone = some done) :
    ∃ res p', DetectorStep s.commandDetector.words (consult commands (s.commObject.clock + 1)) p
        r.asSimpleString done res p' ∧
      (s.afterUpdate commands r).commandDetector.Represents p' ∧
      s.ollamaResponseHandler env commands r
        = concluded env done r (s.afterUpdate commands r) res := by
  obtain ⟨p', hstep, hp'⟩ :=
    CContentRestorator.update_refines commands (s.commObject.clock + 1) hp hdone
  have hhandler := ollamaResponseHandler_of_stays commands hstays hs r
  refine ⟨_, p', hstep, hp', ?_⟩
  generalize (s.commandDetector.update commands (s.commObject.clock + 1) r).result = res
    at hstep hhandler ⊢
  rcases hstep.status with ⟨e, rfl⟩ | ⟨decision, rfl⟩
  · exact hhandler
  · cases done <;> exact hhandler

lemma ollamaResponseHandler_of_left (h : (s.isDisconnected env).commObject.disconnected = true) :
    s.ollamaResponseHandler env commands r = (false, s.isDisconnected env) := by
  rw [ollamaResponseHandler]
  simp only [h, if_true]

/-- The user is still there, or reading stops at once. -/
lemma stays_or_left (env : TEnvironment) (s : TThread) :
    (s.commObject.disconnected = false ∧ env.userLeft s.commObject.clock = false) ∨
      (s.isDisconnected env).commObject.disconnected = true := by
  cases h : (s.isDisconnected env).commObject.disconnected with
  | true => exact Or.inr rfl
  | false => exact Or.inl (Bool.or_eq_false_iff.1 h)

/-- Where no command is reported, the thread only talks after the `Update`. -/
lemma onlyTalks_concluded (env : TEnvironment) (done : Bool) (r : TOllamaResponse) (u : TThread)
    {res : Except TException TUpdateResult}
    (hno : ∀ status detected, res ≠ .ok (status, .detected detected)) :
    OnlyTalks u (concluded env done r u res).2 := by
  rcases res with e | ⟨status, decision⟩
  · exact onlyTalks_disconnectAll u
  · refine (onlyTalks_visitDecision env u r fun detected hd => ?_).trans
      (onlyTalks_concludeResponse env _ _)
    exact hno status detected (by rw [hd])

/-- One chunk for a connected user. -/
lemma reads_chunk (commands : TAiCommands) (henv : env.Connected) (hs : Reads s)
    (hp : s.commandDetector.Represents p) (hr : IsChunk r text done) :
    ∃ res p', DetectorStep s.commandDetector.words (consult commands (s.commObject.clock + 1)) p
        r.asSimpleString done res p' ∧
      (s.afterUpdate commands r).commandDetector.Represents p' ∧
      s.ollamaResponseHandler env commands r
        = concluded env done r (s.afterUpdate commands r) res :=
  hears_chunk commands (henv.user _) hs.connected hp hr.modelDone

lemma Said.reads (h : Said u t ms false) (hu : Reads u) : Reads t :=
  ⟨h.flag, h.pinging, h.talks.detectionPromise.trans hu.promise⟩

/-! ## A whole reply -/

/-- How reading the chunks `rs` of a reply may end, when the chunks `seen` came before. -/
inductive ReadEnding (commands : TAiCommands) (W : List TString) (s : TThread)
    (seen rs : List TOllamaResponse) (t : TThread) : Prop
  /-- A command is reported. -/
  | reported {w : TString} (hw : IsShortestPrefix W (textOf (seen ++ rs)) w)
      (hlate : ¬ ReleasedEarly commands W s.commObject.clock seen rs)
      (hprom : t.detectionPromise = some ⟨.ollamaSentAll, w, textOf (seen ++ rs)⟩)
      (hrep : t.reported = s.reported ++ [⟨.ollamaSentAll, w, textOf (seen ++ rs)⟩])
      (hqueue : t.queue = s.queue) (hflag : t.commObject.disconnected = false) :
      ReadEnding commands W s seen rs t
  /-- The whole text is sent after the last chunk. -/
  | flushed {m : TUserMessage} (hno : ∀ w ∈ W, ¬ w <+: textOf (seen ++ rs))
      (hlate : ¬ ReleasedEarly commands W s.commObject.clock seen rs)
      (horigin : m.origin = .reply) (hcontent : m.content = textOf (seen ++ rs))
      (hdone : m.isDone = false) (hqueue : t.queue = s.queue ++ [m])
      (hflag : t.commObject.disconnected = true) : ReadEnding commands W s seen rs t
  /-- The text collected up to the chunk `r` is sent, and the later chunks are passed on. -/
  | released {rs₁ rs₂ : List TOllamaResponse} {r : TOllamaResponse} {m : TUserMessage}
      (hrs : rs = rs₁ ++ r :: rs₂) (hne : rs₂ ≠ [])
      (hrel : ReleasedAt W (consult commands (s.commObject.clock + 3 * rs₁.length + 1))
        (seen ++ rs₁) r)
      (horigin : m.origin = .reply) (hcontent : m.content = textOf (seen ++ rs₁ ++ [r]))
      (hdone : m.isDone = false) (hqueue : t.queue = s.queue ++ m :: rs₂.map passOn)
      (hflag : t.commObject.disconnected = true) : ReadEnding commands W s seen rs t
  /-- A command fails. -/
  | failed {now : ℕ} {w text : TString} {e : TException} (hw : w ∈ W)
      (he : consult commands now w text = .error e) (hqueue : t.queue = s.queue)
      (hflag : t.commObject.disconnected = true) : ReadEnding commands W s seen rs t

lemma deliver_cons_true (h : s.ollamaResponseHandler env commands r = (true, t)) :
    deliver env commands (r :: rs) s = deliver env commands rs t := by
  simp only [deliver, h]

lemma deliver_cons_false (h : s.ollamaResponseHandler env commands r = (false, t)) :
    deliver env commands (r :: rs) s = t := by
  simp only [deliver, h]

/-- Once the detector has decided, every chunk is passed on. -/
lemma deliver_decided (henv : env.Connected) (hrs : IsReply T rs) (hs : Reads s)
    (hp : s.commandDetector.Represents .decided) :
    let t := deliver env commands rs s
    t.pinging = false ∧ t.queue = s.queue ++ rs.map passOn ∧ t.commObject.disconnected = true := by
  induction hrs generalizing s with
  | @last r text hr =>
    obtain ⟨res, p', hstep, -, hres⟩ := reads_chunk commands henv hs hp hr
    have hu : Reads (s.afterUpdate commands r) := hs.afterUpdate
    cases hstep
    obtain ⟨t, ht, hsaid⟩ :=
      concludeResponse_sendToUser henv hu.connected hu.pinging true (passOn r)
    rw [deliver_cons_false (hres.trans ht)]
    exact ⟨hsaid.pinging, hsaid.queue, hsaid.flag⟩
  | @more r rs text rest hr hrs ih =>
    obtain ⟨res, p', hstep, hp', hres⟩ := reads_chunk commands henv hs hp hr
    have hu : Reads (s.afterUpdate commands r) := hs.afterUpdate
    cases hstep
    obtain ⟨t, ht, hsaid⟩ :=
      concludeResponse_sendToUser henv hu.connected hu.pinging false (passOn r)
    rw [deliver_cons_true (hres.trans ht)]
    have ht' : Reads t := hsaid.reads hu
    have hrep : t.commandDetector.Represents .decided := by
      rw [hsaid.talks.commandDetector]
      exact hp'
    obtain ⟨hping, hqueue, hflag⟩ := ih ht' hrep
    refine ⟨hping, ?_, hflag⟩
    rw [hqueue, hsaid.queue]
    simp [queue, afterUpdate, updateDetector, tick]

/-- The first chunk was collected: the ending of the rest is the ending of the whole. -/
lemma ReadEnding.cons {W : List TString} (hqueue : s'.queue = s.queue)
    (hreported : s'.reported = s.reported)
    (hclock : s'.commObject.clock = s.commObject.clock + 3)
    (hrel : ¬ ReleasedAt W (consult commands (s.commObject.clock + 1)) seen r)
    (h : ReadEnding commands W s' (seen ++ [r]) rs t) :
    ReadEnding commands W s seen (r :: rs) t := by
  have htext : textOf (seen ++ [r] ++ rs) = textOf (seen ++ r :: rs) := by simp
  have hlate : ¬ ReleasedEarly commands W s'.commObject.clock (seen ++ [r]) rs →
      ¬ ReleasedEarly commands W s.commObject.clock seen (r :: rs) := by
    rw [releasedEarly_cons, hclock]
    rintro hno (⟨-, hyes⟩ | hyes)
    · exact hrel hyes
    · exact hno hyes
  cases h with
  | reported hw hno hprom hrep hq hflag =>
    rw [htext] at hw hprom hrep
    exact .reported hw (hlate hno) hprom (by rw [hrep, hreported]) (hq.trans hqueue) hflag
  | flushed hno hl horigin hcontent hdone hq hflag =>
    rw [htext] at hno hcontent
    exact .flushed hno (hlate hl) horigin hcontent hdone (by rw [hq, hqueue]) hflag
  | @released rs₁ rs₂ r' m hrs hne hrel' horigin hcontent hdone hq hflag =>
    have hclock' : s'.commObject.clock + 3 * rs₁.length + 1
        = s.commObject.clock + 3 * (r :: rs₁).length + 1 := by
      rw [hclock, List.length_cons]
      omega
    rw [hclock'] at hrel'
    have hrs' : r :: rs = (r :: rs₁) ++ r' :: rs₂ := by rw [hrs, List.cons_append]
    exact .released hrs' hne (by simpa using hrel') horigin (by simpa using hcontent) hdone
      (by rw [hq, hqueue]) hflag
  | failed hw he hq hflag => exact .failed hw he (hq.trans hqueue) hflag

/-- **Every reply ends in one of the four ways.** -/
theorem deliver_reply (henv : env.Connected) (hrs : IsReply T rs) (hs : Reads s)
    (hp : s.commandDetector.Represents p) (hund : Undecided s.commandDetector.words seen p) :
    let t := deliver env commands rs s
    t.pinging = false ∧ ReadEnding commands s.commandDetector.words s seen rs t := by
  induction hrs generalizing s seen p with
  | @last r text hr =>
    obtain ⟨res, p', hstep, hp', hres⟩ := reads_chunk commands henv hs hp hr
    have hu : Reads (s.afterUpdate commands r) := hs.afterUpdate
    rcases hund.step_last hstep with ⟨hsent, hno⟩ | ⟨w, rfl, hw⟩
    · -- the whole text is sent
      have hres' : s.ollamaResponseHandler env commands r = concludeResponse env (statusOf true)
          ((s.afterUpdate commands r).sendPlainTextToUser env r (textOf (seen ++ [r]))) := by
        rcases hsent with rfl | rfl <;> exact hres
      obtain ⟨t, m, ht, hsaid, horigin, hcontent, hdone⟩ :=
        concludeResponse_sendPlainTextToUser henv hu.connected hu.pinging hr true
          (textOf (seen ++ [r]))
      rw [deliver_cons_false (hres'.trans ht)]
      exact ⟨hsaid.pinging,
        .flushed hno not_releasedEarly_singleton horigin hcontent hdone hsaid.queue hsaid.flag⟩
    · -- a command is reported
      obtain ⟨t, ht, hprom, hrep, hqueue, hflag, hping⟩ :=
        concludeResponse_setValue hu ⟨.ollamaSentAll, w, textOf (seen ++ [r])⟩
      rw [deliver_cons_false (hres.trans ht)]
      exact ⟨hping, .reported hw not_releasedEarly_singleton hprom hrep hqueue hflag⟩
  | @more r rs text rest hr hrs ih =>
    obtain ⟨res, p', hstep, hp', hres⟩ := reads_chunk commands henv hs hp hr
    have hu : Reads (s.afterUpdate commands r) := hs.afterUpdate
    have hne : rs ≠ [] := by cases hrs <;> simp
    rcases hund.step_more hstep with ⟨rfl, hund', hrel⟩ | ⟨rfl, rfl, hrel⟩ | ⟨w, e, hw, he, rfl⟩
    · -- the chunk is collected
      set v := (s.afterUpdate commands r).tick 2 with hv
      have hhandler : s.ollamaResponseHandler env commands r = (true, v) :=
        hres.trans (concludeResponse_keepGoing_connected henv hu.connected)
      have hv' : Reads v := ⟨hu.connected, hu.pinging, hu.promise⟩
      have hwords : v.commandDetector.words = s.commandDetector.words := words_afterUpdate
      have hpv : v.commandDetector.Represents p' := hp'
      rw [← hwords] at hund'
      obtain ⟨hping, hend⟩ := ih hv' hpv hund'
      rw [deliver_cons_true hhandler]
      rw [hwords] at hend
      have hqueue : v.queue = s.queue := rfl
      have hreported : v.reported = s.reported := rfl
      have hclock : v.commObject.clock = s.commObject.clock + 3 := rfl
      exact ⟨hping, hend.cons hqueue hreported hclock hrel⟩
    · -- the text is released
      obtain ⟨t, m, ht, hsaid, horigin, hcontent, hdone⟩ :=
        concludeResponse_sendPlainTextToUser henv hu.connected hu.pinging hr false
          (textOf (seen ++ [r]))
      rw [deliver_cons_true (hres.trans ht)]
      have ht' : Reads t := hsaid.reads hu
      have hrep : t.commandDetector.Represents .decided := by
        rw [hsaid.talks.commandDetector]
        exact hp'
      obtain ⟨hping, hqueue, hflag⟩ := deliver_decided henv hrs ht' hrep
      refine ⟨hping, ?_⟩
      have hsplit : r :: rs = [] ++ r :: rs := rfl
      refine .released hsplit hne (by simpa using hrel) horigin (by simpa using hcontent) hdone ?_
        hflag
      rw [hqueue, hsaid.queue, List.append_assoc]
      rfl
    · -- a command fails
      rw [deliver_cons_false hres]
      exact ⟨hu.pinging, .failed hw he rfl rfl⟩

end TThread

end OllamaMitm
