import OllamaMitm.Steps

/-!
# The response callback

What one call of the response callback can do, whatever happens outside: five kinds of endings,
told by the phase the detector was in.  The invariants of the session that speak about the
callback are proved from these five.
-/

namespace OllamaMitm

open CContentRestorator (statusOf)

namespace TThread

variable {env : TEnvironment} {commands : TAiCommands} {s t : TThread} {r : TOllamaResponse}
variable {p : Phase} {b : Bool} {status : EReadingBehahve} {plain : TString}

/-- The thread `t` and the answer `b` that a call of the callback leaves, for a response with the
given mark and a thread `s` whose detector is in the phase `p`. -/
inductive Handled (env : TEnvironment) (s : TThread) (p : Phase) (done : Option Bool) :
    Bool → TThread → Prop
  /-- The user has left, or the response or a command failed. -/
  | stops {u t : TThread} (hu : Quietly s u) (ht : Quietly u t ∨ Quietly (u.finish env) t)
      (hflag : t.commObject.disconnected = true) (hprom : t.detectionPromise = none) :
      Handled env s p done false t
  /-- The text is collected. -/
  | collects {b : Bool} {t : TThread} {p' : Phase} (hdone : done = some false)
      (hp : p ≠ .decided) (hp' : p' ≠ .decided) (ht : Quietly s t)
      (hrep : t.commandDetector.Represents p')
      (hflag : b = false → t.commObject.disconnected = true)
      (hprom : t.detectionPromise = none) : Handled env s p done b t
  /-- The text collected so far is sent. -/
  | answers {b : Bool} {u t : TThread} {j : Json} (hp : p ≠ .decided) (hu : Quietly s u)
      (ht : Quietly ((u.finish env).sendToUser env (some ⟨.reply, j⟩)) t)
      (hgo : b = true → done = some false ∧ t.commandDetector.Represents .decided)
      (hflag : b = false → t.commObject.disconnected = true)
      (hprom : t.detectionPromise = none) : Handled env s p done b t
  /-- The response is passed on. -/
  | passes {b : Bool} {u t : TThread} {j : Json} (hp : p = .decided) (hu : Quietly s u)
      (ht : Quietly (u.sendToUser env (some ⟨.reply, j⟩)) t)
      (hgo : b = true → done = some false ∧ t.commandDetector.Represents .decided)
      (hflag : b = false → t.commObject.disconnected = true)
      (hprom : t.detectionPromise = none) : Handled env s p done b t
  /-- A command is reported. -/
  | reports {t : TThread} {detected : TDetected} (hp : p ≠ .decided) (hdone : done = some true)
      (ht : Quietly s t) (hprom : t.detectionPromise = some detected) : Handled env s p done false t

/-! ## The ends of the callback -/

/-- The callback after `return !commObject.IsDisconnected();` in the visitor. -/
lemma concludeResponse_keepGoing (env : TEnvironment) (done : Bool) (s : TThread) :
    let res := concludeResponse env (statusOf done) (s.keepGoing env)
    Quietly s res.2 ∧ OnlyTalks s res.2 ∧ (res.1 = true → done = false) ∧
      (res.1 = false → res.2.commObject.disconnected = true) := by
  have hq := quietly_isDisconnected env s
  have ht := onlyTalks_isDisconnected env s
  cases hd : (s.isDisconnected env).commObject.disconnected with
  | true =>
    simp only [keepGoing, concludeResponse, hd, Bool.not_true]
    exact ⟨hq, ht, by simp, by simp⟩
  | false =>
    simp only [keepGoing, concludeResponse, hd, Bool.not_false]
    refine ⟨hq.trans (quietly_respondToUserAndOllama env _ _),
      ht.trans (onlyTalks_respondToUserAndOllama env _ _), ?_, ?_⟩
    · cases done <;> simp [statusOf, respondToUserAndOllama]
    · cases done with
      | true => simp [statusOf, respondToUserAndOllama, disconnectAll, TCommObject.disconnectAll]
      | false => simp [statusOf, respondToUserAndOllama]

lemma setValue_none (hprom : s.detectionPromise = none) (detected : TDetected) :
    s.setValue detected = (.ok false,
      { s with detectionPromise := some detected, reported := s.reported ++ [detected] }) := by
  rw [setValue, hprom]

/-- The callback when the visitor sends the text that was collected. -/
lemma handled_sendPlainTextToUser {done : Bool} (hp : p ≠ .decided) {u : TThread}
    (hu : Quietly s u) (hprom : u.detectionPromise = none)
    (hrep : done = false → u.commandDetector.Represents .decided) (r : TOllamaResponse)
    (plain : TString) :
    let res := concludeResponse env (statusOf done) (u.sendPlainTextToUser env r plain)
    Handled env s p (some done) res.1 res.2 := by
  have hfin := onlyTalks_finish env u
  cases hrepl : replaceOllamaText r plain with
  | error e =>
    -- the exception is caught, and the connection ends
    simp only [sendPlainTextToUser, hrepl, concludeResponse]
    exact .stops hu (Or.inr (quietly_disconnectAll _)) rfl (hfin.detectionPromise.trans hprom)
  | ok j =>
    simp only [sendPlainTextToUser, hrepl]
    set v := (u.finish env).sendToUser env (some ⟨.reply, j⟩) with hv
    obtain ⟨hq, ht, hgo, hflag⟩ := concludeResponse_keepGoing env done v
    have hall : OnlyTalks u _ := (hfin.trans (onlyTalks_sendToUser env _ _)).trans ht
    refine .answers hp hu hq (fun hb => ⟨by rw [hgo hb], ?_⟩) hflag
      (hall.detectionPromise.trans hprom)
    rw [hall.commandDetector]
    exact hrep (hgo hb)

/-- The callback when the visitor passes the response on. -/
lemma handled_alreadyDetected {done : Bool} (hp : p = .decided) {u : TThread} (hu : Quietly s u)
    (hprom : u.detectionPromise = none) (hrep : u.commandDetector.Represents .decided) (j : Json) :
    let res := concludeResponse env (statusOf done)
      ((u.sendToUser env (some ⟨.reply, j⟩)).keepGoing env)
    Handled env s p (some done) res.1 res.2 := by
  obtain ⟨hq, ht, hgo, hflag⟩ :=
    concludeResponse_keepGoing env done (u.sendToUser env (some ⟨.reply, j⟩))
  have hall : OnlyTalks u _ := (onlyTalks_sendToUser env _ _).trans ht
  refine .passes hp hu hq (fun hb => ⟨by rw [hgo hb], ?_⟩) hflag (hall.detectionPromise.trans hprom)
  rw [hall.commandDetector]
  exact hrep

/-- The callback when the visitor waits for more text of an incomplete reply. -/
lemma handled_needMoreData {p' : Phase} (hp : p ≠ .decided) (hp' : p' ≠ .decided) {u : TThread}
    (hu : Quietly s u) (hprom : u.detectionPromise = none)
    (hrep : u.commandDetector.Represents p') :
    let res := concludeResponse env (statusOf false) (u.keepGoing env)
    Handled env s p (some false) res.1 res.2 := by
  obtain ⟨hq, ht, -, hflag⟩ := concludeResponse_keepGoing env false u
  refine .collects rfl hp hp' (hu.trans hq) ?_ hflag (ht.detectionPromise.trans hprom)
  rw [ht.commandDetector]
  exact hrep

/-- The callback when the visitor reports a command. -/
lemma handled_setValue (hp : p ≠ .decided) {u : TThread} (hu : Quietly s u)
    (hprom : u.detectionPromise = none) (detected : TDetected) :
    let res := concludeResponse env (statusOf true) (u.setValue detected)
    Handled env s p (some true) res.1 res.2 := by
  rw [setValue_none hprom]
  exact .reports hp rfl ⟨hu.queue, hu.pingGen, hu.flag⟩ rfl

/-- **One call of the callback ends in one of the five ways.** -/
theorem handled_ollamaResponseHandler (env : TEnvironment) (commands : TAiCommands)
    (hp : s.commandDetector.Represents p) (hprom : s.detectionPromise = none)
    (r : TOllamaResponse) :
    Handled env s p r.isModelDone (s.ollamaResponseHandler env commands r).1
      (s.ollamaResponseHandler env commands r).2 := by
  have hq := quietly_isDisconnected env s
  rw [ollamaResponseHandler]
  simp only
  split
  · next hd => exact .stops (Quietly.refl s) (Or.inl hq) hd hprom
  · set v := s.isDisconnected env with hv
    set u := v.updateDetector commands r with hudef
    have hu : Quietly s u := hq.trans (quietly_updateDetector commands v r)
    have hfailed : Handled env s p r.isModelDone
        (u.respondToUserAndOllama env .communicationFailure).1
        (u.respondToUserAndOllama env .communicationFailure).2 :=
      .stops hu (Or.inl (quietly_disconnectAll u)) rfl hprom
    cases hdone : r.isModelDone with
    | none =>
      rw [hdone] at hfailed
      rw [CContentRestorator.update_of_isModelDone_none hdone]
      exact hfailed
    | some done =>
      rw [hdone] at hfailed
      have hpv : v.commandDetector.Represents p := hp
      obtain ⟨p', hstep, hrep⟩ :=
        CContentRestorator.update_refines commands v.commObject.clock hpv hdone
      have hrep : u.commandDetector.Represents p' := hrep
      generalize (v.commandDetector.update commands v.commObject.clock r).result = res at hstep ⊢
      cases hstep with
      | search hno hlong =>
        cases done with
        | true =>
          exact handled_sendPlainTextToUser (by simp) hu hprom (by simp) r _
        | false => exact handled_needMoreData (by simp) (by simp) hu hprom hrep
      | recognize hw => exact handled_needMoreData (by simp) (by simp) hu hprom hrep
      | keep hr hne => exact handled_needMoreData (by simp) (by simp) hu hprom hrep
      | pass hno hfit =>
        cases done <;> exact handled_sendPlainTextToUser (by simp) hu hprom (fun _ => hrep) r _
      | release hr =>
        exact handled_sendPlainTextToUser (by simp) hu hprom (fun _ => hrep) r _
      | detect hw => exact handled_setValue (by simp) hu hprom _
      | complete => exact handled_setValue (by simp) hu hprom _
      | fail hr => exact hfailed
      | already => cases done <;> exact handled_alreadyDetected rfl hu hprom hrep _

end TThread

end OllamaMitm
