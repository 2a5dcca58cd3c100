import OllamaMitm.Outcome

/-!
# When the thread reads on

The thread sees that the user has left when it reads the flag, so it matters at which accesses the
user is there.  A response that is not the last one takes three accesses if its text is collected,
five if the text collected so far is released and four if it is passed on.  The thread asks for the
next response exactly if the user is there at all of them and nothing throws.
-/

namespace OllamaMitm

open Lib
open CContentRestorator (statusOf consult)

namespace TEnvironment

variable {env : TEnvironment} {k l n : ℕ}

/-- The user is there at `k` accesses from the access `n` on. -/
def StaysFor (env : TEnvironment) (n k : ℕ) : Prop := ∀ i < k, env.userLeft (n + i) = false

lemma staysFor_one : env.StaysFor n 1 ↔ env.userLeft n = false := by
  simp [StaysFor]

lemma staysFor_add : env.StaysFor n (k + l) ↔ env.StaysFor n k ∧ env.StaysFor (n + k) l := by
  constructor
  · intro h
    refine ⟨fun i hi => h i (by omega), fun i hi => ?_⟩
    rw [Nat.add_assoc]
    exact h (k + i) (by omega)
  · rintro ⟨hk, hl⟩ i hi
    rcases Nat.lt_or_ge i k with hlt | hge
    · exact hk i hlt
    · have := hl (i - k) (by omega)
      rwa [show n + k + (i - k) = n + i by omega] at this

lemma staysFor_two : env.StaysFor n 2 ↔ env.userLeft n = false ∧ env.userLeft (n + 1) = false := by
  rw [← staysFor_one, ← staysFor_one (n := n + 1)]
  exact staysFor_add (k := 1) (l := 1)

end TEnvironment

namespace TThread

variable {env : TEnvironment} {commands : TAiCommands} {s t u v : TThread} {r : TOllamaResponse}
variable {rs rest : List TOllamaResponse} {p p' q : Phase} {k l m n n' : ℕ} {w T : TString}
variable {res : Except TException TUpdateResult}

/-! ## Accesses -/

/-- From `s` to `t` the thread reads the flag `k` times and does not set it. -/
structure Watches (env : TEnvironment) (k : ℕ) (s t : TThread) : Prop where
  clock : t.commObject.clock = s.commObject.clock + k
  flag : t.commObject.disconnected = false ↔
    s.commObject.disconnected = false ∧ env.StaysFor s.commObject.clock k

lemma Watches.refl (env : TEnvironment) (s : TThread) : Watches env 0 s s :=
  ⟨rfl, by simp [TEnvironment.StaysFor]⟩

lemma Watches.trans (h : Watches env k s t) (h' : Watches env l t u) : Watches env (k + l) s u := by
  refine ⟨by rw [h'.clock, h.clock, Nat.add_assoc], ?_⟩
  rw [h'.flag, h.flag, h.clock, TEnvironment.staysFor_add, and_assoc]

lemma watches_isDisconnected (env : TEnvironment) (s : TThread) :
    Watches env 1 s (s.isDisconnected env) := by
  refine ⟨rfl, ?_⟩
  rw [TEnvironment.staysFor_one]
  exact Bool.or_eq_false_iff

lemma watches_sendToUser (env : TEnvironment) (s : TThread) (what : Option TUserMessage) :
    Watches env 1 s (s.sendToUser env what) := by
  have hread := watches_isDisconnected env s
  cases what with
  | none => exact hread
  | some m =>
    refine ⟨?_, ?_⟩
    · rw [sendToUser, TCommObject.sendToUser]
      split <;> exact hread.clock
    · rw [← hread.flag, sendToUser, TCommObject.sendToUser]
      split <;> rfl

/-- Finishing the pings reads the flag, also where no ping was sent. -/
lemma watches_finish {gen : CUserPingGenerator} (hgen : s.pingGen.ping = some gen) :
    Watches env 1 s (s.finish env) := by
  have hsend := watches_sendToUser env s (gen.finishPingsIfAny (env.utcTime s.commObject.clock))
  rw [finish, hgen]
  exact ⟨hsend.clock, hsend.flag⟩

lemma watches_afterUpdate (hs : s.commObject.disconnected = false)
    (hstays : env.userLeft s.commObject.clock = false) :
    Watches env 1 s (s.afterUpdate commands r) :=
  ⟨rfl, iff_of_true hs ⟨hs, TEnvironment.staysFor_one.2 hstays⟩⟩

/-- The end of a callback that asks for more: it reads the flag twice, unless it sees it set. -/
lemma concludeResponse_watches (hv : Watches env k s v) (hs : s.commObject.disconnected = false) :
    let res := concludeResponse env .ollamaHasMore (v.keepGoing env)
    (env.StaysFor s.commObject.clock (k + 2) ∧ res.1 = true ∧ Watches env (k + 2) s res.2) ∨
      (¬env.StaysFor s.commObject.clock (k + 2) ∧ res.1 = false) := by
  have hfirst := hv.trans (watches_isDisconnected env v)
  have hsecond := hfirst.trans (watches_isDisconnected env _)
  cases hflag : (v.isDisconnected env).commObject.disconnected with
  | true =>
    refine Or.inr ⟨fun hstays => ?_, ?_⟩
    · have hstays' := (TEnvironment.staysFor_add (k := k + 1) (l := 1)).1 hstays
      exact absurd (hflag.symm.trans (hfirst.flag.2 ⟨hs, hstays'.1⟩)) (by decide)
    · simp only [keepGoing, hflag, Bool.not_true, concludeResponse]
  | false =>
    simp only [keepGoing, hflag, Bool.not_false, concludeResponse, respondToUserAndOllama]
    cases hflag' : ((v.isDisconnected env).isDisconnected env).commObject.disconnected with
    | true =>
      refine Or.inr ⟨fun hstays => ?_, rfl⟩
      exact absurd (hflag'.symm.trans (hsecond.flag.2 ⟨hs, hstays⟩)) (by decide)
    | false => exact Or.inl ⟨(hsecond.flag.1 hflag').2, rfl, hsecond⟩

/-! ## One response -/

/-- The thread listens: the detector is in the phase `p`, the next access is the access `n`, no
flag was seen and no command reported.  Until the detector decides the pings are not finished. -/
structure Listens (commands : TAiCommands) (p : Phase) (n : ℕ) (s : TThread) : Prop where
  phase : s.commandDetector.Represents p
  words : ∀ w, w ∈ commands.keys ↔ w ∈ s.commandDetector.words
  clock : s.commObject.clock = n
  connected : s.commObject.disconnected = false
  promise : s.detectionPromise = none
  pings : p ≠ .decided → ∃ gen, s.pingGen.ping = some gen

/-- The callback takes the response `r`, which is not the last one, and asks for more, when the
detector is in the phase `p` and the next access is the access `n`. -/
inductive ReadsOn (env : TEnvironment) (commands : TAiCommands) (p : Phase) (n : ℕ)
    (r : TOllamaResponse) : Phase → ℕ → Prop
  /-- The text is collected. -/
  | collects {D : TString} {p' : Phase} (hdone : r.isModelDone = some false)
      (hstep : DetectorStep commands.keys (consult commands (n + 1)) p r.asSimpleString false
        (.ok (.ollamaHasMore, .needMoreData .ollamaHasMore D)) p')
      (hstays : env.StaysFor n 3) : ReadsOn env commands p n r p' (n + 3)
  /-- The text collected so far is released. -/
  | releases {D : TString} {p' : Phase} {j : Json} (hdone : r.isModelDone = some false)
      (hstep : DetectorStep commands.keys (consult commands (n + 1)) p r.asSimpleString false
        (.ok (.ollamaHasMore, .passToUser .ollamaHasMore D)) p')
      (hj : replaceOllamaText r D = .ok j) (hstays : env.StaysFor n 5) :
      ReadsOn env commands p n r p' (n + 5)
  /-- The response is passed on. -/
  | passesOn {p' : Phase} (hdone : r.isModelDone = some false)
      (hstep : DetectorStep commands.keys (consult commands (n + 1)) p r.asSimpleString false
        (.ok (.ollamaHasMore, .alreadyDetected .ollamaHasMore)) p')
      (hstays : env.StaysFor n 4) : ReadsOn env commands p n r p' (n + 4)

/-- The callback takes the last response `r` and reports the command `w` for the text `T`. -/
structure Reports (env : TEnvironment) (commands : TAiCommands) (p : Phase) (n : ℕ)
    (r : TOllamaResponse) (w T : TString) : Prop where
  done : r.isModelDone = some true
  stays : env.userLeft n = false
  step : ∃ p', DetectorStep commands.keys (consult commands (n + 1)) p r.asSimpleString true
    (.ok (.ollamaSentAll, .detected ⟨.ollamaSentAll, w, T⟩)) p'

lemma ReadsOn.unfinished (h : ReadsOn env commands p n r p' n') : r.isModelDone = some false := by
  cases h <;> assumption

/-- Every response takes three accesses or more. -/
lemma ReadsOn.staysFor_three (h : ReadsOn env commands p n r p' n') : env.StaysFor n 3 := by
  intro i hi
  cases h with
  | collects _ _ hstays | releases _ _ _ hstays | passesOn _ _ hstays => exact hstays i (by omega)

lemma ReadsOn.stays (h : ReadsOn env commands p n r p' n') : env.userLeft n = false :=
  h.staysFor_three 0 (by omega)

/-- What a thread that listens makes of a response while the user is there. -/
lemma Listens.hears (hs : Listens commands p n s) (hstays : env.userLeft n = false) {done : Bool}
    (hdone : r.isModelDone = some done) :
    ∃ res q, DetectorStep commands.keys (consult commands (n + 1)) p r.asSimpleString done res q ∧
      (s.afterUpdate commands r).commandDetector.Represents q ∧
      s.ollamaResponseHandler env commands r
        = concluded env done r (s.afterUpdate commands r) res := by
  obtain rfl := hs.clock
  obtain ⟨res, q, hstep, hq, hres⟩ :=
    hears_chunk commands hstays hs.connected hs.phase hdone
  exact ⟨res, q, hstep.of_mem_iff hs.words, hq, hres⟩

/-- The detector makes the one step that the text asks for. -/
lemma Listens.hears_step (hs : Listens commands p n s) (hstays : env.userLeft n = false)
    {done : Bool} (hdone : r.isModelDone = some done)
    (hstep : DetectorStep commands.keys (consult commands (n + 1)) p r.asSimpleString done res q) :
    (s.afterUpdate commands r).commandDetector.Represents q ∧
      s.ollamaResponseHandler env commands r
        = concluded env done r (s.afterUpdate commands r) res := by
  obtain ⟨res', q', hstep', hq', hres'⟩ := hs.hears hstays hdone
  obtain ⟨rfl, rfl⟩ := hstep.unique (fun _ => Iff.rfl) hstep'
  exact ⟨hq', hres'⟩

/-- The thread that has talked only still listens. -/
lemma Listens.of_watches (hs : Listens commands p n s)
    (hq : (s.afterUpdate commands r).commandDetector.Represents q)
    (htalks : OnlyTalks (s.afterUpdate commands r) t) (ht : Watches env k s t)
    (hstays : env.StaysFor n k) (hpings : q ≠ .decided → ∃ gen, t.pingGen.ping = some gen) :
    Listens commands q (n + k) t where
  phase := by
    rw [htalks.commandDetector]
    exact hq
  words := by
    rw [htalks.commandDetector, words_afterUpdate]
    exact hs.words
  clock := by rw [ht.clock, hs.clock]
  connected := ht.flag.2 ⟨hs.connected, by rw [hs.clock]; exact hstays⟩
  promise := htalks.detectionPromise.trans hs.promise
  pings := hpings

/-- The end of a callback that asks for more, for a thread that listens. -/
lemma Listens.concludes (hs : Listens commands p n s)
    (hq : (s.afterUpdate commands r).commandDetector.Represents q)
    (htalks : OnlyTalks (s.afterUpdate commands r) v) (hv : Watches env k s v)
    (hpings : q ≠ .decided → v.pingGen = s.pingGen ∧ p ≠ .decided)
    (hres : s.ollamaResponseHandler env commands r
      = concludeResponse env .ollamaHasMore (v.keepGoing env)) :
    (env.StaysFor n (k + 2) ∧ ∃ t, s.ollamaResponseHandler env commands r = (true, t) ∧
        Listens commands q (n + (k + 2)) t) ∨
      (¬env.StaysFor n (k + 2) ∧ (s.ollamaResponseHandler env commands r).1 = false) := by
  obtain ⟨hquiet, htalks', -⟩ : Quietly v _ ∧ OnlyTalks v _ ∧ _ :=
    concludeResponse_keepGoing env false v
  have hcases := concludeResponse_watches hv hs.connected
  rw [hres]
  rcases hconc : concludeResponse env .ollamaHasMore (v.keepGoing env) with ⟨b, t⟩
  rw [hconc, hs.clock] at hcases
  rw [show statusOf false = .ollamaHasMore from rfl, hconc] at hquiet htalks'
  refine hcases.imp_left ?_
  rintro ⟨hstays, rfl, ht⟩
  refine ⟨hstays, t, rfl, hs.of_watches hq (htalks.trans htalks') ht hstays fun hne => ?_⟩
  obtain ⟨hgen, hp⟩ := hpings hne
  rw [hquiet.pingGen, hgen]
  exact hs.pings hp

/-- A response whose text is collected. -/
lemma Listens.hears_collects (hs : Listens commands p n s) (hstays : env.userLeft n = false)
    {D : TString} (hdone : r.isModelDone = some false)
    (hstep : DetectorStep commands.keys (consult commands (n + 1)) p r.asSimpleString false
      (.ok (.ollamaHasMore, .needMoreData .ollamaHasMore D)) q) :
    (env.StaysFor n 3 ∧ ∃ t, s.ollamaResponseHandler env commands r = (true, t) ∧
        Listens commands q (n + 3) t) ∨
      (¬env.StaysFor n 3 ∧ (s.ollamaResponseHandler env commands r).1 = false) := by
  obtain ⟨hq, hres⟩ := hs.hears_step hstays hdone hstep
  have hp : p ≠ .decided := by
    rintro rfl
    cases hstep
  exact hs.concludes hq (OnlyTalks.refl _)
    (watches_afterUpdate hs.connected (by rw [hs.clock]; exact hstays)) (fun _ => ⟨rfl, hp⟩) hres

/-- A response that releases the text collected so far. -/
lemma Listens.hears_releases (hs : Listens commands p n s) (hstays : env.userLeft n = false)
    {D : TString} {j : Json} (hdone : r.isModelDone = some false)
    (hstep : DetectorStep commands.keys (consult commands (n + 1)) p r.asSimpleString false
      (.ok (.ollamaHasMore, .passToUser .ollamaHasMore D)) q)
    (hj : replaceOllamaText r D = .ok j) :
    (env.StaysFor n 5 ∧ ∃ t, s.ollamaResponseHandler env commands r = (true, t) ∧
        Listens commands q (n + 5) t) ∨
      (¬env.StaysFor n 5 ∧ (s.ollamaResponseHandler env commands r).1 = false) := by
  obtain ⟨hq, hres⟩ := hs.hears_step hstays hdone hstep
  obtain ⟨hp, rfl⟩ : p ≠ .decided ∧ q = .decided := by cases hstep <;> exact ⟨by simp, rfl⟩
  obtain ⟨gen, hgen⟩ : ∃ gen, (s.afterUpdate commands r).pingGen.ping = some gen := hs.pings hp
  have hupdate : Watches env 1 s (s.afterUpdate commands r) :=
    watches_afterUpdate hs.connected (by rw [hs.clock]; exact hstays)
  set u := s.afterUpdate commands r with hu
  refine hs.concludes hq ((onlyTalks_finish env u).trans (onlyTalks_sendToUser env _ _))
    ((hupdate.trans (watches_finish hgen)).trans (watches_sendToUser env _ (some ⟨.reply, j⟩)))
    (fun h => absurd rfl h) ?_
  rw [hres]
  simp only [concluded, visitDecision, sendPlainTextToUser, hj]
  rfl

/-- A response that is passed on. -/
lemma Listens.hears_passesOn (hs : Listens commands p n s) (hstays : env.userLeft n = false)
    (hdone : r.isModelDone = some false)
    (hstep : DetectorStep commands.keys (consult commands (n + 1)) p r.asSimpleString false
      (.ok (.ollamaHasMore, .alreadyDetected .ollamaHasMore)) q) :
    (env.StaysFor n 4 ∧ ∃ t, s.ollamaResponseHandler env commands r = (true, t) ∧
        Listens commands q (n + 4) t) ∨
      (¬env.StaysFor n 4 ∧ (s.ollamaResponseHandler env commands r).1 = false) := by
  obtain ⟨hq, hres⟩ := hs.hears_step hstays hdone hstep
  obtain rfl : q = .decided := by
    cases hstep
    rfl
  have hupdate : Watches env 1 s (s.afterUpdate commands r) :=
    watches_afterUpdate hs.connected (by rw [hs.clock]; exact hstays)
  exact hs.concludes hq (onlyTalks_sendToUser env _ _)
    (hupdate.trans (watches_sendToUser env _ (some ⟨.reply, r.asJson⟩)))
    (fun h => absurd rfl h) hres

/-- **A response on which the thread reads on.** -/
lemma Listens.reads_on (hs : Listens commands p n s) (h : ReadsOn env commands p n r p' n') :
    ∃ t, s.ollamaResponseHandler env commands r = (true, t) ∧ Listens commands p' n' t := by
  have hstays := h.stays
  cases h with
  | collects hdone hstep hall =>
    rcases hs.hears_collects hstays hdone hstep with ⟨-, ht⟩ | ⟨hno, -⟩
    · exact ht
    · exact absurd hall hno
  | releases hdone hstep hj hall =>
    rcases hs.hears_releases hstays hdone hstep hj with ⟨-, ht⟩ | ⟨hno, -⟩
    · exact ht
    · exact absurd hall hno
  | passesOn hdone hstep hall =>
    rcases hs.hears_passesOn hstays hdone hstep with ⟨-, ht⟩ | ⟨hno, -⟩
    · exact ht
    · exact absurd hall hno

/-- The user is there when the callback does more than look at the flag. -/
lemma Listens.stays_or_left (env : TEnvironment) (hs : Listens commands p n s)
    (r : TOllamaResponse) : env.userLeft n = false ∨
      s.ollamaResponseHandler env commands r = (false, s.isDisconnected env) ∧
        (s.isDisconnected env).commObject.disconnected = true := by
  rw [← hs.clock]
  rcases TThread.stays_or_left env s with ⟨-, hstays⟩ | hleft
  · exact Or.inl hstays
  · exact Or.inr ⟨ollamaResponseHandler_of_left hleft, hleft⟩

/-- If the callback asks for more, the thread reads on. -/
lemma Listens.readsOn_of_true (hs : Listens commands p n s)
    (h : s.ollamaResponseHandler env commands r = (true, t)) :
    ∃ p' n', ReadsOn env commands p n r p' n' := by
  rcases hs.stays_or_left env r with hstays | ⟨hleft, -⟩
  · have hdone : r.isModelDone = some false := by
      have hcase := handled_ollamaResponseHandler env commands hs.phase hs.promise r
      rw [h] at hcase
      cases hcase with
      | collects hdone => exact hdone
      | answers _ _ _ hgo | passes _ _ _ hgo => exact (hgo rfl).1
    obtain ⟨res, q, hstep, -, hres⟩ := hs.hears hstays hdone
    have hkeep := hstep
    cases hstep with
    | search | recognize | keep =>
      rcases hs.hears_collects hstays hdone hkeep with ⟨hall, -⟩ | ⟨-, hfalse⟩
      · exact ⟨_, _, .collects hdone hkeep hall⟩
      · rw [h] at hfalse
        cases hfalse
    | @pass D | @release D =>
      cases hj : replaceOllamaText r (D ++ r.asSimpleString) with
      | error e =>
        -- the exception is caught, and the callback returns false
        rw [h] at hres
        simp only [concluded, visitDecision, sendPlainTextToUser, hj, concludeResponse] at hres
        cases hres
      | ok j =>
        rcases hs.hears_releases hstays hdone hkeep hj with ⟨hall, -⟩ | ⟨-, hfalse⟩
        · exact ⟨_, _, .releases hdone hkeep hj hall⟩
        · rw [h] at hfalse
          cases hfalse
    | already =>
      rcases hs.hears_passesOn hstays hdone hkeep with ⟨hall, -⟩ | ⟨-, hfalse⟩
      · exact ⟨_, _, .passesOn hdone hkeep hall⟩
      · rw [h] at hfalse
        cases hfalse
    | fail =>
      rw [h] at hres
      cases hres
  · rw [h] at hleft
    cases hleft

/-- The thread has reported the command `w` for the text `T`, and the next access is the access
`n`. -/
structure HasReported (w T : TString) (n : ℕ) (t : TThread) : Prop where
  promise : t.detectionPromise = some ⟨.ollamaSentAll, w, T⟩
  clock : t.commObject.clock = n
  connected : t.commObject.disconnected = false
  pings : ∃ gen, t.pingGen.ping = some gen

/-- A response with which a command is reported. -/
lemma Listens.reports (hs : Listens commands p n s) (h : Reports env commands p n r w T) :
    ∃ t, s.ollamaResponseHandler env commands r = (false, t) ∧ HasReported w T (n + 1) t := by
  obtain ⟨q, hstep⟩ := h.step
  obtain ⟨-, hres⟩ := hs.hears_step h.stays h.done hstep
  have hp : p ≠ .decided := by
    rintro rfl
    cases hstep
  have hprom : (s.afterUpdate commands r).detectionPromise = none := hs.promise
  rw [hres]
  simp only [concluded, visitDecision, setValue_none hprom, concludeResponse]
  refine ⟨_, rfl, rfl, ?_, hs.connected, hs.pings hp⟩
  show s.commObject.clock + 1 = n + 1
  rw [hs.clock]

/-- If the callback asks for no more, it has seen or set the flag, or it has reported a command. -/
lemma Listens.reports_of_false (hs : Listens commands p n s)
    (h : s.ollamaResponseHandler env commands r = (false, t)) :
    t.commObject.disconnected = true ∨ ∃ w T, Reports env commands p n r w T := by
  have hcase := handled_ollamaResponseHandler env commands hs.phase hs.promise r
  rw [h] at hcase
  cases hcase with
  | stops _ _ hflag => exact Or.inl hflag
  | collects _ _ _ _ _ hflag => exact Or.inl (hflag rfl)
  | answers _ _ _ _ hflag => exact Or.inl (hflag rfl)
  | passes _ _ _ _ hflag => exact Or.inl (hflag rfl)
  | @reports _ detected _ hdone _ hprom =>
    rcases hs.stays_or_left env r with hstays | ⟨hleft, hflag⟩
    · obtain ⟨res, q, hstep, -, hres⟩ := hs.hears hstays hdone
      -- otherwise the thread would only talk, and the promise would be as it was
      have hdetects : ¬∀ status detected, res ≠ .ok (status, .detected detected) := by
        intro hno
        have htalks := onlyTalks_concluded env true r (s.afterUpdate commands r) hno
        rw [← hres, h] at htalks
        have hnone := htalks.detectionPromise.trans hs.promise
        exact absurd (hprom.symm.trans hnone) (by simp)
      have hkeep := hstep
      cases hstep with
      | detect | complete => exact Or.inr ⟨_, _, hdone, hstays, _, hkeep⟩
      | search | pass | already => exact absurd (by simp) hdetects
    · rw [h] at hleft
      rw [(Prod.mk.inj hleft).2]
      exact Or.inl hflag

/-! ## A sequence of responses -/

/-- The thread reads on through all the responses: it begins in the phase `p` at the access `n` and
stands in the phase `p'` at the access `n'` behind them. -/
inductive Undisturbed (env : TEnvironment) (commands : TAiCommands) :
    Phase → ℕ → List TOllamaResponse → Phase → ℕ → Prop
  | nil {p : Phase} {n : ℕ} : Undisturbed env commands p n [] p n
  | cons {p q p' : Phase} {n m n' : ℕ} {r : TOllamaResponse} {rs : List TOllamaResponse}
      (hr : ReadsOn env commands p n r q m) (hrs : Undisturbed env commands q m rs p' n') :
      Undisturbed env commands p n (r :: rs) p' n'

/-- The thread reads on through the first responses, and then reports the command `w` for the text
`T`; the access `m` is the one of the report. -/
def ReportsIn (env : TEnvironment) (commands : TAiCommands) (p : Phase) (n : ℕ)
    (rs : List TOllamaResponse) (m : ℕ) (w T : TString) : Prop :=
  ∃ rs₁ r rs₂ q, rs = rs₁ ++ r :: rs₂ ∧ Undisturbed env commands p n rs₁ q m ∧
    Reports env commands q m r w T

lemma Undisturbed.unfinished (h : Undisturbed env commands p n rs p' n') :
    ∀ r ∈ rs, r.isModelDone = some false := by
  induction h with
  | nil => simp
  | cons hr _ ih =>
    intro x hx
    rcases List.mem_cons.1 hx with rfl | hx
    · exact hr.unfinished
    · exact ih x hx

/-- What is delivered behind responses through which the thread reads on. -/
lemma Undisturbed.deliver (h : Undisturbed env commands p n rs p' n')
    (hs : Listens commands p n s) :
    ∃ t, Listens commands p' n' t ∧
      ∀ rest, deliver env commands (rs ++ rest) s = deliver env commands rest t := by
  induction h generalizing s with
  | nil => exact ⟨s, hs, fun _ => rfl⟩
  | cons hr _ ih =>
    obtain ⟨u, hu, hlistens⟩ := hs.reads_on hr
    obtain ⟨t, ht, hrest⟩ := ih hlistens
    exact ⟨t, ht, fun rest => (deliver_cons_true hu).trans (hrest rest)⟩

lemma Undisturbed.listens (h : Undisturbed env commands p n rs p' n')
    (hs : Listens commands p n s) : Listens commands p' n' (s.deliver env commands rs) := by
  obtain ⟨t, ht, hrest⟩ := h.deliver hs
  have := hrest []
  rw [List.append_nil] at this
  rwa [this]

lemma ReportsIn.hasReported (h : ReportsIn env commands p n rs m w T)
    (hs : Listens commands p n s) : HasReported w T (m + 1) (s.deliver env commands rs) := by
  obtain ⟨rs₁, r, rs₂, q, rfl, hrs₁, hr⟩ := h
  obtain ⟨u, hu, hrest⟩ := hrs₁.deliver hs
  obtain ⟨t, ht, hreported⟩ := hu.reports hr
  rw [hrest, deliver_cons_false ht]
  exact hreported

/-- **How reading ends**: the thread reads on through all the responses, or it reports a command, or
the flag is set. -/
theorem Listens.deliver_cases (hs : Listens commands p n s) (env : TEnvironment)
    (rs : List TOllamaResponse) :
    (∃ p' n', Undisturbed env commands p n rs p' n') ∨
      (∃ m w T, ReportsIn env commands p n rs m w T) ∨
      (s.deliver env commands rs).commObject.disconnected = true := by
  induction rs generalizing p n s with
  | nil => exact Or.inl ⟨p, n, .nil⟩
  | cons r rs ih =>
    rcases hh : s.ollamaResponseHandler env commands r with ⟨b, t⟩
    cases b with
    | false =>
      rw [deliver_cons_false hh]
      rcases hs.reports_of_false hh with hflag | ⟨w, T, hr⟩
      · exact Or.inr (Or.inr hflag)
      · exact Or.inr (Or.inl ⟨n, w, T, [], r, rs, p, rfl, .nil, hr⟩)
    | true =>
      obtain ⟨q, m, hr⟩ := hs.readsOn_of_true hh
      obtain ⟨u, hu, hlistens⟩ := hs.reads_on hr
      obtain rfl : t = u := (Prod.mk.inj (hh.symm.trans hu)).2
      rw [deliver_cons_true hh]
      rcases ih hlistens with ⟨p', n', hrs⟩ | ⟨m', w, T, rs₁, x, rs₂, q', rfl, hrs₁, hx⟩ | hflag
      · exact Or.inl ⟨p', n', .cons hr hrs⟩
      · exact Or.inr (Or.inl ⟨m', w, T, r :: rs₁, x, rs₂, q', rfl, .cons hr hrs₁, hx⟩)
      · exact Or.inr (Or.inr hflag)

end TThread

end OllamaMitm
