import OllamaMitm.ReadingOn

/-!
# Which providers a round calls

The session loop asks the provider of the detected command once, about the whole reply.  But
`Update` asks it too, about what has arrived so far, whenever the text goes on after the response
that completed the keyword.
-/

namespace OllamaMitm

open Lib
open CContentRestorator (statusOf consult)

namespace CContentRestorator

variable {self : CContentRestorator} {commands : TAiCommands} {p : Phase} {r : TOllamaResponse}
variable {now : ℕ} {done : Bool} {w D : TString}

/-! ## The calls of `Update` -/

lemma calls_allReceivedResult : self.allReceivedResult.calls = [] := by
  rw [allReceivedResult]
  split <;> rfl

lemma calls_recognize (status : EReadingBehahve) : (self.recognize status).calls = [] := by
  unfold recognize
  simp only
  split
  · rfl
  · split
    · split
      · rfl
      · exact calls_allReceivedResult
    · split <;> rfl

/-- Where no word is recognised, `Update` calls no provider. -/
lemma calls_update_of_ne (hp : self.Represents p) (hne : ∀ w D, p ≠ .recognized w D) :
    (self.update commands now r).calls = [] := by
  rw [update]
  split
  · rfl
  · simp only
    split
    · rfl
    · next hskip =>
      cases p with
      | searching D =>
        have hund : (self.append r.asSimpleString).isDetected = false := isDetected_of_none hp.2.1
        rw [classify, hund, if_neg (by simp), if_neg (by simp)]
        exact calls_recognize _
      | recognized w D => exact absurd rfl (hne w D)
      | decided => exact absurd hp hskip

/-- On the last chunk of a reply, `Update` calls no provider. -/
lemma calls_update_of_done (hdone : r.isModelDone = some true) :
    (self.update commands now r).calls = [] := by
  rw [update, hdone]
  simp only
  split
  · rfl
  · rw [classify]
    split
    · exact calls_allReceivedResult
    · rw [if_neg (by simp [statusOf])]
      exact calls_recognize _

/-- While the text of a recognised word goes on, `Update` asks its provider about the text. -/
lemma calls_update_recognized (hp : self.Represents (.recognized w D))
    (hw : w ∈ commands.keys) (hdone : r.isModelDone = some false) :
    (self.update commands now r).calls = [⟨w, D ++ r.asSimpleString⟩] := by
  obtain ⟨hdet, hword, hclass⟩ := classify_of_recognized commands now hp hdone
  obtain ⟨i, hi, -, -, rfl, -⟩ := hp
  obtain ⟨cmd, hcmd⟩ := TAiCommands.exists_of_mem_keys hw
  rw [hclass, classify, if_neg (by simp [statusOf]), if_pos ⟨hdet, rfl⟩, askProvider, hword,
    TAiCommands.atKey_of_find? hcmd]
  simp only
  split <;> rfl

end CContentRestorator

namespace TThread

variable {env : TEnvironment} {commands : TAiCommands} {s t u : TThread} {r : TOllamaResponse}
variable {rs seen : List TOllamaResponse} {p : Phase} {done : Bool} {text T w D : TString}
variable {W : List TString} {clock : ℕ}

lemma OnlyTalks.calls (h : OnlyTalks s t) : t.calls = s.calls := by
  obtain ⟨gen, comm, rfl⟩ := h
  rfl

/-! ## When `Update` asks -/

/-- A chunk that is not the last one comes, while the user is there, when a word already begins the
text.  The `Update` of the first chunk of `rs` happens one access after the instant `clock`, and a
chunk that is only collected takes three accesses. -/
def Consulted (env : TEnvironment) (W : List TString) (clock : ℕ) (seen rs : List TOllamaResponse) :
    Prop :=
  ∃ rs₁ r rs₂, rs = rs₁ ++ r :: rs₂ ∧ rs₂ ≠ [] ∧ seen ++ rs₁ ≠ [] ∧
    (∃ w ∈ W, w <+: textOf (seen ++ rs₁)) ∧
    ∀ n ≤ 3 * rs₁.length, env.userLeft (clock + n) = false

/-- Only the set of words matters. -/
lemma Consulted.of_mem_iff {V : List TString} (hVW : ∀ x, x ∈ V ↔ x ∈ W)
    (h : Consulted env W clock seen rs) : Consulted env V clock seen rs := by
  obtain ⟨rs₁, r, rs₂, hrs, hne, hseen, ⟨w, hw, hpre⟩, hstays⟩ := h
  exact ⟨rs₁, r, rs₂, hrs, hne, hseen, ⟨w, (hVW w).2 hw, hpre⟩, hstays⟩

lemma not_consulted_singleton : ¬Consulted env W clock seen [r] := by
  rintro ⟨rs₁, r', rs₂, hrs, hne, -⟩
  exact hne (eq_nil_of_singleton_eq hrs)

lemma consulted_cons : Consulted env W clock seen (r :: rs) ↔
    (rs ≠ [] ∧ seen ≠ [] ∧ (∃ w ∈ W, w <+: textOf seen) ∧ env.userLeft clock = false) ∨
      ((∀ n < 3, env.userLeft (clock + n) = false) ∧
        Consulted env W (clock + 3) (seen ++ [r]) rs) := by
  constructor
  · rintro ⟨rs₁, r', rs₂, hrs, hne, hseen, hw, hstays⟩
    cases rs₁ with
    | nil =>
      obtain ⟨rfl, rfl⟩ := List.cons.inj hrs
      exact Or.inl ⟨hne, by simpa using hseen, by simpa using hw, hstays 0 (by simp)⟩
    | cons x rs₁ =>
      obtain ⟨rfl, rfl⟩ := List.cons.inj hrs
      rw [List.length_cons] at hstays
      refine Or.inr ⟨fun n hn => hstays n (by omega), rs₁, r', rs₂, rfl, hne, by simp,
        by simpa using hw, fun n hn => ?_⟩
      rw [Nat.add_assoc]
      exact hstays (3 + n) (by omega)
  · rintro (⟨hne, hseen, hw, hstays⟩ | ⟨hthree, rs₁, r', rs₂, rfl, hne, hseen, hw, hstays⟩)
    · refine ⟨[], r, rs, rfl, hne, by simpa using hseen, by simpa using hw, fun n hn => ?_⟩
      obtain rfl : n = 0 := by simpa using hn
      exact hstays
    · refine ⟨r :: rs₁, r', rs₂, rfl, hne, by simp, by simpa using hw, fun n hn => ?_⟩
      rw [List.length_cons] at hn
      rcases Nat.lt_or_ge n 3 with hlt | hge
      · exact hthree n hlt
      · have := hstays (n - 3) (by omega)
        rwa [show clock + 3 + (n - 3) = clock + n by omega] at this

/-! ## Calls while a reply is read -/

lemma calls_afterUpdate : (s.afterUpdate commands r).calls
    = s.calls ++ (s.commandDetector.update commands (s.commObject.clock + 1) r).calls := rfl

/-- Once the detector has decided, nothing is called or reported. -/
lemma deliver_of_decided (hall : ∀ r ∈ rs, ∃ done, IsChunk r r.asSimpleString done)
    (hp : s.commandDetector.Represents .decided) :
    (deliver env commands rs s).calls = s.calls ∧
      (deliver env commands rs s).detectionPromise = s.detectionPromise := by
  induction rs generalizing s with
  | nil => exact ⟨rfl, rfl⟩
  | cons r rs ih =>
    rcases stays_or_left env s with ⟨hflag, hstays⟩ | hleft
    · obtain ⟨done, hr⟩ := hall r (by simp)
      obtain ⟨res, p', hstep, hp', hres⟩ := hears_chunk commands hstays hflag hp hr.modelDone
      have hnone : (s.commandDetector.update commands (s.commObject.clock + 1) r).calls = [] :=
        CContentRestorator.calls_update_of_ne hp (by simp)
      have htalks : OnlyTalks (s.afterUpdate commands r)
          (s.ollamaResponseHandler env commands r).2 := by
        rw [hres]
        cases hstep
        exact onlyTalks_concluded env done r _ (by simp)
      obtain rfl : p' = .decided := by cases hstep; rfl
      rcases hh : s.ollamaResponseHandler env commands r with ⟨b, t⟩
      rw [hh] at htalks
      have hcalls : t.calls = s.calls := by
        rw [htalks.calls, calls_afterUpdate, hnone, List.append_nil]
      have hprom : t.detectionPromise = s.detectionPromise := htalks.detectionPromise
      cases b with
      | false =>
        rw [deliver_cons_false hh]
        exact ⟨hcalls, hprom⟩
      | true =>
        have hpt : t.commandDetector.Represents .decided := by
          rw [htalks.commandDetector]
          exact hp'
        obtain ⟨hcalls', hprom'⟩ := ih (fun r' hr' => hall r' (by simp [hr'])) hpt
        rw [deliver_cons_true hh]
        exact ⟨hcalls'.trans hcalls, hprom'.trans hprom⟩
    · rw [deliver_cons_false (ollamaResponseHandler_of_left hleft)]
      exact ⟨rfl, rfl⟩

/-- How the chunks `rs` of a reply are read, when the chunks `seen` came before: the providers
called on the way, and what may be reported in the end. -/
structure Asks (env : TEnvironment) (W : List TString) (s : TThread)
    (seen rs : List TOllamaResponse) (T : TString) (t : TThread) : Prop where
  calls : ∃ more, t.calls = s.calls ++ more ∧
    (more = [] ↔ ¬Consulted env W s.commObject.clock seen rs)
  reported : ∀ detected, t.detectionPromise = some detected →
    ∃ w ∈ W, detected = ⟨.ollamaSentAll, w, T⟩

/-- Nothing is asked and nothing is reported. -/
lemma Asks.of_calls (hcalls : t.calls = s.calls) (hprom : t.detectionPromise = none)
    (hno : ¬Consulted env W s.commObject.clock seen rs) : Asks env W s seen rs T t :=
  ⟨⟨[], by rw [hcalls, List.append_nil], iff_of_true rfl hno⟩,
    fun _ hd => absurd (hprom.symm.trans hd) (by simp)⟩

/-- The last chunk. -/
lemma asks_last (hr : IsChunk r text true) (hflag : s.commObject.disconnected = false)
    (hprom : s.detectionPromise = none) (hW : s.commandDetector.words = W)
    (hp : s.commandDetector.Represents p) (hund : Undecided W seen p) :
    Asks env W s seen [r] (textOf seen ++ text) (deliver env commands [r] s) := by
  rcases stays_or_left env s with ⟨-, hstays⟩ | hleft
  · obtain ⟨res, p', hstep, -, hres⟩ := hears_chunk commands hstays hflag hp hr.modelDone
    rw [hW] at hstep
    have hnone : (s.commandDetector.update commands (s.commObject.clock + 1) r).calls = [] :=
      CContentRestorator.calls_update_of_done hr.modelDone
    have hcalls : (s.afterUpdate commands r).calls = s.calls := by
      rw [calls_afterUpdate, hnone, List.append_nil]
    have hprom' : (s.afterUpdate commands r).detectionPromise = none := hprom
    have hdeliver : deliver env commands [r] s = (s.ollamaResponseHandler env commands r).2 := by
      rcases hh : s.ollamaResponseHandler env commands r with ⟨b, t⟩
      cases b with
      | true => rw [deliver_cons_true hh]; rfl
      | false => rw [deliver_cons_false hh]
    have htext : textOf (seen ++ [r]) = textOf seen ++ text := by simp [hr.simpleString]
    rw [hdeliver, hres]
    rcases hund.step_last hstep with ⟨hsent, -⟩ | ⟨w, rfl, hw⟩
    · have hno : ∀ status detected, res ≠ .ok (status, .detected detected) := by
        rcases hsent with rfl | rfl <;> simp
      have htalks := onlyTalks_concluded env true r (s.afterUpdate commands r) hno
      exact .of_calls (htalks.calls.trans hcalls) (htalks.detectionPromise.trans hprom')
        not_consulted_singleton
    · rw [htext]
      simp only [concluded, visitDecision, setValue_none hprom', concludeResponse]
      refine ⟨⟨[], by rw [hcalls, List.append_nil], iff_of_true rfl not_consulted_singleton⟩, ?_⟩
      intro detected hd
      exact ⟨w, hw.mem, (Option.some.inj hd).symm⟩
  · rw [deliver_cons_false (ollamaResponseHandler_of_left hleft)]
    exact .of_calls rfl hprom not_consulted_singleton

/-- What the `Update` of a chunk that is not the last one asks. -/
lemma calls_afterUpdate_iff (hkeys : ∀ w ∈ W, w ∈ commands.keys)
    (hp : s.commandDetector.Represents p) (hund : Undecided W seen p)
    (hdone : r.isModelDone = some false) :
    ∃ asked, (s.afterUpdate commands r).calls = s.calls ++ asked ∧
      (asked = [] ↔ ¬(seen ≠ [] ∧ ∃ w ∈ W, w <+: textOf seen)) := by
  refine ⟨_, calls_afterUpdate, ?_⟩
  cases p with
  | searching D =>
    obtain ⟨rfl, hno⟩ := hund
    refine iff_of_true (CContentRestorator.calls_update_of_ne hp (by simp)) ?_
    rintro ⟨hne, w, hw, hpre⟩
    exact hno hne w hw hpre
  | recognized w D =>
    obtain ⟨rfl, hne, hw⟩ := hund
    rw [CContentRestorator.calls_update_recognized hp (hkeys w hw.mem) hdone]
    exact iff_of_false (by simp) (not_not.2 ⟨hne, w, hw.mem, hw.isPrefix⟩)
  | decided => exact absurd hund id

/-- A chunk that is not the last one, when reading goes on from the thread `t` or stops there. -/
lemma calls_deliver_cons (h : (s.ollamaResponseHandler env commands r).2 = t)
    (hrest : ((deliver env commands rs t).calls = t.calls ∧
      (deliver env commands rs t).detectionPromise = t.detectionPromise) ∨
      (s.ollamaResponseHandler env commands r).1 = false) :
    (deliver env commands (r :: rs) s).calls = t.calls ∧
      (deliver env commands (r :: rs) s).detectionPromise = t.detectionPromise := by
  rcases hh : s.ollamaResponseHandler env commands r with ⟨b, t'⟩
  rw [hh] at h hrest
  obtain rfl : t' = t := h
  cases b with
  | false =>
    rw [deliver_cons_false hh]
    exact ⟨rfl, rfl⟩
  | true =>
    rw [deliver_cons_true hh]
    exact hrest.resolve_right (by simp)

/-- A chunk was collected while the user was there at its three accesses, or reading stops. -/
lemma concludeResponse_keepGoing_cases (env : TEnvironment)
    (hu : u.commObject.disconnected = false) :
    (env.userLeft u.commObject.clock = false ∧ env.userLeft (u.commObject.clock + 1) = false ∧
      concludeResponse env .ollamaHasMore (u.keepGoing env) = (true, u.tick 2)) ∨
    (¬(env.userLeft u.commObject.clock = false ∧ env.userLeft (u.commObject.clock + 1) = false) ∧
      (concludeResponse env .ollamaHasMore (u.keepGoing env)).1 = false) := by
  by_cases hgo : env.userLeft u.commObject.clock = false ∧
      env.userLeft (u.commObject.clock + 1) = false
  · exact Or.inl ⟨hgo.1, hgo.2, concludeResponse_keepGoing_of_stays hgo.1 hgo.2 hu⟩
  · refine Or.inr ⟨hgo, ?_⟩
    rcases concludeResponse_watches (Watches.refl env u) hu with ⟨hstays, -⟩ | ⟨-, hfalse⟩
    · exact absurd (TEnvironment.staysFor_two.1 hstays) hgo
    · exact hfalse

/-- What is asked from the next chunk on, when the chunk `r` is not the last one. -/
lemma asks_rest (hrs : IsReply T rs) (hr : IsChunk r text false)
    (hflag : s.commObject.disconnected = false) (hprom : s.detectionPromise = none)
    (hW : s.commandDetector.words = W) (hp : s.commandDetector.Represents p)
    (hund : Undecided W seen p) (hstays : env.userLeft s.commObject.clock = false)
    (ih : ∀ p', ((s.afterUpdate commands r).tick 2).commandDetector.Represents p' →
      Undecided W (seen ++ [r]) p' → Asks env W ((s.afterUpdate commands r).tick 2) (seen ++ [r]) rs
        (textOf (seen ++ [r]) ++ T) (deliver env commands rs ((s.afterUpdate commands r).tick 2))) :
    ∃ more, (deliver env commands (r :: rs) s).calls = (s.afterUpdate commands r).calls ++ more ∧
      (¬(seen ≠ [] ∧ ∃ w ∈ W, w <+: textOf seen) →
        (more = [] ↔ ¬((∀ n < 3, env.userLeft (s.commObject.clock + n) = false) ∧
          Consulted env W (s.commObject.clock + 3) (seen ++ [r]) rs))) ∧
      ∀ detected, (deliver env commands (r :: rs) s).detectionPromise = some detected →
        ∃ w ∈ W, detected = ⟨.ollamaSentAll, w, textOf (seen ++ [r]) ++ T⟩ := by
  obtain ⟨res, p', hstep, hp', hres⟩ := hears_chunk commands hstays hflag hp hr.modelDone
  rw [hW] at hstep
  set u := s.afterUpdate commands r with hu
  have hflagu : u.commObject.disconnected = false := hflag
  have hpromu : u.detectionPromise = none := hprom
  -- nothing more is asked where the thread only talks and then stops, or has decided
  have hquiet : ∀ t, OnlyTalks u t → (deliver env commands (r :: rs) s).calls = t.calls ∧
      (deliver env commands (r :: rs) s).detectionPromise = t.detectionPromise →
      (deliver env commands (r :: rs) s).calls = u.calls ++ [] ∧
        ∀ detected, (deliver env commands (r :: rs) s).detectionPromise = some detected →
          ∃ w ∈ W, detected = ⟨.ollamaSentAll, w, textOf (seen ++ [r]) ++ T⟩ := by
    rintro t htalks ⟨hcalls, hprom'⟩
    refine ⟨by rw [hcalls, htalks.calls, List.append_nil], fun detected hd => ?_⟩
    rw [hprom', htalks.detectionPromise, hpromu] at hd
    cases hd
  rcases hund.step_more hstep with ⟨rfl, hund', -⟩ | ⟨rfl, rfl, hrel⟩ | ⟨w, e, hw, he, rfl⟩
  · have hhandler : s.ollamaResponseHandler env commands r
        = concludeResponse env .ollamaHasMore (u.keepGoing env) := hres
    rcases concludeResponse_keepGoing_cases env hflagu with ⟨hfirst, hsecond, hgo⟩ | ⟨hno, hstop⟩
    · -- the chunk is collected
      obtain ⟨⟨more, hmore, hiff⟩, hreported⟩ := ih p' hp' hund'
      rw [deliver_cons_true (hhandler.trans hgo)]
      refine ⟨more, hmore,
        fun _ => hiff.trans (not_congr ⟨fun h => ⟨fun n hn => ?_, h⟩, And.right⟩), hreported⟩
      obtain rfl | rfl | rfl : n = 0 ∨ n = 1 ∨ n = 2 := by omega
      · exact hstays
      · exact hfirst
      · exact hsecond
    · -- the user has left
      have htalks : OnlyTalks u (s.ollamaResponseHandler env commands r).2 := by
        rw [hhandler]
        exact (onlyTalks_isDisconnected env u).trans (onlyTalks_concludeResponse env _ _)
      obtain ⟨hcalls, hreported⟩ := hquiet _ htalks
        (calls_deliver_cons rfl (Or.inr (by rw [hhandler, hstop])))
      refine ⟨[], hcalls, fun _ => iff_of_true rfl ?_, hreported⟩
      rintro ⟨hthree, -⟩
      exact hno ⟨hthree 1 (by omega), hthree 2 (by omega)⟩
  · -- the text is released
    have htalks : OnlyTalks u (s.ollamaResponseHandler env commands r).2 := by
      rw [hres]
      exact onlyTalks_concluded env false r u (by simp)
    have hdecided : (s.ollamaResponseHandler env commands r).2.commandDetector.Represents
        .decided := by
      rw [htalks.commandDetector]
      exact hp'
    obtain ⟨hcalls, hreported⟩ := hquiet _ htalks (calls_deliver_cons rfl
      (Or.inl (deliver_of_decided (fun r' hr' => hrs.exists_isChunk r' hr') hdecided)))
    refine ⟨[], hcalls, fun hnone => iff_of_true rfl ?_, hreported⟩
    rintro ⟨-, rs₁, r', rs₂, -, -, -, ⟨w, hw, hpre⟩, -⟩
    rcases hrel with hall | ⟨hseen, v, x, hv, -⟩
    · rw [textOf_append (seen ++ [r])] at hpre
      exact (hall w hw).1
        (List.prefix_of_prefix_length_le hpre (List.prefix_append _ _) (hall w hw).2)
    · exact hnone ⟨hseen, v, hv.mem, hv.isPrefix⟩
  · -- a command fails
    obtain ⟨hcalls, hreported⟩ := hquiet u.disconnectAll (onlyTalks_disconnectAll u)
      (calls_deliver_cons (by rw [hres]; rfl) (Or.inr (by rw [hres]; rfl)))
    refine ⟨[], hcalls, fun hnone => ?_, hreported⟩
    cases p with
    | searching D => cases hstep
    | recognized v D =>
      obtain ⟨rfl, hseen, hv⟩ := hund
      exact absurd ⟨hseen, v, hv.mem, hv.isPrefix⟩ hnone
    | decided => exact absurd hund id

/-- **Which providers are called while a reply is read.** -/
lemma asks_deliver (hkeys : ∀ w ∈ W, w ∈ commands.keys) (hrs : IsReply T rs)
    (hflag : s.commObject.disconnected = false) (hprom : s.detectionPromise = none)
    (hW : s.commandDetector.words = W) (hp : s.commandDetector.Represents p)
    (hund : Undecided W seen p) :
    Asks env W s seen rs (textOf seen ++ T) (deliver env commands rs s) := by
  induction hrs generalizing s seen p with
  | last hr => exact asks_last hr hflag hprom hW hp hund
  | @more r rs text rest hr hrs ih =>
    have hne : rs ≠ [] := by cases hrs <;> simp
    have htext : textOf (seen ++ [r]) = textOf seen ++ text := by simp [hr.simpleString]
    rcases stays_or_left env s with ⟨-, hstays⟩ | hleft
    · obtain ⟨asked, hasked, hiff⟩ := calls_afterUpdate_iff hkeys hp hund hr.modelDone
      obtain ⟨more, hmore, hmoreiff, hreported⟩ :=
        asks_rest hrs hr hflag hprom hW hp hund hstays fun p' hp' hund' =>
          ih hflag hprom (words_afterUpdate.trans hW) hp' hund'
      rw [htext, List.append_assoc] at hreported
      refine ⟨⟨asked ++ more, by rw [hmore, hasked, List.append_assoc], ?_⟩, hreported⟩
      rw [List.append_eq_nil_iff, consulted_cons]
      constructor
      · rintro ⟨hnil, hnil'⟩ (⟨-, hseen, hw, -⟩ | hlater)
        · exact hiff.1 hnil ⟨hseen, hw⟩
        · exact (hmoreiff (hiff.1 hnil)).1 hnil' hlater
      · intro hno
        have hnone : ¬(seen ≠ [] ∧ ∃ w ∈ W, w <+: textOf seen) := fun ⟨hseen, hw⟩ =>
          hno (Or.inl ⟨hne, hseen, hw, hstays⟩)
        exact ⟨hiff.2 hnone, (hmoreiff hnone).2 fun hlater => hno (Or.inr hlater)⟩
    · rw [deliver_cons_false (ollamaResponseHandler_of_left hleft)]
      refine .of_calls rfl hprom ?_
      have hleft' : env.userLeft s.commObject.clock = true := by
        simpa [isDisconnected, TCommObject.isDisconnected, hflag] using hleft
      rw [consulted_cons]
      rintro (⟨-, -, -, hstays⟩ | ⟨hthree, -⟩)
      · exact absurd (hleft'.symm.trans hstays) (by simp)
      · exact absurd (hleft'.symm.trans (hthree 0 (by omega))) (by simp)

/-! ## Calls of the session loop -/

variable {parsedUserJson request : Json} {detected : TDetected} {chat : TChat} {model : TString}

lemma calls_ping : (s.ping env).calls = s.calls := (onlyTalks_ping env s).calls

lemma calls_finish : (s.finish env).calls = s.calls := (onlyTalks_finish env s).calls

@[simp] lemma calls_isThreadLoopingYet : (s.isThreadLoopingYet env).calls = s.calls := by
  obtain ⟨comm, stop, h⟩ := isThreadLoopingYet_eq env s
  rw [h]

@[simp] lemma calls_atFuture : (s.atFuture env).calls = s.calls := by simp [atFuture]

/-- The provider of the command is called once, about the whole text. -/
lemma calls_makeResponseForCommand (env : TEnvironment) (parsedUserJson : Json) (s : TThread)
    (hw : detected.whatDetected ∈ commands.keys) :
    (s.makeResponseForCommand env commands parsedUserJson detected).2.calls
      = s.calls ++ [⟨detected.whatDetected, detected.collectedString⟩] := by
  obtain ⟨cmd, hcmd⟩ := TAiCommands.exists_of_mem_keys hw
  simp only [makeResponseForCommand, hcmd]
  split
  · simp only [calls_ping]
  · simp only [calls_ping]
  · simp only [calls_ping]
  · simp only [calls_ping]

lemma calls_respondRequest (cmd : TString) (forOllama : Json) :
    (s.respondRequest parsedUserJson cmd forOllama).2.calls = s.calls := by
  cases hnext : nextRequest parsedUserJson s cmd forOllama with
  | error e => rw [respondRequest_error hnext]
  | ok request => rw [respondRequest_ok hnext]

lemma calls_finishInnerLoop (res : Except TException Json × TThread) :
    (finishInnerLoop env res).2.calls = res.2.calls := by
  obtain ⟨e | request, t⟩ := res
  · rfl
  · exact calls_finish

/-- Handling the command calls nothing else. -/
lemma calls_handleCommand (env : TEnvironment) (parsedUserJson : Json) (s : TThread)
    (model : TString) (hw : detected.whatDetected ∈ commands.keys) :
    (finishInnerLoop env (s.handleCommand env commands parsedUserJson model detected)).2.calls
      = s.calls ++ [⟨detected.whatDetected, detected.collectedString⟩] := by
  have hcalls := calls_makeResponseForCommand env parsedUserJson s hw
  rw [calls_finishInnerLoop, handleCommand]
  rcases hres : s.makeResponseForCommand env commands parsedUserJson detected with
    ⟨e | x | forOllama, t⟩
  · rw [hres] at hcalls
    exact hcalls
  · rw [hres] at hcalls
    refine Eq.trans ?_ hcalls
    exact calls_respondRequest detected.whatDetected x
  · rw [hres] at hcalls
    refine Eq.trans ?_ hcalls
    exact (onlyTalks_sendToUser env _ _).calls.trans calls_finish

/-- From the chat call on, the session loop calls the provider of the reported command, or none. -/
lemma calls_endRound (env : TEnvironment) (parsedUserJson : Json) (model : TString) (chat : TChat)
    (hkeys : ∀ detected,
      (s.deliver env commands chat.responses).detectionPromise = some detected →
        detected.whatDetected ∈ commands.keys) :
    (s.endRound env commands parsedUserJson model chat).2.calls
        = (s.deliver env commands chat.responses).calls ∨
      ∃ detected, (s.deliver env commands chat.responses).detectionPromise = some detected ∧
        (s.endRound env commands parsedUserJson model chat).2.calls
          = (s.deliver env commands chat.responses).calls
            ++ [⟨detected.whatDetected, detected.collectedString⟩] := by
  unfold endRound
  simp only
  cases chat.failure with
  | some e => exact Or.inl rfl
  | none =>
    simp only [innerLoop]
    split
    · split
      · rw [getFuture]
        split
        · exact Or.inl (by simp)
        · next detected hprom =>
          have hprom' : (s.deliver env commands chat.responses).detectionPromise
              = some detected := by
            simpa using hprom
          refine Or.inr ⟨detected, hprom', ?_⟩
          rw [calls_handleCommand env _ _ _ (hkeys _ hprom')]
          simp
      · exact Or.inl (calls_finish.trans (by simp))
    · exact Or.inl (calls_finish.trans (by simp))

/-- The head of the loop calls nothing. -/
lemma calls_threadLoop_nil (env : TEnvironment) (commands : TAiCommands)
    (parsedUserJson request : Json) (s : TThread) :
    (threadLoop env commands parsedUserJson [] request s).2.calls = s.calls := by
  rcases head_cases env parsedUserJson request s with hstop | ⟨hl, hr, ⟨e, hm⟩ | ⟨model, hm⟩⟩
  · have htalks := (onlyTalks_finish env (s.isThreadLoopingYet env)).trans
      (onlyTalks_disconnectAll _)
    rw [threadLoop_of_stop hstop]
    exact htalks.calls.trans (by simp)
  · rw [threadLoop_of_error hl hr hm]
    simp
  · rw [threadLoop_nil hl hr hm]
    simp [beginRound, restart]

end TThread

open TThread

variable {env : TEnvironment} {commands : TAiCommands} {user : TUserRequest} {std : LengthSort}
variable {chats : List TChat} {chat : TChat} {s t d : TThread} {rs : List TOllamaResponse}
variable {T : TString} {f : TFollowUp} {status : TThreadStatus}

/-- What follows a round only sends the next request, or ends the session. -/
lemma books_nextRound (env : TEnvironment) (commands : TAiCommands) (user : TUserRequest)
    (s : TThread) (chat : TChat) :
    let u := (s.endRound env commands user.parsedUserJson user.model chat).2
    let t := (nextRound env commands user.parsedUserJson chat (.waiting, s)).2
    t.followUps = u.followUps ∧ t.calls = u.calls := by
  simp only [nextRound, user.modelOf_parsedUserJson]
  rcases s.endRound env commands user.parsedUserJson user.model chat with ⟨e | request, u⟩
  · exact ⟨rfl, rfl⟩
  · exact ⟨followUps_threadLoop_nil env commands user.parsedUserJson request u,
      calls_threadLoop_nil env commands user.parsedUserJson request u⟩

/-- A round that prepares a follow-up has handled the command that was reported. -/
lemma calls_nextRound (user : TUserRequest) (chat : TChat)
    (hkeys : ∀ detected,
      (s.deliver env commands chat.responses).detectionPromise = some detected →
        detected.whatDetected ∈ commands.keys)
    (hf : (nextRound env commands user.parsedUserJson chat (.waiting, s)).2.followUps
      = s.followUps ++ [f]) :
    ∃ detected, (s.deliver env commands chat.responses).detectionPromise = some detected ∧
      f.command = detected.whatDetected ∧
      (nextRound env commands user.parsedUserJson chat (.waiting, s)).2.calls
        = (s.deliver env commands chat.responses).calls
          ++ [⟨detected.whatDetected, detected.collectedString⟩] := by
  obtain ⟨hafter, hafter'⟩ := books_nextRound env commands user s chat
  have hend := roundEnding_endRound env commands user.parsedUserJson s user.model chat
  have hbooks := sameBooks_deliver env commands chat.responses s
  rcases hround : s.endRound env commands user.parsedUserJson user.model chat with ⟨res, u⟩
  rw [hround] at hafter hafter' hend
  rw [hafter] at hf
  have hgrows : u.followUps ≠ s.followUps := by
    rw [hf]
    exact fun heq => absurd (congrArg List.length heq) (by simp)
  cases hend with
  | chatThrows => exact absurd hbooks.followUps hgrows
  | brokenPromise => exact absurd (followUps_atFuture.trans hbooks.followUps) hgrows
  | stops _ _ _ hfollowUps => exact absurd hfollowUps hgrows
  | @command detected _ _ hfail hprom hlooping hcommand =>
    have hsame : ((s.deliver env commands chat.responses).atFuture env).followUps = s.followUps :=
      followUps_atFuture.trans hbooks.followUps
    have hcalls : u.calls = (s.deliver env commands chat.responses).calls
        ++ [⟨detected.whatDetected, detected.collectedString⟩] := by
      have heq := endRound_of_reported user.parsedUserJson user.model hfail hprom hlooping
      rw [hround] at heq
      have hu : u = (finishInnerLoop env _).2 := congrArg Prod.snd heq
      rw [hu, calls_handleCommand env _ _ _ (hkeys _ hprom), calls_atFuture]
    refine ⟨detected, hprom, ?_, hafter'.trans hcalls⟩
    cases hcommand with
    | throws _ hfollowUps => exact absurd (hfollowUps.trans hsame) hgrows
    | answers _ _ hfollowUps => exact absurd (hfollowUps.trans hsame) hgrows
    | @followsUp _ f' hf' =>
      have hlast := hf'.followUps
      rw [hf, hsame, List.append_cancel_left_eq] at hlast
      rw [(List.cons.inj hlast).1, hf'.command]

/-- The commands of the round were run once, on the complete reply: while the reply was still
incomplete no provider was called, then none was called about anything but the whole reply, and if
the round prepares a follow-up, the provider of its command was called once. -/
structure RunsOnce (s d t : TThread) (T : TString) : Prop where
  incomplete : d.calls = s.calls
  whole : ∃ made, t.calls = d.calls ++ made ∧ ∀ call ∈ made, call.request = T
  complete : ∀ f, t.followUps = s.followUps ++ [f] → t.calls = s.calls ++ [⟨f.command, T⟩]

/-- **When a command is run once, on the complete reply.**  A waiting thread receives a reply in
any chunks.  The command is run once, on the complete reply, if and only if no keyword begins the
text of the reply without its last two chunks, or the user leaves before `Update` would ask. -/
theorem runsOnce_iff
    (hs : threadedOllama env commands user.parsedUserJson std chats = (.waiting, s))
    (hrs : IsReply T rs) :
    RunsOnce s (s.deliver env commands rs)
        (threadedOllama env commands user.parsedUserJson std (chats ++ [⟨rs, none⟩])).2 T ↔
      ¬Consulted env commands.keys s.commObject.clock [] rs := by
  obtain ⟨hreads, hdet, -⟩ := reads_of_waiting hs
  have hmem : ∀ w, w ∈ s.commandDetector.words ↔ w ∈ commands.keys := mem_words_of_waiting hs
  have hasks : Asks env s.commandDetector.words s [] rs T (s.deliver env commands rs) := by
    by_cases hnil : s.commandDetector.words = []
    · rw [Phase.initial, if_pos hnil] at hdet
      have hquiet : (s.deliver env commands rs).calls = s.calls ∧ _ :=
        deliver_of_decided (fun r hr => hrs.exists_isChunk r hr) hdet
      refine .of_calls hquiet.1 (hquiet.2.trans hreads.promise) ?_
      rintro ⟨-, -, -, -, -, -, ⟨w, hw, -⟩, -⟩
      rw [hnil] at hw
      exact List.not_mem_nil hw
    · rw [Phase.initial, if_neg hnil] at hdet
      exact asks_deliver (fun w hw => (hmem w).1 hw) hrs hreads.connected hreads.promise rfl hdet
        undecided_nil
  obtain ⟨⟨more, hmore, hiff⟩, hreported⟩ := hasks
  have hiff' : more = [] ↔ ¬Consulted env commands.keys s.commObject.clock [] rs :=
    hiff.trans (not_congr ⟨.of_mem_iff fun w => (hmem w).symm, .of_mem_iff hmem⟩)
  constructor
  · rintro ⟨hincomplete, -⟩
    rw [hincomplete, List.self_eq_append_right] at hmore
    exact hiff'.1 hmore
  · intro hno
    have hincomplete : (s.deliver env commands rs).calls = s.calls := by
      rw [hmore, hiff'.2 hno, List.append_nil]
    have hkeys : ∀ detected, (s.deliver env commands rs).detectionPromise = some detected →
        detected.whatDetected ∈ commands.keys := by
      intro detected hd
      obtain ⟨w, hw, rfl⟩ := hreported detected hd
      exact (hmem w).1 hw
    rw [threadedOllama_snoc, hs]
    refine ⟨hincomplete, ?_, fun f hf => ?_⟩
    · rw [(books_nextRound env commands user s ⟨rs, none⟩).2]
      rcases calls_endRound env user.parsedUserJson user.model ⟨rs, none⟩ hkeys with
        hcalls | ⟨detected, hprom, hcalls⟩
      · exact ⟨[], by rw [hcalls, List.append_nil], by simp⟩
      · obtain ⟨w, -, rfl⟩ := hreported detected hprom
        exact ⟨_, hcalls, by simp⟩
    · obtain ⟨detected, hprom, hcommand, hcalls⟩ := calls_nextRound user ⟨rs, none⟩ hkeys hf
      obtain ⟨w, -, rfl⟩ := hreported detected hprom
      rw [hcalls, hcommand]
      exact congrArg (fun l => l ++ [_]) hincomplete

/-- The built-in keyword and a line end, in the last two chunks. -/
theorem runsOnce_iff_two :
    let commands := getAiCommandsList fun _ _ => .ok (lit "Monday")
    let user := TUserRequest.ofMessage (lit "m") (lit "What time is it?")
    let rs := [.ofText (lit "AI_DATE_TIME_NOW") false, .ofText (lit "\n") true]
    let s := (threadedOllama .quiet commands user.parsedUserJson .stable []).2
    RunsOnce s (s.deliver .quiet commands rs)
      (threadedOllama .quiet commands user.parsedUserJson .stable [⟨rs, none⟩]).2
      (lit "AI_DATE_TIME_NOW" ++ lit "\n") := by
  intro commands user rs s
  have hs : threadedOllama .quiet commands user.parsedUserJson .stable [] = (.waiting, s) :=
    eq_waiting (by decide)
  refine (runsOnce_iff hs (.more (isChunk_ofText _ _) (isReply_ofText _))).2 ?_
  rintro ⟨rs₁, r, rs₂, hrs, hne, hseen, -⟩
  have hlen := congrArg List.length hrs
  have hpos := List.length_pos_iff.2 hne
  have hpos' := List.length_pos_iff.2 (by simpa using hseen : rs₁ ≠ [])
  simp only [List.length_cons, List.length_append, List.length_nil] at hlen
  omega

/-- The built-in keyword and a line end in each of two more chunks: the provider is asked about a
part of the reply, and then again about the whole reply. -/
theorem not_runsOnce_three :
    let commands := getAiCommandsList fun _ _ => .ok (lit "Monday")
    let user := TUserRequest.ofMessage (lit "m") (lit "What time is it?")
    let w := lit "AI_DATE_TIME_NOW"
    let rs := [.ofText w false, .ofText (lit "\n") false, .ofText (lit "\n") true]
    let s := (threadedOllama .quiet commands user.parsedUserJson .stable []).2
    let σ := threadedOllama .quiet commands user.parsedUserJson .stable [⟨rs, none⟩]
    σ.1 = .waiting ∧ σ.2.followUps.length = 1 ∧
      σ.2.calls = [⟨w, w ++ lit "\n"⟩, ⟨w, w ++ lit "\n" ++ lit "\n"⟩] ∧
      ¬RunsOnce s (s.deliver .quiet commands rs) σ.2 (w ++ lit "\n" ++ lit "\n") := by
  intro commands user w rs s σ
  have hcalls : (s.deliver .quiet commands rs).calls ≠ s.calls := by decide
  exact ⟨by decide, by decide, by decide, fun h => hcalls h.incomplete⟩

end OllamaMitm
