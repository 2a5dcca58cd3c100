import OllamaMitm.Chunking

/-!
# A model that repeats itself

The loop detector does not end the session: it replaces the answer of the command by a warning.
So a model may give the same keyword in every round and is asked again and again, but it receives
the answer of the command only in the first of these rounds, and again when the counter wraps.
-/

namespace OllamaMitm

open Lib TThread
open CAiLoopDetector (kMaxRepeats)

variable {env : TEnvironment} {commands : TAiCommands} {parsedUserJson : Json} {std : LengthSort}
variable {chats : List TChat} {chat : TChat} {s t : TThread} {f : TFollowUp}
variable {before run after fs : List TFollowUp} {w : TString}

/-- The follow-up carries the loop warning. -/
def TFollowUp.IsWarning (parsedUserJson : Json) (f : TFollowUp) : Prop :=
  makeResponseForOllama parsedUserJson loopWarning = .ok f.request

/-- The answer in the follow-up is the one of its command. -/
def TFollowUp.HasOwnAnswer (commands : TAiCommands) (parsedUserJson : Json) (f : TFollowUp) :
    Prop :=
  ∃ detected text, f.command = detected.whatDetected ∧ BackendText commands detected text ∧
    makeResponseForOllama parsedUserJson text = .ok f.answer

/-- The follow-up of the `n`-th round in a row with the same keyword: the answer of the command,
or the warning once the counter of the loop detector, a `size_t`, says so. -/
def AnswersRepeat (parsedUserJson : Json) (n : ℕ) (f : TFollowUp) : Prop :=
  if kMaxRepeats ≤ n % 2 ^ 64 then f.IsWarning parsedUserJson else f.request = f.answer

/-- After the rounds `before`, the rounds `run` are the first ones in a row with the keyword
`w`. -/
structure IsRun (w : TString) (before run : List TFollowUp) : Prop where
  command : ∀ f ∈ run, f.command = w
  first : ∀ f ∈ before.getLast?, f.command ≠ w

/-! ## The loop detector -/

/-- What the loop detector knows of the rounds so far: the last keyword, and how often it was given
in a row. -/
structure Counted (detector : CAiLoopDetector) (followUps : List TFollowUp) : Prop where
  start : followUps = [] → detector = {}
  lastCommand : ∀ f ∈ followUps.getLast?, detector.lastCommand = f.command
  counter : ∀ before run w, followUps = before ++ run → run ≠ [] → IsRun w before run →
    detector.counter = run.length % 2 ^ 64

lemma counted_nil : Counted {} [] := by
  refine ⟨fun _ => rfl, by simp, fun before run w h hne _ => ?_⟩
  exact absurd (List.append_eq_nil_iff.1 h.symm).2 hne

lemma CAiLoopDetector.lastCommand_update (detector : CAiLoopDetector) (command : TString) :
    (detector.update command).lastCommand = command := by
  rw [CAiLoopDetector.update]
  split
  · next h => exact h.symm
  · rfl

/-- The first round of a run sets the counter to one. -/
lemma Counted.counter_first {detector : CAiLoopDetector} (h : Counted detector before)
    (hfirst : ∀ g ∈ before.getLast?, g.command ≠ w) : (detector.update w).counter = 1 := by
  rcases List.eq_nil_or_concat before with rfl | ⟨gs, g, rfl⟩
  · -- the initial detector may have seen the empty keyword, but never counted it
    rw [h.start rfl, CAiLoopDetector.update]
    split <;> rfl
  · have hg := h.lastCommand g (by simp)
    have hne : ¬w = detector.lastCommand := by
      rw [hg]
      exact fun heq => hfirst g (by simp) heq.symm
    rw [CAiLoopDetector.update, if_neg hne]

/-- Any further round counts one more. -/
lemma Counted.counter_more {detector : CAiLoopDetector} (h : Counted detector (before ++ run))
    (hne : run ≠ []) (hrun : IsRun w before run) :
    (detector.update w).counter = (run.length + 1) % 2 ^ 64 := by
  obtain ⟨gs, g, rfl⟩ := (List.eq_nil_or_concat run).resolve_left hne
  have hlast : w = detector.lastCommand := by
    rw [h.lastCommand g (by simp), hrun.command g (by simp)]
  rw [CAiLoopDetector.update, if_pos hlast, h.counter before _ w rfl hne hrun]
  exact Nat.mod_add_mod _ _ _

/-- The counter after one more round with the keyword. -/
lemma Counted.counter_update {detector : CAiLoopDetector} (h : Counted detector (before ++ run))
    (hrun : IsRun w before run) :
    (detector.update w).counter = (run.length + 1) % 2 ^ 64 := by
  by_cases hne : run = []
  · subst hne
    rw [List.append_nil] at h
    rw [h.counter_first hrun.first]
    rfl
  · exact h.counter_more hne hrun

/-- A run without its last round. -/
lemma IsRun.init (h : IsRun w before (run ++ [f])) : IsRun w before run :=
  ⟨fun g hg => h.command g (by simp [hg]), h.first⟩

/-- One more round. -/
lemma Counted.append {detector : CAiLoopDetector} {followUps : List TFollowUp}
    (h : Counted detector followUps) (f : TFollowUp) :
    Counted (detector.update f.command) (followUps ++ [f]) := by
  refine ⟨by simp, fun g hg => ?_, fun before run w hsplit hne hrun => ?_⟩
  · rw [List.getLast?_concat, Option.mem_some_iff] at hg
    rw [CAiLoopDetector.lastCommand_update, hg]
  · obtain ⟨gs, g, rfl⟩ := (List.eq_nil_or_concat run).resolve_left hne
    rw [List.concat_eq_append] at hsplit hrun ⊢
    rw [← List.append_assoc] at hsplit
    obtain ⟨hinit, hlast⟩ := List.append_inj' hsplit rfl
    obtain rfl : f = g := by simpa using hlast
    rw [hinit] at h
    rw [hrun.command f (by simp), h.counter_update hrun.init, List.length_append,
      List.length_singleton]

lemma Counted.step (h : Counted s.loopDetector s.followUps)
    (hstep : RoundStep env commands parsedUserJson chat s t f) :
    Counted t.loopDetector t.followUps := by
  rw [hstep.followUps, hstep.loopDetector]
  exact h.append f

/-! ## The follow-ups -/

/-- Every follow-up is the one its place in its run asks for. -/
def Warned (parsedUserJson : Json) (followUps : List TFollowUp) : Prop :=
  ∀ before run after w, followUps = before ++ run ++ after → IsRun w before run →
    ∀ i f, run[i]? = some f → AnswersRepeat parsedUserJson (i + 1) f

/-- The follow-up that is prepared when the counter stands at `n`. -/
lemma RoundStep.answersRepeat {n : ℕ} (hstep : RoundStep env commands parsedUserJson chat s t f)
    (hcounter : (s.loopDetector.update f.command).counter = n % 2 ^ 64) :
    AnswersRepeat parsedUserJson n f := by
  have hrequest := hstep.request
  rw [nextRequest] at hrequest
  rw [AnswersRepeat]
  simp only [CAiLoopDetector.isLooping, hcounter, decide_eq_true_eq, ge_iff_le] at hrequest
  split at hrequest
  · next hge =>
    rw [if_pos hge]
    exact hrequest
  · next hlt =>
    rw [if_neg hlt]
    exact (Except.ok.inj hrequest).symm

lemma Warned.step (h : Warned parsedUserJson s.followUps)
    (hcounted : Counted s.loopDetector s.followUps)
    (hstep : RoundStep env commands parsedUserJson chat s t f) :
    Warned parsedUserJson t.followUps := by
  rw [hstep.followUps]
  intro before run after w hsplit hrun i g hg
  rcases List.eq_nil_or_concat after with rfl | ⟨as, a, rfl⟩
  · rw [List.append_nil] at hsplit
    rcases List.eq_nil_or_concat run with rfl | ⟨gs, l, rfl⟩
    · simp at hg
    · -- the new round ends the run
      rw [List.concat_eq_append] at hsplit hrun hg
      rw [← List.append_assoc] at hsplit
      obtain ⟨hinit, hlast⟩ := List.append_inj' hsplit rfl
      obtain rfl : f = l := by simpa using hlast
      rcases Nat.lt_or_ge i gs.length with hi | hi
      · rw [List.getElem?_append_left hi] at hg
        exact h before gs [] w (by rw [hinit, List.append_nil]) hrun.init i g hg
      · have hi' : i = gs.length := by
          have := (List.getElem?_eq_some_iff.1 hg).1
          rw [List.length_append, List.length_singleton] at this
          omega
        subst hi'
        obtain rfl : f = g := by simpa using hg
        rw [hinit] at hcounted
        refine RoundStep.answersRepeat hstep ?_
        rw [hrun.command f (by simp)]
        exact hcounted.counter_update hrun.init
  · -- the new round comes after the run
    rw [List.concat_eq_append, ← List.append_assoc] at hsplit
    exact h before run as w (List.append_inj' hsplit rfl).1 hrun i g hg

lemma warned_nil : Warned parsedUserJson [] := by
  intro before run after w hsplit _ i f hf
  obtain rfl : run = [] := by
    have := List.append_eq_nil_iff.1 hsplit.symm
    exact (List.append_eq_nil_iff.1 this.1).2
  simp at hf

/-- In every session the follow-ups are the ones that their places ask for. -/
lemma warned_threadedOllama (env : TEnvironment) (commands : TAiCommands) (parsedUserJson : Json)
    (std : LengthSort) (chats : List TChat) :
    Warned parsedUserJson (threadedOllama env commands parsedUserJson std chats).2.followUps := by
  obtain ⟨detector, -, hwarned⟩ := followUps_induction env std
    (motive := fun detector followUps => Counted detector followUps ∧
      Warned parsedUserJson followUps) ⟨counted_nil, warned_nil⟩
    (fun _ _ _ _ ih hstep => ⟨ih.1.step hstep, ih.2.step ih.1 hstep⟩) chats
  exact hwarned

/-- Rounds in a row that are answered stand at places whose numbers are small modulo `2 ^ 64`. -/
lemma length_le_of_answered
    (hrun : ∀ i f, run[i]? = some f → AnswersRepeat parsedUserJson (i + 1) f)
    (hfs : fs <:+: run) (hanswered : ∀ f ∈ fs, ¬f.IsWarning parsedUserJson) :
    fs.length ≤ kMaxRepeats := by
  obtain ⟨xs, ys, rfl⟩ := hfs
  have hplace : ∀ i < fs.length, (xs.length + i + 1) % 2 ^ 64 < kMaxRepeats := by
    intro i hi
    have hget : (xs ++ fs ++ ys)[xs.length + i]? = some fs[i] := by
      rw [List.append_assoc, List.getElem?_append_right (by omega),
        List.getElem?_append_left (by omega)]
      simp [hi]
    have hans := hrun _ _ hget
    by_contra hge
    rw [AnswersRepeat, if_pos (by omega)] at hans
    exact hanswered _ (List.getElem_mem hi) hans
  -- four numbers in a row cannot all be below three modulo `2 ^ 64`
  by_contra hlong
  rw [kMaxRepeats] at hplace hlong
  have h₀ := hplace 0 (by omega)
  have h₁ := hplace 1 (by omega)
  have h₂ := hplace 2 (by omega)
  have h₃ := hplace 3 (by omega)
  omega

lemma hasOwnAnswer_of_mem
    (hf : f ∈ (threadedOllama env commands parsedUserJson std chats).2.followUps) :
    f.HasOwnAnswer commands parsedUserJson := by
  obtain ⟨-, hall⟩ := followUps_induction env std
    (motive := fun _ followUps => ∀ f ∈ followUps, f.HasOwnAnswer commands parsedUserJson)
    (by simp) (fun _ s t g ih hstep f hf => by
      rw [hstep.followUps] at hf
      rcases List.mem_append.1 hf with hf | hf
      · exact ih f hf
      · rw [List.mem_singleton.1 hf]
        exact hstep.backendText) chats
  exact hall f hf

/-- **A model that repeats itself is warned.**  In every session, the follow-up of every round in a
run of rounds with the same keyword is the answer of its command up to the round before the
`kMaxRepeats`-th and the warning from then on, until the counter wraps.  So the model is answered
at most `kMaxRepeats` times in a row. -/
theorem repeats_warned
    (hsplit : (threadedOllama env commands parsedUserJson std chats).2.followUps
      = before ++ run ++ after)
    (hrun : IsRun w before run) :
    (∀ i f, run[i]? = some f →
      f.HasOwnAnswer commands parsedUserJson ∧ AnswersRepeat parsedUserJson (i + 1) f) ∧
    ∀ fs, fs <:+: run → (∀ f ∈ fs, ¬f.IsWarning parsedUserJson) → fs.length ≤ kMaxRepeats := by
  have hwarned : ∀ i f, run[i]? = some f → AnswersRepeat parsedUserJson (i + 1) f :=
    warned_threadedOllama env commands parsedUserJson std chats before run after w hsplit hrun
  refine ⟨fun i f hf => ?_,
    fun fs hfs hanswered => length_le_of_answered hwarned hfs hanswered⟩
  have hmem : f ∈ (threadedOllama env commands parsedUserJson std chats).2.followUps := by
    rw [hsplit]
    simp [List.mem_of_getElem? hf]
  exact ⟨hasOwnAnswer_of_mem hmem, hwarned i f hf⟩

/-- The model asks for the time three times; the third time it is warned. -/
theorem repeats_warned_three :
    let commands := getAiCommandsList fun _ _ => .ok (lit "Monday")
    let user := TUserRequest.ofMessage (lit "m") (lit "What time is it?")
    let chat : TChat := ⟨[.ofText (lit "AI_DATE_TIME_NOW") true], none⟩
    let σ := threadedOllama .quiet commands user.parsedUserJson .stable [chat, chat, chat]
    σ.2.followUps.length = 3 ∧ ∀ i f, σ.2.followUps[i]? = some f →
      f.HasOwnAnswer commands user.parsedUserJson ∧
        AnswersRepeat user.parsedUserJson (i + 1) f := by
  intro commands user chat σ
  have hcommand : ∀ f ∈ σ.2.followUps, f.command = lit "AI_DATE_TIME_NOW" := by decide +kernel
  have hlength : σ.2.followUps.length = 3 := by decide +kernel
  -- from here on the session is not evaluated
  obtain ⟨t, ht⟩ : ∃ t, threadedOllama .quiet commands user.parsedUserJson .stable
      [chat, chat, chat] = t := ⟨_, rfl⟩
  rw [show σ = t from ht] at hcommand hlength ⊢
  have hsplit : (threadedOllama .quiet commands user.parsedUserJson .stable
      [chat, chat, chat]).2.followUps = [] ++ t.2.followUps ++ [] := by
    rw [ht]
    simp
  exact ⟨hlength, (repeats_warned hsplit ⟨hcommand, by simp⟩).1⟩

/-! ## The requests do not end -/

/-- A session in which the model gives one keyword in every round. -/
lemma exists_waiting_repeats (henv : env.Connected) (hk : commands.KeywordOnly)
    (hclean : commands.CleanKeys) {user : TUserRequest}
    (hs : threadedOllama env commands user.parsedUserJson std [] = (.waiting, s))
    (hw : IsShortestPrefix commands.keys w w) (n : ℕ) :
    ∃ t, threadedOllama env commands user.parsedUserJson std
        (List.replicate n ⟨[.ofText w true], none⟩) = (.waiting, t) ∧
      t.followUps.length = n ∧ ∀ f ∈ t.followUps, f.command = w := by
  have htrim : trimCopy w = w := by
    rw [trimCopy, rtrim_clean (hclean w hw.mem), ltrim_clean (hclean w hw.mem)]
  induction n with
  | zero =>
    refine ⟨s, hs, ?_⟩
    rw [(firstRequest_of_waiting hs).followUps]
    exact ⟨rfl, by simp⟩
  | succ n ih =>
    obtain ⟨t, ht, hlen, hall⟩ := ih
    rw [List.replicate_succ']
    rcases outcome_of_waiting henv hk ht (isReply_ofText w) with
      ⟨v, hv, -, hruns⟩ | ⟨hno, -⟩
    · obtain rfl : w = v := hw.unique hv
      obtain ⟨cmd, now, computed, f, -, -, hcommand, -, hfollowUps, -⟩ := hruns.answer
      refine ⟨_, eq_waiting hruns.status, ?_, fun g hg => ?_⟩
      · rw [hfollowUps, List.length_append, hlen, List.length_singleton]
      · rw [hfollowUps] at hg
        rcases List.mem_append.1 hg with hg | hg
        · exact hall g hg
        · rw [List.mem_singleton.1 hg, hcommand]
    · exact absurd ⟨w, hw, htrim⟩ hno

/-- **The model can keep the backend busy for ever.**  No bound that depends on `kMaxRepeats` alone
holds for the rounds in a row with the same keyword. -/
theorem not_bounded_repeats :
    ¬∃ bound : ℕ → ℕ, ∀ (env : TEnvironment) (commands : TAiCommands) (user : TUserRequest)
      (std : LengthSort) (chats : List TChat) (s : TThread), env.Connected →
      threadedOllama env commands user.parsedUserJson std chats = (.waiting, s) →
      ∀ w fs, fs <:+: s.followUps → (∀ f ∈ fs, f.command = w) →
        fs.length ≤ bound kMaxRepeats := by
  rintro ⟨bound, hbound⟩
  set commands := getAiCommandsList fun _ _ => .ok (lit "Monday") with hcommands
  set user := TUserRequest.ofMessage (lit "m") (lit "What time is it?") with huser
  have hs : threadedOllama .quiet commands user.parsedUserJson .stable [] = (.waiting, _) :=
    eq_waiting (by decide)
  obtain ⟨t, ht, hlen, hall⟩ := exists_waiting_repeats TEnvironment.quiet_connected
    (getAiCommandsList_keywordOnly (neverThrows_ok _)) getAiCommandsList_cleanKeys hs
    (w := lit "AI_DATE_TIME_NOW") (.singleton List.prefix_rfl) (bound kMaxRepeats + 1)
  have := hbound .quiet commands user .stable _ t TEnvironment.quiet_connected ht _ t.followUps
    List.infix_rfl hall
  omega

end OllamaMitm
