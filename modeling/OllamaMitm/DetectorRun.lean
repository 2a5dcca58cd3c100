import OllamaMitm.Detector

/-!
# Runs of the restorator

A run is a sequence of `Update` calls, each at its own instant.  The decisions of a run without
`Reset` have one shape: the restorator asks for more data, each time with all the text so far;
it decides at most once, with all the text up to there; and then it only says that it decided.
-/

namespace OllamaMitm

open Lib

namespace CContentRestorator

/-- What a sequence of `Update` calls returns. -/
def runUpdates (commands : TAiCommands) :
    CContentRestorator → List (ℕ × TOllamaResponse) → List (Except TException TUpdateResult)
  | _, [] => []
  | self, (now, r) :: calls =>
    let step := self.update commands now r
    step.result :: runUpdates commands step.self calls

/-- The restorator after a sequence of `Update` calls. -/
def afterUpdates (commands : TAiCommands) :
    CContentRestorator → List (ℕ × TOllamaResponse) → CContentRestorator
  | self, [] => self
  | self, (now, r) :: calls => afterUpdates commands (self.update commands now r).self calls

/-- The decision that repeats that a decision was made. -/
def alreadyResult (r : TOllamaResponse) : TUpdateResult :=
  let status := statusOf (r.isModelDone.getD false)
  (status, .alreadyDetected status)

/-- What `Update` returns for a response without a boolean `done`. -/
def failureResult : TUpdateResult := (.communicationFailure, .alreadyDetected .ollamaHasMore)

/-- The shape of the decisions of a run, when the text `D` was collected before: `TNeedMoreData`
with all the text so far, then one `TPassToUser` or one `TDetected` with all the text up to
there, then `TAlreadyDetected`.  A run may end in each of the three parts. -/
inductive DecisionShape (keys : List TString) :
    TString → List TOllamaResponse → List TUpdateResult → Prop
  | nil {D : TString} : DecisionShape keys D [] []
  | needMoreData {D : TString} {r : TOllamaResponse} {rs : List TOllamaResponse}
      {xs : List TUpdateResult} {done : Bool} (hdone : r.isModelDone = some done)
      (hxs : DecisionShape keys (D ++ r.asSimpleString) rs xs) :
      DecisionShape keys D (r :: rs)
        ((statusOf done, .needMoreData (statusOf done) (D ++ r.asSimpleString)) :: xs)
  | passToUser {D : TString} {r : TOllamaResponse} {rs : List TOllamaResponse} {done : Bool}
      (hdone : r.isModelDone = some done) :
      DecisionShape keys D (r :: rs)
        ((statusOf done, .passToUser (statusOf done) (D ++ r.asSimpleString)) ::
          rs.map alreadyResult)
  | detected {D w : TString} {r : TOllamaResponse} {rs : List TOllamaResponse}
      (hdone : r.isModelDone = some true) (hw : w ∈ keys) (hpre : w <+: D ++ r.asSimpleString) :
      DecisionShape keys D (r :: rs)
        ((.ollamaSentAll, .detected ⟨.ollamaSentAll, w, D ++ r.asSimpleString⟩) ::
          rs.map alreadyResult)

variable {commands : TAiCommands} {self : CContentRestorator} {std : LengthSort}
variable {calls calls₁ calls₂ : List (ℕ × TOllamaResponse)} {c : ℕ × TOllamaResponse}

@[simp] lemma words_afterUpdates : (self.afterUpdates commands calls).words = self.words := by
  induction calls generalizing self with
  | nil => rfl
  | cons c calls ih => rw [afterUpdates, ih, words_update]

lemma runUpdates_append : self.runUpdates commands (calls₁ ++ calls₂)
    = self.runUpdates commands calls₁
      ++ (self.afterUpdates commands calls₁).runUpdates commands calls₂ := by
  induction calls₁ generalizing self with
  | nil => rfl
  | cons c calls₁ ih => simp only [List.cons_append, runUpdates, afterUpdates, ih]

lemma afterUpdates_append : self.afterUpdates commands (calls₁ ++ calls₂)
    = (self.afterUpdates commands calls₁).afterUpdates commands calls₂ := by
  induction calls₁ generalizing self with
  | nil => rfl
  | cons c calls₁ ih => simp only [List.cons_append, afterUpdates, ih]

lemma length_runUpdates : (self.runUpdates commands calls).length = calls.length := by
  induction calls generalizing self with
  | nil => rfl
  | cons c calls ih => simp [runUpdates, ih]

lemma runUpdates_cons_failure (h : c.2.isModelDone = none) :
    self.runUpdates commands (c :: calls)
      = .ok failureResult :: self.runUpdates commands calls := by
  simp only [runUpdates, update_of_isModelDone_none h, failureResult]

/-- Once decided, a restorator only repeats it. -/
lemma runUpdates_decided (hp : self.Represents .decided)
    (hall : ∀ c ∈ calls, c.2.isModelDone.isSome) :
    self.runUpdates commands calls = ((calls.map Prod.snd).map alreadyResult).map .ok := by
  induction calls generalizing self with
  | nil => rfl
  | cons c calls ih =>
    obtain ⟨done, hdone⟩ := Option.isSome_iff_exists.1 (hall c (by simp))
    obtain ⟨p', hstep, hp'⟩ := update_refines commands c.1 hp hdone
    cases hres : (self.update commands c.1 c.2).result with
    | error e => rw [hres] at hstep; cases hstep
    | ok x =>
      rw [hres] at hstep
      cases hstep with
      | already =>
        simp only [runUpdates, hres, List.map_cons, alreadyResult, hdone, Option.getD_some]
        rw [ih hp' fun d hd => hall d (by simp [hd])]

/-- The decisions of a run that starts undecided with the text `D` have the shape. -/
lemma runUpdates_shape (hnt : commands.NoThrow) {p : Phase} {D : TString}
    (hkeys : ∀ w ∈ self.words, w ∈ commands.keys) (hp : self.Represents p)
    (hD : p.collected = some D) (hall : ∀ c ∈ calls, c.2.isModelDone.isSome) :
    ∃ xs, self.runUpdates commands calls = xs.map .ok ∧
      DecisionShape commands.keys D (calls.map Prod.snd) xs := by
  induction calls generalizing self p D with
  | nil => exact ⟨[], rfl, .nil⟩
  | cons c calls ih =>
    obtain ⟨done, hdone⟩ := Option.isSome_iff_exists.1 (hall c (by simp))
    have hall' : ∀ d ∈ calls, d.2.isModelDone.isSome := fun d hd => hall d (by simp [hd])
    obtain ⟨p', hstep, hp'⟩ := update_refines commands c.1 hp hdone
    have hkeys' : ∀ w ∈ (self.update commands c.1 c.2).self.words, w ∈ commands.keys := by
      simpa using hkeys
    simp only [runUpdates, List.map_cons]
    generalize hres : (self.update commands c.1 c.2).result = res at hstep ⊢
    cases hstep with
    | search hno hlong =>
      cases hD
      obtain ⟨xs, hxs, hshape⟩ := ih hkeys' hp' rfl hall'
      exact ⟨_ :: xs, by rw [hxs]; rfl, .needMoreData hdone hshape⟩
    | recognize hw =>
      cases hD
      obtain ⟨xs, hxs, hshape⟩ := ih hkeys' hp' rfl hall'
      exact ⟨_ :: xs, by rw [hxs]; rfl, .needMoreData hdone hshape⟩
    | keep hr hne =>
      cases hD
      obtain ⟨xs, hxs, hshape⟩ := ih hkeys' hp' rfl hall'
      exact ⟨_ :: xs, by rw [hxs]; rfl, .needMoreData hdone hshape⟩
    | pass hno hfit =>
      cases hD
      refine ⟨_ :: (calls.map Prod.snd).map alreadyResult, ?_, .passToUser hdone⟩
      rw [runUpdates_decided hp' hall']
      rfl
    | release hr =>
      cases hD
      refine ⟨_ :: (calls.map Prod.snd).map alreadyResult, ?_, .passToUser hdone⟩
      rw [runUpdates_decided hp' hall']
      rfl
    | detect hw =>
      cases hD
      refine ⟨_ :: (calls.map Prod.snd).map alreadyResult, ?_,
        .detected hdone (hkeys _ hw.mem) hw.isPrefix⟩
      rw [runUpdates_decided hp' hall']
      rfl
    | complete =>
      cases hD
      obtain ⟨i, hi, -, hw, -, hpre⟩ := hp
      refine ⟨_ :: (calls.map Prod.snd).map alreadyResult, ?_,
        .detected hdone (hkeys _ hpre.mem) (hpre.append _).isPrefix⟩
      rw [runUpdates_decided hp' hall']
      rfl
    | fail hr =>
      -- no provider throws, and the recognised word is one of the table
      obtain ⟨i, hi, -, hw, -, hpre⟩ := hp
      obtain ⟨a, ha⟩ := exists_consult hnt c.1 (hkeys _ hpre.mem) (_ ++ _)
      rw [ha] at hr
      exact absurd hr (by simp)
    | already => cases hD

/-- **The restorator neither loses nor repeats text.**  After construction, or after any calls
and a `Reset`, the decisions on responses with a boolean `done` have the shape above, starting
from no text; and a response without one may be inserted anywhere: it is answered by
`CommunicationFailure` and changes no other decision. -/
theorem update_decisions (std : LengthSort) (commands : TAiCommands) (hne : commands.keys ≠ [])
    (hnt : commands.NoThrow) (before : List (ℕ × TOllamaResponse)) :
    let detector := ((ofCommands std commands).afterUpdates commands before).reset
    (∀ calls, (∀ c ∈ calls, c.2.isModelDone.isSome) →
      ∃ xs, detector.runUpdates commands calls = xs.map .ok ∧
        DecisionShape commands.keys [] (calls.map Prod.snd) xs) ∧
    (∀ calls₁ c calls₂, c.2.isModelDone = none →
      ∃ xs ys, xs.length = calls₁.length ∧
        detector.runUpdates commands (calls₁ ++ calls₂) = xs ++ ys ∧
        detector.runUpdates commands (calls₁ ++ c :: calls₂) = xs ++ .ok failureResult :: ys) := by
  intro detector
  have hwords : detector.words = (ofCommands std commands).words := by
    rw [words_reset, words_afterUpdates]
  constructor
  · intro calls hall
    have hstart : detector.Represents (.searching []) := by
      have h := @represents_reset ((ofCommands std commands).afterUpdates commands before)
      have hW : ((ofCommands std commands).afterUpdates commands before).words ≠ [] := by
        rw [words_afterUpdates]
        intro h0
        have hperm : (ofCommands std commands).words.Perm commands.keys := words_ofCommands_perm
        rw [h0] at hperm
        exact hne hperm.symm.eq_nil
      rwa [Phase.initial, if_neg hW] at h
    refine runUpdates_shape hnt ?_ hstart rfl hall
    intro w hw
    rw [hwords] at hw
    exact mem_words_ofCommands.1 hw
  · intro calls₁ c calls₂ hc
    refine ⟨detector.runUpdates commands calls₁,
      (detector.afterUpdates commands calls₁).runUpdates commands calls₂, length_runUpdates,
      runUpdates_append, ?_⟩
    rw [runUpdates_append, runUpdates_cons_failure hc]

/-- The built-in table, straight after construction. -/
theorem update_decisions_getAiCommandsList :
    let commands := getAiCommandsList fun _ _ => .ok []
    let detector := (ofCommands .stable commands).reset
    (∀ calls, (∀ c ∈ calls, c.2.isModelDone.isSome) →
      ∃ xs, detector.runUpdates commands calls = xs.map .ok ∧
        DecisionShape commands.keys [] (calls.map Prod.snd) xs) ∧
    (∀ calls₁ c calls₂, c.2.isModelDone = none →
      ∃ xs ys, xs.length = calls₁.length ∧
        detector.runUpdates commands (calls₁ ++ calls₂) = xs ++ ys ∧
        detector.runUpdates commands (calls₁ ++ c :: calls₂) = xs ++ .ok failureResult :: ys) :=
  update_decisions .stable (getAiCommandsList fun _ _ => .ok [])
    (by simp [TAiCommands.keys, getAiCommandsList])
    (getAiCommandsList_keywordOnly (neverThrows_ok _)).noThrow []

end CContentRestorator

end OllamaMitm
