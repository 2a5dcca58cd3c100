import OllamaMitm.Restorator

/-!
# What the restorator is for

An abstract detector that says what `CContentRestorator` computes, without iterators and without
a sorted list: it is searching, or it has recognised the shortest word that begins the text, or
it has decided.  The main result is `CContentRestorator.update_refines`: every call of `Update`
is one step of the abstract detector.  All later facts about runs of the restorator are proved
from the eight kinds of steps.
-/

namespace OllamaMitm

open Lib

/-- The phases of the detector, with the text collected so far. -/
inductive Phase where
  | searching (collected : TString)
  | recognized (word collected : TString)
  | decided
deriving DecidableEq

namespace Phase

/-- The phase in which a detector for the words `W` starts: nothing to look for is a decision. -/
def initial (W : List TString) : Phase := if W = [] then .decided else .searching []

/-- The text collected so far, while nothing is decided. -/
def collected : Phase → Option TString
  | .searching D => some D
  | .recognized _ D => some D
  | .decided => none

/-- Only the set of words matters. -/
lemma initial_eq_of_mem_iff {V W : List TString} (hVW : ∀ x, x ∈ V ↔ x ∈ W) :
    initial V = initial W := by
  have hnil : V = [] ↔ W = [] := by simp only [List.eq_nil_iff_forall_not_mem, hVW]
  simp only [initial, hnil]

end Phase

open CContentRestorator (statusOf)

/-- One step of the detector for the words `W` on a chunk with the given text and mark.  The
function `consult` says what the command of a word makes of an incomplete reply. -/
inductive DetectorStep (W : List TString)
    (consult : TString → TString → Except TException TResponseToOllama) :
    Phase → TString → Bool → Except TException TUpdateResult → Phase → Prop
  /-- No word begins the text, but some word is longer than the text. -/
  | search {D text : TString} {done : Bool} (hno : ∀ w ∈ W, ¬ w <+: D ++ text)
      (hlong : ∃ w ∈ W, (D ++ text).length < w.length) :
      DetectorStep W consult (.searching D) text done
        (.ok (statusOf done, .needMoreData (statusOf done) (D ++ text))) (.searching (D ++ text))
  /-- No word begins the text, and none can. -/
  | pass {D text : TString} {done : Bool} (hno : ∀ w ∈ W, ¬ w <+: D ++ text)
      (hfit : ∀ w ∈ W, w.length ≤ (D ++ text).length) :
      DetectorStep W consult (.searching D) text done
        (.ok (statusOf done, .passToUser (statusOf done) (D ++ text))) .decided
  /-- A word begins the text, which goes on. -/
  | recognize {D text w : TString} (hw : IsShortestPrefix W (D ++ text) w) :
      DetectorStep W consult (.searching D) text false
        (.ok (.ollamaHasMore, .needMoreData .ollamaHasMore (D ++ text)))
        (.recognized w (D ++ text))
  /-- A word begins the text, which is complete. -/
  | detect {D text w : TString} (hw : IsShortestPrefix W (D ++ text) w) :
      DetectorStep W consult (.searching D) text true
        (.ok (.ollamaSentAll, .detected ⟨.ollamaSentAll, w, D ++ text⟩)) .decided
  /-- The text of a recognised word is complete. -/
  | complete {D text w : TString} :
      DetectorStep W consult (.recognized w D) text true
        (.ok (.ollamaSentAll, .detected ⟨.ollamaSentAll, w, D ++ text⟩)) .decided
  /-- The command of the recognised word takes the text for a request so far. -/
  | keep {D text w : TString} {r : TResponseToOllama} (hr : consult w (D ++ text) = .ok r)
      (hne : ∀ x, r ≠ .thatWasResponseToUser x) :
      DetectorStep W consult (.recognized w D) text false
        (.ok (.ollamaHasMore, .needMoreData .ollamaHasMore (D ++ text)))
        (.recognized w (D ++ text))
  /-- The command of the recognised word takes the text for a reply to the user. -/
  | release {D text w x : TString}
      (hr : consult w (D ++ text) = .ok (.thatWasResponseToUser x)) :
      DetectorStep W consult (.recognized w D) text false
        (.ok (.ollamaHasMore, .passToUser .ollamaHasMore (D ++ text))) .decided
  /-- The command of the recognised word fails. -/
  | fail {D text w : TString} {e : TException} (hr : consult w (D ++ text) = .error e) :
      DetectorStep W consult (.recognized w D) text false (.error e) (.recognized w (D ++ text))
  /-- The decision was made earlier. -/
  | already {text : TString} {done : Bool} :
      DetectorStep W consult .decided text done
        (.ok (statusOf done, .alreadyDetected (statusOf done))) .decided

/-- The status that is returned is the one of the chunk. -/
lemma DetectorStep.status {W : List TString}
    {consult : TString → TString → Except TException TResponseToOllama} {p p' : Phase}
    {text : TString} {done : Bool} {res : Except TException TUpdateResult}
    (h : DetectorStep W consult p text done res p') :
    (∃ e, res = .error e) ∨ ∃ decision, res = .ok (statusOf done, decision) := by
  cases h with
  | fail hr => exact Or.inl ⟨_, rfl⟩
  | search | pass | recognize | detect | complete | keep | release | already =>
    exact Or.inr ⟨_, rfl⟩

/-- Only the set of words matters. -/
lemma DetectorStep.of_mem_iff {W V : List TString}
    {consult : TString → TString → Except TException TResponseToOllama} {p p' : Phase}
    {text : TString} {done : Bool} {res : Except TException TUpdateResult}
    (hVW : ∀ x, x ∈ V ↔ x ∈ W) (h : DetectorStep W consult p text done res p') :
    DetectorStep V consult p text done res p' := by
  have hnone {D : TString} (hno : ∀ w ∈ W, ¬ w <+: D) : ∀ v ∈ V, ¬ v <+: D :=
    fun v hv => hno v ((hVW v).1 hv)
  cases h with
  | search hno hlong =>
    obtain ⟨w, hw, hlt⟩ := hlong
    exact .search (hnone hno) ⟨w, (hVW w).2 hw, hlt⟩
  | pass hno hfit => exact .pass (hnone hno) fun v hv => hfit v ((hVW v).1 hv)
  | recognize hw => exact .recognize (hw.of_mem_iff hVW)
  | detect hw => exact .detect (hw.of_mem_iff hVW)
  | complete => exact .complete
  | keep hr hne => exact .keep hr hne
  | release hr => exact .release hr
  | fail hr => exact .fail hr
  | already => exact .already

/-- Detectors for the same words, in any order, make the same step. -/
lemma DetectorStep.unique {W V : List TString}
    {consult : TString → TString → Except TException TResponseToOllama} {p p' q' : Phase}
    {text : TString} {done : Bool} {res res' : Except TException TUpdateResult}
    (hVW : ∀ x, x ∈ V ↔ x ∈ W) (h : DetectorStep W consult p text done res p')
    (h' : DetectorStep V consult p text done res' q') : res = res' ∧ p' = q' := by
  cases h with
  | search hno hlong =>
    obtain ⟨v, hv, hlt⟩ := hlong
    cases h' with
    | search => exact ⟨rfl, rfl⟩
    | pass _ hfit => exact absurd (hfit v ((hVW v).2 hv)) (by omega)
    | recognize hw | detect hw => exact absurd hw.isPrefix (hno _ ((hVW _).1 hw.mem))
  | pass hno hfit =>
    cases h' with
    | search _ hlong =>
      obtain ⟨v, hv, hlt⟩ := hlong
      exact absurd (hfit v ((hVW v).1 hv)) (by omega)
    | pass => exact ⟨rfl, rfl⟩
    | recognize hw | detect hw => exact absurd hw.isPrefix (hno _ ((hVW _).1 hw.mem))
  | recognize hw =>
    cases h' with
    | search hno | pass hno => exact absurd hw.isPrefix (hno _ ((hVW _).2 hw.mem))
    | recognize hw' => exact ⟨rfl, by rw [(hw.of_mem_iff hVW).unique hw']⟩
  | detect hw =>
    cases h' with
    | search hno | pass hno => exact absurd hw.isPrefix (hno _ ((hVW _).2 hw.mem))
    | detect hw' => exact ⟨by rw [(hw.of_mem_iff hVW).unique hw'], rfl⟩
  | complete =>
    cases h'
    exact ⟨rfl, rfl⟩
  | keep hr hne =>
    cases h' with
    | keep => exact ⟨rfl, rfl⟩
    | release hr' => exact absurd (Except.ok.inj (hr.symm.trans hr')) (hne _)
    | fail hr' => exact absurd (hr.symm.trans hr') (by simp)
  | release hr =>
    cases h' with
    | keep hr' hne => exact absurd (Except.ok.inj (hr'.symm.trans hr)) (hne _)
    | release => exact ⟨rfl, rfl⟩
    | fail hr' => exact absurd (hr.symm.trans hr') (by simp)
  | fail hr =>
    cases h' with
    | keep hr' | release hr' => exact absurd (hr.symm.trans hr') (by simp)
    | fail hr' => exact ⟨by rw [Except.error.inj (hr.symm.trans hr')], rfl⟩
  | already =>
    cases h'
    exact ⟨rfl, rfl⟩

namespace CContentRestorator

variable {self : CContentRestorator} {commands : TAiCommands} {now : ℕ} {r : TOllamaResponse}
variable {p : Phase} {done : Bool} {std : LengthSort}

/-- What the table makes of an incomplete reply that begins with the word. -/
def consult (commands : TAiCommands) (now : ℕ) (word text : TString) :
    Except TException TResponseToOllama :=
  match commands.atKey word with
  | .error e => .error e
  | .ok cmd => cmd.resultProvider now word text

/-- The state of the restorator that stands for a phase. -/
def Represents (self : CContentRestorator) : Phase → Prop
  | .searching D => self.words ≠ [] ∧ self.lastDetected = none ∧ self.lastData = D
  | .recognized w D => ∃ i, ∃ hi : i < self.words.length, self.lastDetected = some i ∧
      self.words[i] = w ∧ self.lastData = D ∧ IsShortestPrefix self.words D w
  | .decided => self.isPassToUser = true ∨ self.words = []

/-! ## The small steps -/

@[simp] lemma words_reset : self.reset.words = self.words := rfl

@[simp] lemma words_lock (it : ℕ) : (self.lock it).words = self.words := rfl

@[simp] lemma words_append (str : TString) : (self.append str).words = self.words := rfl

@[simp] lemma lastData_lock (it : ℕ) : (self.lock it).lastData = self.lastData := rfl

@[simp] lemma lastData_append (str : TString) : (self.append str).lastData = self.lastData ++ str :=
  rfl

lemma represents_release : self.release.Represents .decided :=
  Or.inl (by simp [isPassToUser, release, words])

lemma isDetected_of_lt {i : ℕ} (hi : i < self.words.length) (hdet : self.lastDetected = some i) :
    self.isDetected = true := by
  have : i ≠ self.words.length := by omega
  simp [isDetected, hdet, this]

lemma isDetected_of_none (hdet : self.lastDetected = none) : self.isDetected = false := by
  simp [isDetected, hdet]

lemma detectedWord_eq (self : CContentRestorator) {i : ℕ} (hi : i < self.words.length)
    (hdet : self.lastDetected = some i) : self.detectedWord = self.words[i] := by
  simp [detectedWord, hdet, hi]

lemma allReceivedResult_of_isDetected (h : self.isDetected = true) :
    self.allReceivedResult = ⟨self.release, .ok (.ollamaSentAll,
      .detected ⟨.ollamaSentAll, self.detectedWord, self.lastData⟩), []⟩ := by
  rw [allReceivedResult, if_pos h]

/-! ## The words stay -/

lemma words_allReceivedResult : self.allReceivedResult.self.words = self.words := by
  rw [allReceivedResult]
  split <;> rfl

lemma words_askProvider (status : EReadingBehahve) :
    (self.askProvider commands now status).self.words = self.words := by
  rw [askProvider]
  split
  · rfl
  · simp only
    split <;> rfl

lemma words_recognize (status : EReadingBehahve) :
    (self.recognize status).self.words = self.words := by
  unfold recognize
  simp only
  split
  · rfl
  · split
    · split
      · rfl
      · rw [words_allReceivedResult, words_lock]
    · split <;> rfl

@[simp] lemma words_update : (self.update commands now r).self.words = self.words := by
  rw [update]
  split
  · rfl
  · simp only
    split
    · rfl
    · rw [classify]
      split
      · rw [words_allReceivedResult, words_append]
      · split
        · rw [words_askProvider, words_append]
        · rw [words_recognize, words_append]

/-! ## The words of a table -/

lemma perm_sortWords (std : LengthSort) (ws : List TString) :
    (sortWords std ws).words.Perm ws := by
  rw [sortWords]
  split
  · exact std.perm ws
  · exact List.Perm.refl ws

lemma words_ofCommands_perm : (ofCommands std commands).words.Perm commands.keys :=
  perm_sortWords std _

lemma mem_words_ofCommands {w : TString} :
    w ∈ (ofCommands std commands).words ↔ w ∈ commands.keys :=
  words_ofCommands_perm.mem_iff

/-- A new detector, and one that was reset, is in the initial phase. -/
lemma represents_initial (hdet : self.lastDetected = none) (hdata : self.lastData = []) :
    self.Represents (Phase.initial self.words) := by
  rw [Phase.initial]
  split
  · next h => exact Or.inr h
  · next h => exact ⟨h, hdet, hdata⟩

lemma represents_ofCommands :
    (ofCommands std commands).Represents (Phase.initial (ofCommands std commands).words) :=
  represents_initial rfl rfl

lemma represents_reset : self.reset.Represents (Phase.initial self.words) :=
  have h : self.reset.Represents (Phase.initial self.reset.words) := represents_initial rfl rfl
  h

/-! ## The refinement -/

/-- The first test of `recognize` never succeeds while nothing is recognised: it asks for a last
word that fits into the text and is longer than the text. -/
private lemma not_enough_data_false (hdet : self.isDetected = false) (hne : self.words ≠ [])
    (status : EReadingBehahve) :
    ¬((fitting self.words self.lastData.length = self.words.length ∧
        (self.words.getLastD []).length > self.lastData.length)
      ∨ (self.isDetected ∧ status = .ollamaHasMore)) := by
  rintro (⟨hfit, hlast⟩ | ⟨hdet', -⟩)
  · have hmem : self.words.getLastD [] ∈ self.words := by
      rw [List.getLastD_eq_getLast?, List.getLast?_eq_getLast_of_ne_nil hne]
      exact List.getLast_mem hne
    have := fitting_eq_length_iff.1 hfit _ hmem
    omega
  · rw [hdet] at hdet'
    exact absurd hdet' (by simp)

/-- While nothing is recognised, `recognize` makes one of the first four steps. -/
private lemma recognize_refines (self : CContentRestorator)
    {consult : TString → TString → Except TException TResponseToOllama} {D text : TString}
    (hdata : self.lastData = D ++ text) (hdet : self.lastDetected = none)
    (hne : self.words ≠ []) :
    ∃ p', DetectorStep self.words consult (.searching D) text done
        (self.recognize (statusOf done)).result p' ∧
      (self.recognize (statusOf done)).self.Represents p' := by
  have hsorted : SortedByLength self.words := self.whatToLookFor.sorted
  rw [recognize, if_neg (not_enough_data_false (isDetected_of_none hdet) hne _)]
  cases hscan : scan self.words self.lastData with
  | some it =>
    obtain ⟨hi, hw⟩ := isShortestPrefix_of_scan hsorted hscan
    rw [hdata] at hw
    have hdet' : (self.lock it).isDetected = true := isDetected_of_lt hi rfl
    simp only
    cases done with
    | false =>
      rw [if_pos ⟨hdet', rfl⟩]
      refine ⟨.recognized self.words[it] (D ++ text), ?_, it, hi, rfl, rfl, hdata, hw⟩
      simp only [needMoreData, lastData_lock, hdata]
      exact .recognize hw
    | true =>
      have hword : (self.lock it).detectedWord = self.words[it] :=
        detectedWord_eq (self.lock it) hi rfl
      rw [if_neg (by simp [statusOf]), allReceivedResult_of_isDetected hdet', hword, lastData_lock,
        hdata]
      exact ⟨.decided, .detect hw, represents_release⟩
  | none =>
    have hno := not_prefix_of_scan_none hsorted hscan
    rw [hdata] at hno
    simp only
    by_cases hfit : fitting self.words self.lastData.length = self.words.length
    · have hall := fitting_eq_length_iff.1 hfit
      rw [hdata] at hall
      rw [if_neg (not_not.2 hfit), finalizePassToUser, hdata]
      exact ⟨.decided, .pass hno hall, represents_release⟩
    · have hlong : ∃ w ∈ self.words, (D ++ text).length < w.length := by
        have := hfit
        rw [fitting_eq_length_iff, hdata] at this
        push Not at this
        exact this
      rw [if_pos hfit, needMoreData, hdata]
      exact ⟨.searching (D ++ text), .search hno hlong, hne, hdet, hdata⟩

/-- With a recognised word and an incomplete reply, `askProvider` makes one of the three steps
that consult the command. -/
private lemma askProvider_refines {D text w : TString} (hword : self.detectedWord = w)
    (hdata : self.lastData = D ++ text) (hrep : self.Represents (.recognized w (D ++ text))) :
    ∃ p', DetectorStep self.words (consult commands now) (.recognized w D) text false
        (self.askProvider commands now .ollamaHasMore).result p' ∧
      (self.askProvider commands now .ollamaHasMore).self.Represents p' := by
  rw [askProvider, hword, hdata]
  cases hat : commands.atKey w with
  | error e => exact ⟨_, .fail (by simp [consult, hat]), hrep⟩
  | ok cmd =>
    have hcons : consult commands now w (D ++ text) = cmd.resultProvider now w (D ++ text) := by
      simp [consult, hat]
    simp only
    cases hcall : cmd.resultProvider now w (D ++ text) with
    | error e => exact ⟨_, .fail (hcons.trans hcall), hrep⟩
    | ok answer =>
      rw [hcall] at hcons
      cases answer with
      | thatWasResponseToUser x =>
        simp only [finalizePassToUser, hdata]
        exact ⟨.decided, .release hcons, represents_release⟩
      | thatWasRequestToFulfill x =>
        simp only [needMoreData, hdata]
        exact ⟨_, .keep hcons (by simp), hrep⟩
      | probablyThatWasResponseToUser x =>
        simp only [needMoreData, hdata]
        exact ⟨_, .keep hcons (by simp), hrep⟩

/-- With a recognised word, `Update` appends the text and classifies it. -/
lemma classify_of_recognized (commands : TAiCommands) (now : ℕ) {w D : TString}
    (hp : self.Represents (.recognized w D)) (hdone : r.isModelDone = some done) :
    let u := self.append r.asSimpleString
    u.isDetected = true ∧ u.detectedWord = w ∧
      self.update commands now r = u.classify commands now (statusOf done) := by
  obtain ⟨i, hi, hdet, hw, -, -⟩ := hp
  have hskip : ¬(self.isPassToUser = true ∨ self.words = []) := by
    have hne : self.words ≠ [] := List.ne_nil_of_length_pos (by omega)
    have : i ≠ self.words.length := by omega
    simp [isPassToUser, hdet, hne, this]
  refine ⟨isDetected_of_lt hi hdet, (detectedWord_eq (self.append _) hi hdet).trans hw, ?_⟩
  rw [update, hdone]
  exact if_neg hskip

/-- **Every call of `Update` on a response with a boolean `done` is a step of the detector.** -/
theorem update_refines (commands : TAiCommands) (now : ℕ) (hp : self.Represents p)
    (hdone : r.isModelDone = some done) :
    ∃ p', DetectorStep self.words (consult commands now) p r.asSimpleString done
        (self.update commands now r).result p' ∧
      (self.update commands now r).self.Represents p' := by
  cases p with
  | decided =>
    rw [update, hdone]
    simp only
    rw [if_pos (show self.isPassToUser = true ∨ self.words = [] from hp)]
    exact ⟨.decided, .already, hp⟩
  | searching D =>
    obtain ⟨hne, hdet, rfl⟩ := hp
    have hskip : ¬(self.isPassToUser = true ∨ self.words = []) := by
      simp [isPassToUser, hdet, hne]
    have hund : (self.append r.asSimpleString).isDetected = false := isDetected_of_none hdet
    rw [update, hdone]
    simp only
    rw [if_neg hskip, classify, hund, if_neg (by simp), if_neg (by simp)]
    exact recognize_refines (self.append r.asSimpleString) rfl hdet hne
  | recognized w D =>
    obtain ⟨hdet, hword, hclass⟩ := classify_of_recognized commands now hp hdone
    obtain ⟨i, hi, hdet', hw, rfl, hpre⟩ := hp
    rw [hclass, classify]
    cases done with
    | true =>
      rw [if_pos ⟨hdet, rfl⟩, allReceivedResult_of_isDetected hdet, hword, lastData_append]
      exact ⟨.decided, .complete, represents_release⟩
    | false =>
      rw [if_neg (by simp [statusOf]), if_pos ⟨hdet, rfl⟩]
      exact askProvider_refines hword rfl ⟨i, hi, hdet', hw, rfl, hpre.append _⟩

/-- A response without a boolean `done` leaves the detector alone. -/
lemma update_of_isModelDone_none (h : r.isModelDone = none) :
    self.update commands now r = { self := self
                                   result := .ok (.communicationFailure,
                                     .alreadyDetected .ollamaHasMore)
                                   calls := [] } := by
  rw [update]
  rw [h]

/-- Consulting a word of the table does not throw if no provider of it does. -/
lemma exists_consult (hnt : commands.NoThrow) (now : ℕ) {w : TString} (hw : w ∈ commands.keys)
    (text : TString) : ∃ a, consult commands now w text = .ok a := by
  obtain ⟨cmd, hcmd⟩ := TAiCommands.exists_of_mem_keys hw
  obtain ⟨a, ha⟩ := hnt _ (TAiCommands.mem_of_find? hcmd) now w text
  exact ⟨a, by rw [consult, TAiCommands.atKey_of_find? hcmd]; exact ha⟩

end CContentRestorator

end OllamaMitm
