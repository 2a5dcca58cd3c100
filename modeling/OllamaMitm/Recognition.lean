import OllamaMitm.Following

/-!
# What the detector recognises

A detector for a list of words that hears text which goes on: what it decides after each chunk is
determined by the text so far, by the lengths of the words and by what the command of a recognised
word says.  The order of the list does not matter.
-/

namespace OllamaMitm

open Lib

namespace CContentRestorator

variable {self : CContentRestorator} {commands : TAiCommands} {std std' : LengthSort}
variable {words words' W : List TString} {seen calls : List (ℕ × TOllamaResponse)}
variable {c : ℕ × TOllamaResponse} {p p' : Phase} {w data : TString}
variable {res : Except TException TUpdateResult}

/-- `std::equal(word.begin(), word.end(), data.begin())`, letter by letter; `none` says that it
reads behind the end of the data. -/
def stdEqual : TString → TString → Option Bool
  | [], _ => some true
  | _ :: _, [] => none
  | a :: word, b :: data => if a = b then stdEqual word data else some false

lemma stdEqual_of_length_le {word data : TString} (h : word.length ≤ data.length) :
    stdEqual word data = some (word.isPrefixOf data) := by
  fun_induction stdEqual word data with
  | case1 data => simp
  | case2 a word => simp at h
  | case3 word b data ih => simpa using ih (by simpa using h)
  | case4 a word b data hab => simp [List.isPrefixOf, hab]

/-! ## Detectors at their start -/

/-- A detector for the words that was used in any way. -/
inductive Used (std : LengthSort) (words : List TString) : CContentRestorator → Prop
  | constructed : Used std words (ofWords std words)
  | updated {self : CContentRestorator} (commands : TAiCommands) (now : ℕ) (r : TOllamaResponse)
      (h : Used std words self) : Used std words (self.update commands now r).self
  | reset {self : CContentRestorator} (h : Used std words self) : Used std words self.reset

/-- A detector for the words that was constructed or reset. -/
def Fresh (std : LengthSort) (words : List TString) (self : CContentRestorator) : Prop :=
  self = ofWords std words ∨ ∃ used, Used std words used ∧ self = used.reset

lemma Used.words_eq (h : Used std words self) : self.words = (ofWords std words).words := by
  induction h with
  | constructed => rfl
  | updated commands now r _ ih => rw [words_update, ih]
  | reset _ ih => rw [words_reset, ih]

lemma Fresh.words_eq (h : Fresh std words self) : self.words = (ofWords std words).words := by
  rcases h with rfl | ⟨used, hused, rfl⟩
  · rfl
  · rw [words_reset, hused.words_eq]

lemma Fresh.represents (h : Fresh std words self) : self.Represents (.initial self.words) := by
  rcases h with rfl | ⟨used, -, rfl⟩
  · exact represents_initial rfl rfl
  · exact represents_reset

lemma mem_words_ofWords : w ∈ (ofWords std words).words ↔ w ∈ words :=
  (perm_sortWords std words).mem_iff

/-! ## The order of the words -/

/-- Detectors for the same words, in any order, decide the same. -/
lemma runUpdates_eq_of_mem_iff {V : List TString} {self' : CContentRestorator}
    (hVW : ∀ x, x ∈ V ↔ x ∈ W) (hW : self.words = W) (hV : self'.words = V)
    (hp : self.Represents p) (hp' : self'.Represents p) :
    self'.runUpdates commands calls = self.runUpdates commands calls := by
  induction calls generalizing self self' p with
  | nil => rfl
  | cons c calls ih =>
    cases hdone : c.2.isModelDone with
    | none => rw [runUpdates_cons_failure hdone, runUpdates_cons_failure hdone, ih hW hV hp hp']
    | some done =>
      obtain ⟨q, hstep, hq⟩ := update_refines commands c.1 hp hdone
      obtain ⟨q', hstep', hq'⟩ := update_refines commands c.1 hp' hdone
      rw [hW] at hstep
      rw [hV] at hstep'
      obtain ⟨hres, rfl⟩ := hstep.unique hVW hstep'
      have hrest := ih (by rw [words_update, hW]) (by rw [words_update, hV]) hq hq'
      simp only [runUpdates, hres, hrest]

lemma Fresh.runUpdates_eq {self' : CContentRestorator} (h : Fresh std words self)
    (h' : Fresh std' words' self') (hmem : ∀ w, w ∈ words' ↔ w ∈ words) :
    self'.runUpdates commands calls = self.runUpdates commands calls := by
  have hwords : ∀ w, w ∈ self'.words ↔ w ∈ self.words := fun w => by
    rw [h.words_eq, h'.words_eq, mem_words_ofWords, mem_words_ofWords, hmem]
  have hstart := h'.represents
  rw [Phase.initial_eq_of_mem_iff hwords] at hstart
  exact runUpdates_eq_of_mem_iff hwords rfl rfl h.represents hstart

/-- What is decided on text that goes on while no word begins it: `D'` and `D` are the texts before
and after the chunk. -/
def unmatchedResult (words : List TString) (D' D : TString) : TUpdateResult :=
  if D.length < longest words then (.ollamaHasMore, .needMoreData .ollamaHasMore D)
  else if D'.length < longest words then (.ollamaHasMore, .passToUser .ollamaHasMore D)
  else (.ollamaHasMore, .alreadyDetected .ollamaHasMore)

/-- The detector has locked the word. -/
def Locked (self : CContentRestorator) (w : TString) : Prop :=
  self.isDetected = true ∧ self.detectedWord = w

lemma Represents.locked {D : TString} (h : self.Represents (.recognized w D)) : self.Locked w := by
  obtain ⟨i, hi, hdet, hword, -, -⟩ := h
  exact ⟨isDetected_of_lt hi hdet, (detectedWord_eq self hi hdet).trans hword⟩

/-- While no word begins the text, only the lengths count. -/
lemma Follows.unmatched (hne : W ≠ []) (h : Follows commands W seen p)
    (hs : DetectorStep W (consult commands c.1) p c.2.asSimpleString false res p')
    (hno : ∀ w ∈ W, ¬ w <+: heard (seen ++ [c])) :
    res = .ok (unmatchedResult W (heard seen) (heard (seen ++ [c]))) := by
  have htext : heard (seen ++ [c]) = heard seen ++ c.2.asSimpleString := heard_append_singleton
  rw [htext] at hno ⊢
  cases hs with
  | search _ hlong =>
    obtain ⟨rfl, -⟩ := h
    rw [unmatchedResult, if_pos (lt_longest_iff.2 hlong)]
    rfl
  | pass _ hfit =>
    obtain ⟨rfl, hseen⟩ := h
    have hlt : (heard seen).length < longest W := by
      by_cases hnil : seen = []
      · -- a list in which no word is empty
        obtain ⟨w, hw⟩ := List.exists_mem_of_ne_nil W hne
        have hpos : w ≠ [] := by
          rintro rfl
          exact hno [] hw List.nil_prefix
        exact lt_longest_iff.2 ⟨w, hw, by simpa [hnil] using List.length_pos_iff.2 hpos⟩
      · exact (hseen hnil).1
    rw [unmatchedResult, if_neg (not_lt.2 (longest_le_iff.2 hfit)), if_pos hlt]
    rfl
  | recognize hw =>
    obtain ⟨rfl, -⟩ := h
    exact absurd hw.isPrefix (hno _ hw.mem)
  | keep | release | fail =>
    obtain ⟨rfl, -, hw⟩ := h
    exact absurd (hw.append _).isPrefix (hno _ hw.mem)
  | already =>
    rcases h with ⟨hfit, -⟩ | ⟨w, hw, -⟩
    · have hle : longest W ≤ (heard seen ++ c.2.asSimpleString).length := by
        rw [List.length_append]
        omega
      rw [unmatchedResult, if_neg (not_lt.2 hle), if_neg (not_lt.2 hfit)]
      rfl
    · exact absurd (hw.append _).isPrefix (hno _ hw.mem)

/-- Once a word begins the text, only its command passes the text to the user. -/
lemma Follows.passes (h : Follows commands W seen p)
    (hs : DetectorStep W (consult commands c.1) p c.2.asSimpleString false res p')
    (hw : IsShortestPrefix W (heard (seen ++ [c])) w) {status : EReadingBehahve} {D : TString}
    (hres : res = .ok (status, .passToUser status D)) :
    seen ≠ [] ∧ w <+: heard seen ∧
      ∃ x, consult commands c.1 w (heard (seen ++ [c])) = .ok (.thatWasResponseToUser x) := by
  have htext : heard (seen ++ [c]) = heard seen ++ c.2.asSimpleString := heard_append_singleton
  rw [htext] at hw ⊢
  cases hs with
  | pass hno =>
    obtain ⟨rfl, -⟩ := h
    exact absurd hw.isPrefix (hno w hw.mem)
  | @release D text v x hr =>
    obtain ⟨rfl, hlock, hv⟩ := h
    obtain rfl := (hv.append _).unique hw
    exact ⟨hlock.ne_nil, hv.isPrefix, x, hr⟩
  | search | recognize | keep | fail | already => cases hres

/-- A word that begins the text is locked until its command passes the text to the user. -/
lemma Follows.locked (h : Follows commands self.words seen p) (hp : self.Represents p)
    (hw : IsShortestPrefix self.words (heard seen) w) (hne : seen ≠ [])
    (hmore : ∀ d ∈ seen, d.2.isModelDone = some false) :
    self.Locked w ∨ ReleasedBy commands w seen := by
  cases p with
  | searching D =>
    obtain ⟨rfl, hno⟩ := h
    exact absurd hw.isPrefix ((hno hne).2 w hw.mem)
  | recognized v D =>
    obtain ⟨rfl, -, hv⟩ := h
    exact Or.inl (hv.unique hw ▸ hp.locked)
  | decided =>
    rcases h with ⟨-, hno⟩ | ⟨v, hv, hrel | ⟨d, hd, htrue⟩⟩
    · exact absurd hw.isPrefix (hno w hw.mem)
    · exact Or.inr (hv.unique hw ▸ hrel)
    · exact absurd ((hmore d hd).symm.trans htrue) (by simp)

/-- **Recognition is exact and does not depend on the order of the words.**  A detector for a
non-empty list of words was constructed or reset, and hears text which goes on.
While no word begins the text, it asks for more data exactly while the text is shorter than the
longest word, passes the text on with the first chunk that reaches this length, and has decided
afterwards.  If a word begins the text, the shortest one is locked by the first chunk that reaches
its length; it stays locked, and the text is not passed on, until its command says so.
The words that are compared with the text fit into it, so `std::equal` stays inside; and a detector
for the same words in any order, sorted in any way, decides the same. -/
theorem recognition (commands : TAiCommands) (hne : words ≠ []) (hfresh : Fresh std words self)
    (hmore : ∀ d ∈ seen ++ [c], d.2.isModelDone = some false) :
    let D' := heard seen
    let D := heard (seen ++ [c])
    let detector := self.afterUpdates commands seen
    let step := detector.update commands c.1 c.2
    ((∀ w ∈ words, ¬ w <+: D) → step.result = .ok (unmatchedResult words D' D)) ∧
    (∀ w, IsShortestPrefix words D w →
      (seen = [] ∨ D'.length < w.length →
        step.result = .ok (.ollamaHasMore, .needMoreData .ollamaHasMore D) ∧ step.self.Locked w) ∧
      (step.self.Locked w ∨ ReleasedBy commands w (seen ++ [c])) ∧
      (∀ status text, step.result = .ok (status, .passToUser status text) →
        seen ≠ [] ∧ w <+: D' ∧ ∃ x, consult commands c.1 w D = .ok (.thatWasResponseToUser x))) ∧
    (∀ data, ∀ word ∈ detector.words.take (fitting detector.words data.length),
      word.length ≤ data.length ∧ stdEqual word data = some (word.isPrefixOf data)) ∧
    (∀ std' words' self', (∀ w, w ∈ words' ↔ w ∈ words) → Fresh std' words' self' →
      ∀ calls, self'.runUpdates commands calls = self.runUpdates commands calls) := by
  intro D' D detector step
  have hmem : ∀ w, w ∈ self.words ↔ w ∈ words := fun w => by
    rw [hfresh.words_eq, mem_words_ofWords]
  have hne' : self.words ≠ [] := by
    obtain ⟨w, hw⟩ := List.exists_mem_of_ne_nil words hne
    exact List.ne_nil_of_mem ((hmem w).2 hw)
  have hstart : self.Represents (.searching []) := by
    have h := hfresh.represents
    rwa [Phase.initial, if_neg hne'] at h
  -- the phase before the last call, and its step
  have hwords : detector.words = self.words := words_afterUpdates
  obtain ⟨p, hfollows, hp⟩ := exists_follows commands rfl hstart
    fun d hd => by rw [hmore d (List.mem_append_left [c] hd)]; rfl
  obtain ⟨p', hstep, hp'⟩ := update_refines commands c.1 hp (hmore c (by simp))
  change DetectorStep detector.words _ _ _ _ _ _ at hstep
  rw [hwords] at hstep
  refine ⟨fun hno => ?_, fun w hw => ?_, fun data word hword => ?_, ?_⟩
  · have hunmatched := hfollows.unmatched hne' hstep fun w hw => hno w ((hmem w).1 hw)
    rw [unmatchedResult, longest_eq_of_mem_iff hmem] at hunmatched
    exact hunmatched
  · have hw' := hw.of_mem_iff hmem
    refine ⟨fun hfirst => ?_, ?_, fun status text hres => hfollows.passes hstep hw' hres⟩
    · obtain ⟨hres, rfl⟩ := hfollows.locks hstep hw' hfirst
      exact ⟨hres, hp'.locked⟩
    · have hW : step.self.words = self.words := words_update.trans hwords
      have hfollows' := hfollows.step (hmore c (by simp)) hstep
      rw [← hW] at hfollows' hw'
      exact hfollows'.locked hp' hw' (by simp) hmore
  · have hle := length_le_of_mem_take_fitting hword
    exact ⟨hle, stdEqual_of_length_le hle⟩
  · exact fun std' words' self' hmem' hfresh' calls => hfresh.runUpdates_eq hfresh' hmem'

/-- Three words, of which the shortest that begins the text is locked by the second chunk of a
detector that was reset. -/
theorem recognition_reset :
    let words := [lit "_CCC", lit "_BBB", lit "_B"]
    let commands := getAiCommandsList fun _ _ => .ok []
    let self := ((ofWords .stable words).update commands 0 (.ofText (lit "Hello") true)).self.reset
    let step := ((self.update commands 1 (.ofText (lit "_") false)).self.update commands 2
      (.ofText (lit "BB") false))
    step.result = .ok (.ollamaHasMore, .needMoreData .ollamaHasMore (lit "_BB")) ∧
      step.self.Locked (lit "_B") := by
  intro words commands self step
  have hfresh : Fresh .stable words self :=
    Or.inr ⟨_, .updated commands 0 (.ofText (lit "Hello") true) .constructed, rfl⟩
  have hshort : IsShortestPrefix words (lit "_BB") (lit "_B") := by
    refine ⟨by decide, by decide, fun v hv hpre => ?_⟩
    rcases (by simpa [words] using hv : v = _ ∨ v = _ ∨ v = _) with rfl | rfl | rfl
    · decide
    · decide
    · decide
  have hmore : ∀ d ∈ [(1, TOllamaResponse.ofText (lit "_") false)]
      ++ [(2, TOllamaResponse.ofText (lit "BB") false)], d.2.isModelDone = some false := by
    intro d hd
    rcases (by simpa using hd : d = _ ∨ d = _) with rfl | rfl
    · exact (isChunk_ofText _ _).modelDone
    · exact (isChunk_ofText _ _).modelDone
  exact ((recognition commands (by decide : words ≠ []) hfresh hmore).2.1 _ hshort).1
    (Or.inr (by decide))

end CContentRestorator

end OllamaMitm
