import OllamaMitm.Following

/-!
# When `Update` throws

`Update` looks the recognised word up in the built-in table, whatever the words are that it looks
for.  So a word of another list is not found there, and this matters if text goes on after the
response that completed the word.
-/

namespace OllamaMitm

open Lib

namespace CContentRestorator

variable {self : CContentRestorator} {commands : TAiCommands} {std : LengthSort}
variable {words keys : List TString} {seen calls : List (ℕ × TOllamaResponse)}
variable {c : ℕ × TOllamaResponse} {w text : TString} {now : ℕ} {e : TException}
variable {x : Except TException TUpdateResult}

/-- A detector for the words, from one of the two constructors. -/
def Constructed (std : LengthSort) (words : List TString) (self : CContentRestorator) : Prop :=
  self = ofWords std words ∨
    ∃ table : TAiCommands, table.keys = words ∧ self = ofCommands std table

lemma Constructed.eq (h : Constructed std words self) : self = ofWords std words := by
  rcases h with rfl | ⟨table, rfl, rfl⟩
  · rfl
  · rfl

/-- The calls with a response that has a boolean `done`. -/
def spoken (calls : List (ℕ × TOllamaResponse)) : List (ℕ × TOllamaResponse) :=
  calls.filter fun c => c.2.isModelDone.isSome

/-- Some word is completed by a response after which the text goes on with the next one, and the
word, the shortest that begins the text, is none of the keys. -/
def Unanswered (keys words : List TString) (calls : List (ℕ × TOllamaResponse)) : Prop :=
  ∃ before lock next after w, spoken calls = before ++ lock :: next :: after ∧
    lock.2.isModelDone = some false ∧ next.2.isModelDone = some false ∧
    IsShortestPrefix words (heard (before ++ [lock])) w ∧
    (before = [] ∨ (heard before).length < w.length) ∧ w ∉ keys

/-- Only the set of words matters. -/
lemma Unanswered.of_mem_iff {words' : List TString} (hmem : ∀ x, x ∈ words' ↔ x ∈ words)
    (h : Unanswered keys words calls) : Unanswered keys words' calls := by
  obtain ⟨before, lock, next, after, w, hsplit, hlock, hnext, hw, hrest⟩ := h
  exact ⟨before, lock, next, after, w, hsplit, hlock, hnext, hw.of_mem_iff hmem, hrest⟩

lemma Unanswered.ne_nil (h : Unanswered keys words calls) : words ≠ [] := by
  obtain ⟨before, lock, next, after, w, -, -, -, hw, -⟩ := h
  exact List.ne_nil_of_mem hw.mem

/-! ## Single calls of a run -/

lemma mem_runUpdates : x ∈ self.runUpdates commands calls ↔ ∃ seen c after,
    calls = seen ++ c :: after ∧
      x = ((self.afterUpdates commands seen).update commands c.1 c.2).result := by
  induction calls generalizing self with
  | nil => simp [runUpdates]
  | cons d calls ih =>
    simp only [runUpdates, List.mem_cons, ih]
    constructor
    · rintro (rfl | ⟨seen, c, after, rfl, rfl⟩)
      · exact ⟨[], d, calls, rfl, rfl⟩
      · exact ⟨d :: seen, c, after, rfl, rfl⟩
    · rintro ⟨seen, c, after, hcalls, rfl⟩
      cases seen with
      | nil =>
        obtain ⟨rfl, rfl⟩ := List.cons.inj hcalls
        exact Or.inl rfl
      | cons d' seen =>
        obtain ⟨rfl, rfl⟩ := List.cons.inj hcalls
        exact Or.inr ⟨seen, c, after, rfl, rfl⟩

/-- Responses without a boolean `done` cause no exception. -/
lemma error_mem_runUpdates_spoken : .error e ∈ self.runUpdates commands (spoken calls) ↔
    .error e ∈ self.runUpdates commands calls := by
  induction calls generalizing self with
  | nil => rfl
  | cons c calls ih =>
    cases hdone : c.2.isModelDone with
    | none =>
      have hskip : spoken (c :: calls) = spoken calls :=
        List.filter_cons_of_neg (by simp [hdone])
      rw [hskip, ih, runUpdates_cons_failure hdone, List.mem_cons]
      simp
    | some done =>
      have hkeep : spoken (c :: calls) = c :: spoken calls :=
        List.filter_cons_of_pos (by simp [hdone])
      rw [hkeep]
      simp only [runUpdates, List.mem_cons, ih]

lemma isSome_of_mem_spoken : ∀ d ∈ spoken calls, d.2.isModelDone.isSome := fun _ hd =>
  (List.mem_filter.1 hd).2

lemma isSome_of_spoken_eq (h : spoken calls = seen) : ∀ d ∈ seen, d.2.isModelDone.isSome :=
  h ▸ isSome_of_mem_spoken

/-! ## Consulting the table -/

/-- A word that is no key is not found. -/
lemma consult_of_not_mem (hw : w ∉ commands.keys) :
    consult commands now w text = .error ⟨lit "_Map_base::at"⟩ := by
  have hfind : commands.find? w = none := by
    cases hcmd : commands.find? w with
    | none => rfl
    | some cmd => exact absurd (List.mem_map_of_mem (TAiCommands.mem_of_find? hcmd)) hw
  simp only [consult, TAiCommands.atKey, hfind]

/-- Where no provider throws, only the look-up does. -/
lemma not_mem_of_consult (hnt : commands.NoThrow) (h : consult commands now w text = .error e) :
    w ∉ commands.keys := by
  intro hw
  obtain ⟨a, ha⟩ := exists_consult hnt now hw text
  exact absurd (ha.symm.trans h) (by simp)

/-- A call that throws looks up a word that is no key. -/
lemma not_mem_of_update_error (hnt : commands.NoThrow) {p p' : Phase} {done : Bool}
    (h : DetectorStep words (consult commands now) p text done (.error e) p') :
    ∃ w D, p = .recognized w D ∧ done = false ∧ w ∉ commands.keys ∧
      e = ⟨lit "_Map_base::at"⟩ := by
  cases h with
  | @fail D text w e hr =>
    have hw := not_mem_of_consult hnt hr
    rw [consult_of_not_mem hw] at hr
    exact ⟨w, D, rfl, rfl, hw, (Except.error.inj hr).symm⟩

lemma error_of_not_mem {D : TString} {p' : Phase} (hw : w ∉ commands.keys)
    (h : DetectorStep words (consult commands now) (.recognized w D) text false x p') :
    ∃ e, x = .error e := by
  cases h with
  | keep hr | release hr => exact absurd ((consult_of_not_mem hw).symm.trans hr) (by simp)
  | fail hr => exact ⟨_, rfl⟩

/-! ## Runs -/

/-- A call of a run that throws comes after the response that completed the word. -/
lemma unanswered_of_error (hnt : commands.NoThrow) (hW : self.words = words)
    (hstart : self.Represents (.searching []))
    (h : .error e ∈ self.runUpdates commands calls) :
    Unanswered commands.keys words calls ∧ e = ⟨lit "_Map_base::at"⟩ := by
  obtain ⟨seen, c, after, hsplit, hres⟩ := mem_runUpdates.1 (error_mem_runUpdates_spoken.2 h)
  have hall := isSome_of_spoken_eq hsplit
  obtain ⟨p, hfollows, hp⟩ := exists_follows commands hW hstart
    fun d hd => hall d (List.mem_append_left _ hd)
  obtain ⟨done, hdone⟩ := Option.isSome_iff_exists.1 (hall c (by simp))
  obtain ⟨p', hstep, -⟩ := update_refines commands c.1 hp hdone
  rw [words_afterUpdates, hW, ← hres] at hstep
  obtain ⟨w, D, rfl, rfl, hno, he⟩ := not_mem_of_update_error hnt hstep
  obtain ⟨rfl, ⟨before, lock, rest, rfl, hfirst, hpre, hmore⟩, hw⟩ := hfollows
  refine ⟨?_, he⟩
  have hshort : IsShortestPrefix words (heard (before ++ [lock])) w := by
    have htext : heard (before ++ lock :: rest) = heard (before ++ [lock]) ++ heard rest := by
      simp [heard]
    rw [htext] at hw
    exact hw.of_append hpre.length_le
  -- the response after the one that completed the word
  cases rest with
  | nil => exact ⟨before, lock, c, after, w, by simpa using hsplit, hmore lock (by simp), hdone,
      hshort, hfirst, hno⟩
  | cons next rest => exact ⟨before, lock, next, rest ++ c :: after, w, by simpa using hsplit,
      hmore lock (by simp), hmore next (by simp), hshort, hfirst, hno⟩

/-- The response after the one that completed the word makes the call throw. -/
lemma error_of_unanswered (hW : self.words = words) (hstart : self.Represents (.searching []))
    (h : Unanswered commands.keys words calls) :
    ∃ e, .error e ∈ self.runUpdates commands calls := by
  obtain ⟨before, lock, next, after, w, hsplit, hlock, hnext, hw, hfirst, hno⟩ := h
  have hall := isSome_of_spoken_eq hsplit
  obtain ⟨p, hfollows, hp⟩ := exists_follows commands hW hstart
    fun d hd => hall d (List.mem_append_left _ hd)
  obtain ⟨q, hlocks, hq⟩ := update_refines commands lock.1 hp hlock
  rw [words_afterUpdates, hW] at hlocks
  obtain ⟨-, rfl⟩ := hfollows.locks hlocks hw hfirst
  obtain ⟨q', hstep, -⟩ := update_refines commands next.1 hq hnext
  obtain ⟨e, he⟩ := error_of_not_mem hno hstep
  refine ⟨e, error_mem_runUpdates_spoken.1 (mem_runUpdates.2
    ⟨before ++ [lock], next, after, by simpa using hsplit, ?_⟩)⟩
  rw [afterUpdates_append]
  exact he.symm

/-- Where there is nothing to look for, no call throws. -/
lemma not_error_of_decided (hp : self.Represents .decided) :
    .error e ∉ self.runUpdates commands calls := by
  rw [← error_mem_runUpdates_spoken, runUpdates_decided hp isSome_of_mem_spoken]
  simp

/-- **When `Update` is total.**  A detector was built from a list of words or from a table, and
gets responses with any texts and marks.  All calls return a decision if and only if no response
completes a word that is no key of the built-in table and is followed by another one that goes on;
and no call finds its logic broken.  The date library is taken not to throw. -/
theorem total_iff {provideDateTimeForAi : ℕ → TString → Except TException TString}
    (hprovide : NeverThrows provideDateTimeForAi) (h : Constructed std words self)
    (calls : List (ℕ × TOllamaResponse)) :
    let commands := getAiCommandsList provideDateTimeForAi
    let results := self.runUpdates commands calls
    ((∀ x ∈ results, ∃ a, x = .ok a) ↔ ¬Unanswered commands.keys words calls) ∧
      .error ⟨lit "Logic flow is broken."⟩ ∉ results := by
  intro commands results
  obtain rfl := h.eq
  have hnt : commands.NoThrow := (getAiCommandsList_keywordOnly hprovide).noThrow
  have hmem : ∀ w, w ∈ (ofWords std words).words ↔ w ∈ words := fun w =>
    (perm_sortWords std words).mem_iff
  have herrors : (∀ e, .error e ∈ results →
      Unanswered commands.keys words calls ∧ e = ⟨lit "_Map_base::at"⟩) ∧
      (Unanswered commands.keys words calls → ∃ e, .error e ∈ results) := by
    have hinit := represents_initial (rfl : (ofWords std words).lastDetected = none) rfl
    by_cases hnil : (ofWords std words).words = []
    · rw [Phase.initial, if_pos hnil] at hinit
      refine ⟨fun e he => absurd he (not_error_of_decided hinit), fun hun => ?_⟩
      exact absurd hnil (hun.of_mem_iff hmem).ne_nil
    · rw [Phase.initial, if_neg hnil] at hinit
      refine ⟨fun e he => ?_, fun hun => ?_⟩
      · obtain ⟨hun, he'⟩ := unanswered_of_error hnt rfl hinit he
        exact ⟨hun.of_mem_iff fun w => (hmem w).symm, he'⟩
      · exact error_of_unanswered rfl hinit (hun.of_mem_iff hmem)
  refine ⟨⟨fun hok hun => ?_, fun hno x hx => ?_⟩, fun hlogic => ?_⟩
  · obtain ⟨e, he⟩ := herrors.2 hun
    obtain ⟨a, ha⟩ := hok _ he
    cases ha
  · cases x with
    | ok a => exact ⟨a, rfl⟩
    | error e => exact absurd (herrors.1 e hx).1 hno
  · exact absurd (herrors.1 _ hlogic).2 (by decide)

/-- The words of the built-in table: they are found there also when the text goes on. -/
theorem total_iff_getAiCommandsList :
    let commands := getAiCommandsList fun _ _ => .ok []
    ∀ x ∈ (ofCommands .stable commands).runUpdates commands
      [(0, .ofText (lit "AI_DATE_TIME_NOW") false), (1, .ofText (lit " is") false)],
      ∃ a, x = .ok a := by
  intro commands
  have hconstructed : Constructed .stable commands.keys (ofCommands .stable commands) :=
    Or.inr ⟨commands, rfl, rfl⟩
  refine (total_iff (neverThrows_ok _) hconstructed _).1.2 ?_
  rintro ⟨before, lock, next, after, w, -, -, -, hw, -, hno⟩
  exact hno hw.mem

/-- A word of the tests is completed by the first of two responses that go on: the second call
throws. -/
theorem not_total_tests :
    let words := [lit "_A", lit "_BB", lit "_CCC"]
    let commands := getAiCommandsList fun _ _ => .ok []
    let results := (ofWords .stable words).runUpdates commands
      [(0, .ofText (lit "_A") false), (1, .ofText (lit "x") false)]
    results = [.ok (.ollamaHasMore, .needMoreData .ollamaHasMore (lit "_A")),
        .error ⟨lit "_Map_base::at"⟩] ∧
      ¬∀ x ∈ results, ∃ a, x = .ok a := by
  intro words commands results
  have hresults : results = [.ok (.ollamaHasMore, .needMoreData .ollamaHasMore (lit "_A")),
      .error ⟨lit "_Map_base::at"⟩] := rfl
  refine ⟨hresults, fun hok => ?_⟩
  obtain ⟨a, ha⟩ := hok (.error ⟨lit "_Map_base::at"⟩) (by rw [hresults]; simp)
  cases ha

end CContentRestorator

end OllamaMitm
