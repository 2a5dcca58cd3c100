import Mathlib.Algebra.Group.Nat.Defs
import OllamaMitm.Json

/-!
# The commands of the model

`commands/ollama_commands.hpp` and `.cpp`: the table of keywords the model may answer with, what
a command answers, the heuristic for commands that consist of their keyword only, and the
detector of a model that repeats itself.
-/

namespace OllamaMitm

/-- `TResponseToOllama`: what a command makes of the reply it was called on. -/
inductive TResponseToOllama where
  | thatWasResponseToUser (originalOllamaAnswer : TString)
  | thatWasRequestToFulfill (computedValueForOllama : TString)
  | probablyThatWasResponseToUser (computedValueForOllama : TString)
deriving DecidableEq

/-- `TAiCommand`.  A provider may look at the clock and at anything else outside the program, so
it also takes the instant at which it is called. -/
structure TAiCommand where
  instructionForAi : TString
  resultProvider : (now : ℕ) → (keyword request : TString) → Except TException TResponseToOllama

/-- `TAiCommands`, an unordered map: its entries in the order of iteration, one for each key. -/
structure TAiCommands where
  entries : List (TString × TAiCommand)
  nodup : (entries.map Prod.fst).Nodup

/-- One call of a `resultProvider`. -/
structure TProviderCall where
  keyword : TString
  request : TString
deriving DecidableEq

namespace TAiCommands

variable (commands : TAiCommands)

/-- The keywords of the table. -/
def keys : List TString := commands.entries.map Prod.fst

/-- `commands.find(key)`. -/
def find? (key : TString) : Option TAiCommand :=
  (commands.entries.find? fun e => e.1 == key).map Prod.snd

/-- `commands.at(key)`.  What the exception of a missing key says is up to the implementation; the
text is the one of an older libstdc++. -/
def atKey (key : TString) : Except TException TAiCommand :=
  match commands.find? key with
  | some cmd => .ok cmd
  | none => .error ⟨lit "_Map_base::at"⟩

/-- No provider of the table throws. -/
def NoThrow : Prop :=
  ∀ e ∈ commands.entries, ∀ now keyword request, ∃ r, e.2.resultProvider now keyword request = .ok r

variable {commands} {key : TString} {cmd : TAiCommand}

lemma mem_of_find? (h : commands.find? key = some cmd) : (key, cmd) ∈ commands.entries := by
  obtain ⟨e, he, rfl⟩ := Option.map_eq_some_iff.1 h
  have hkey := List.find?_some he
  have hmem := List.mem_of_find?_eq_some he
  have : e.1 = key := by simpa using hkey
  rwa [← this]

lemma exists_of_mem_keys (h : key ∈ commands.keys) : ∃ cmd, commands.find? key = some cmd := by
  obtain ⟨e, he, rfl⟩ := List.mem_map.1 h
  cases hf : commands.entries.find? fun e' => e'.1 == e.1 with
  | none =>
    rw [List.find?_eq_none] at hf
    exact absurd (hf e he) (by simp)
  | some e' => exact ⟨e'.2, by simp [find?, hf]⟩

lemma atKey_of_find? (h : commands.find? key = some cmd) : commands.atKey key = .ok cmd := by
  simp [atKey, h]

end TAiCommands

/-! ## Commands that are their keyword only -/

/-- `MakeTypicalResponseForKeywordOnly`: a reply that is the keyword up to whitespace is a
request, and the answer provider is called; every other reply was meant for the user. -/
def makeTypicalResponseForKeywordOnly (answerProvider : TString → Except TException TString)
    (keyword request : TString) : Except TException TResponseToOllama :=
  if trimCopy request = keyword then do
    return .thatWasRequestToFulfill (← answerProvider request)
  else .ok (.thatWasResponseToUser request)

/-- All commands of the table use the keyword-only heuristic, and none of their answer providers
throws. -/
structure TAiCommands.KeywordOnly (commands : TAiCommands) : Prop where
  typical : ∀ e ∈ commands.entries, ∃ answerProvider : ℕ → TString → Except TException TString,
    ∀ now keyword request, e.2.resultProvider now keyword request =
      makeTypicalResponseForKeywordOnly (answerProvider now) keyword request
  noThrow : commands.NoThrow

/-- An answer provider that never throws. -/
def NeverThrows (answerProvider : ℕ → TString → Except TException TString) : Prop :=
  ∀ now request, ∃ answer, answerProvider now request = .ok answer

lemma neverThrows_ok (answerProvider : ℕ → TString → TString) :
    NeverThrows fun now request => .ok (answerProvider now request) := fun _ _ => ⟨_, rfl⟩

lemma NeverThrows.makeTypicalResponse {answerProvider : ℕ → TString → Except TException TString}
    (h : NeverThrows answerProvider) (now : ℕ) (keyword request : TString) :
    ∃ r, makeTypicalResponseForKeywordOnly (answerProvider now) keyword request = .ok r := by
  rw [makeTypicalResponseForKeywordOnly]
  split
  · obtain ⟨answer, hanswer⟩ := h now request
    exact ⟨_, by rw [hanswer]; rfl⟩
  · exact ⟨_, rfl⟩

/-- `GetAiCommandsList()`, over the date library that `ProvideDateTimeForAi` asks. -/
def getAiCommandsList (provideDateTimeForAi : ℕ → TString → Except TException TString) :
    TAiCommands where
  entries :=
    [(lit "AI_DATE_TIME_NOW",
      { instructionForAi :=
          lit "You have access to real current local date and time value now. " ++
          lit "To check it respond with single word $\x7bKEYWORD\x7d.\n" ++
          lit "You will receive reply with current local system date and time in ISO 8601 " ++
          lit "format including time zone offset (e.g., Monday 2025-04-25T16:10:00+03:00).\n" ++
          lit "Treat received value as fact, as current known date and time.\n" ++
          lit "Translate the fact to proper language user uses."
        resultProvider := fun now keyword request =>
          makeTypicalResponseForKeywordOnly (provideDateTimeForAi now) keyword request })]
  nodup := by simp

variable {provideDateTimeForAi : ℕ → TString → Except TException TString}

lemma getAiCommandsList_keywordOnly (h : NeverThrows provideDateTimeForAi) :
    (getAiCommandsList provideDateTimeForAi).KeywordOnly where
  typical := by
    intro e he
    rw [getAiCommandsList, List.mem_singleton] at he
    subst he
    exact ⟨provideDateTimeForAi, fun _ _ _ => rfl⟩
  noThrow := by
    intro e he now keyword request
    rw [getAiCommandsList, List.mem_singleton] at he
    subst he
    exact h.makeTypicalResponse now keyword request

@[simp] lemma keys_getAiCommandsList :
    (getAiCommandsList provideDateTimeForAi).keys = [lit "AI_DATE_TIME_NOW"] := rfl

/-- All keywords are non-empty and have no whitespace at their ends. -/
def TAiCommands.CleanKeys (commands : TAiCommands) : Prop := ∀ w ∈ commands.keys, Clean w

lemma getAiCommandsList_cleanKeys : (getAiCommandsList provideDateTimeForAi).CleanKeys := by
  intro w hw
  rw [keys_getAiCommandsList, List.mem_singleton] at hw
  subst hw
  exact clean_of_all (by decide) (by decide) (by decide)

/-! ## The loop detector -/

/-- `CAiLoopDetector`. -/
structure CAiLoopDetector where
  lastCommand : TString := []
  counter : ℕ := 0

namespace CAiLoopDetector

/-- `CAiLoopDetector::kMaxRepeats`. -/
def kMaxRepeats : ℕ := 3

/-- `CAiLoopDetector::Update`; the counter is a `size_t`. -/
def update (self : CAiLoopDetector) (command : TString) : CAiLoopDetector :=
  if command = self.lastCommand then { self with counter := (self.counter + 1) % 2 ^ 64 }
  else { lastCommand := command, counter := 1 }

/-- `CAiLoopDetector::Reset`. -/
def reset (_self : CAiLoopDetector) : CAiLoopDetector := { lastCommand := [], counter := 0 }

/-- `CAiLoopDetector::IsLooping`. -/
def isLooping (self : CAiLoopDetector) : Bool := decide (self.counter ≥ kMaxRepeats)

end CAiLoopDetector

end OllamaMitm
