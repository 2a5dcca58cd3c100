import Mathlib.Data.List.Sort
import OllamaMitm.Commands
import OllamaMitm.Lib.PrefixMatch
import OllamaMitm.Messages

/-!
# The content restorator

`network/contentrestorator.hpp` and `.cpp`: the detector that collects the text of a reply until
it is sure whether the reply begins with a keyword.  Its position in the list of words is an
iterator: none while the text is still searched, the end of the list once everything is to be
passed to the user, and the recognised word otherwise.
-/

namespace OllamaMitm

open Lib

/-- `CContentRestorator::EReadingBehahve`. -/
inductive EReadingBehahve where
  | ollamaHasMore
  | ollamaSentAll
  | communicationFailure
deriving DecidableEq

/-- `CContentRestorator::TDetected`. -/
structure TDetected where
  status : EReadingBehahve
  whatDetected : TString
  collectedString : TString
deriving DecidableEq

/-- `CContentRestorator::TDecision`. -/
inductive TDecision where
  | needMoreData (status : EReadingBehahve) (currentlyCollectedString : TString)
  | passToUser (status : EReadingBehahve) (collectedString : TString)
  | detected (detected : TDetected)
  | alreadyDetected (status : EReadingBehahve)
deriving DecidableEq

/-- `CContentRestorator::TUpdateResult`. -/
abbrev TUpdateResult := EReadingBehahve × TDecision

/-- `std::sort` with the comparison by length: a permutation that is sorted by length.  How the
words of one length are ordered among each other is left open. -/
structure LengthSort where
  sort : List TString → List TString
  perm : ∀ words, (sort words).Perm words
  sorted : ∀ words, SortedByLength (sort words)

/-- A sort that keeps the order of the words of one length. -/
def LengthSort.stable : LengthSort where
  sort := List.insertionSort fun a b => a.length ≤ b.length
  perm := List.perm_insertionSort _
  sorted := fun words => by
    have : IsTrans TString fun a b => a.length ≤ b.length := ⟨fun _ _ _ => Nat.le_trans⟩
    have : Std.Total (fun a b : TString => a.length ≤ b.length) := ⟨fun _ _ => Nat.le_total _ _⟩
    exact List.pairwise_insertionSort _ _

/-- `CContentRestorator::TStorage`: the words to look for, sorted by length. -/
structure TStorage where
  words : List TString
  sorted : SortedByLength words

/-- `CContentRestorator`. -/
structure CContentRestorator where
  whatToLookFor : TStorage
  lastDetected : Option ℕ
  lastData : TString

namespace CContentRestorator

/-! ## Construction -/

/-- `BuildWordsList`. -/
def buildWordsList (aWhatToLookFor : TAiCommands) : List TString :=
  aWhatToLookFor.entries.map fun cmd => cmd.1

/-- The words as the constructor stores them: a list of one word is not sorted. -/
def sortWords (std : LengthSort) (words : List TString) : TStorage :=
  if h : words.length > 1 then ⟨std.sort words, std.sorted words⟩
  else ⟨words, by
    match words, h with
    | [], _ => exact List.Pairwise.nil
    | [w], _ => exact List.pairwise_singleton _ _
    | _ :: _ :: _, h => exact absurd (by simp) h⟩

/-- `CContentRestorator(TAssistWords)`. -/
def ofWords (std : LengthSort) (aWhatToLookFor : List TString) : CContentRestorator where
  whatToLookFor := sortWords std aWhatToLookFor
  lastDetected := none
  lastData := []

/-- `CContentRestorator(TAiCommands)`. -/
def ofCommands (std : LengthSort) (aWhatToLookFor : TAiCommands) : CContentRestorator :=
  ofWords std (buildWordsList aWhatToLookFor)

/-! ## Updates -/

variable (self : CContentRestorator)

/-- The words the detector looks for. -/
def words : List TString := self.whatToLookFor.words

/-- `CContentRestorator::Reset`. -/
def reset : CContentRestorator := { self with lastData := [], lastDetected := none }

/-- `CContentRestorator::IsPassToUser`. -/
def isPassToUser : Bool := self.lastDetected == some self.words.length

/-- `CContentRestorator::IsDetected`. -/
def isDetected : Bool := self.lastDetected.isSome && self.lastDetected != some self.words.length

/-- The word `**lastDetected` points to. -/
def detectedWord : TString := self.words.getD (self.lastDetected.getD 0) []

/-- `lastDetected = it`. -/
def lock (it : ℕ) : CContentRestorator := { self with lastDetected := some it }

/-- `lastData.append(str)`. -/
def append (str : TString) : CContentRestorator := { self with lastData := self.lastData ++ str }

/-- `lastDetected = whatToLookFor.cend()`, with `lastData` moved out. -/
def release : CContentRestorator :=
  { self with lastDetected := some self.words.length, lastData := [] }

/-- What one call of `Update` does: the detector it leaves, what it returns or throws, and the
providers it calls on the way. -/
structure UpdateStep where
  self : CContentRestorator
  result : Except TException TUpdateResult
  calls : List TProviderCall

/-- `CContentRestorator::AllReceivedResult`. -/
def allReceivedResult : UpdateStep :=
  if self.isDetected then
    { self := self.release
      result := .ok (.ollamaSentAll,
        .detected ⟨.ollamaSentAll, self.detectedWord, self.lastData⟩)
      calls := [] }
  else { self := self, result := .error ⟨lit "Logic flow is broken."⟩, calls := [] }

/-- The lambda `finalizePassToUser` of `Update`. -/
def finalizePassToUser (status : EReadingBehahve) : UpdateStep where
  self := self.release
  result := .ok (status, .passToUser status self.lastData)
  calls := []

/-- Return `TNeedMoreData` with the text collected so far. -/
def needMoreData (status : EReadingBehahve) : UpdateStep where
  self := self
  result := .ok (status, .needMoreData status self.lastData)
  calls := []

/-- The branch of `Update` for a recognised word whose text is still incomplete: the command is
asked whether this is chatting that happens to begin with the keyword. -/
def askProvider (commands : TAiCommands) (now : ℕ) (status : EReadingBehahve) : UpdateStep :=
  match commands.atKey self.detectedWord with
  | .error e => { self := self, result := .error e, calls := [] }
  | .ok cmd =>
    let calls := [⟨self.detectedWord, self.lastData⟩]
    match cmd.resultProvider now self.detectedWord self.lastData with
    | .error e => { self := self, result := .error e, calls := calls }
    | .ok (.thatWasResponseToUser _) => { self.finalizePassToUser status with calls := calls }
    | .ok _ => { self.needMoreData status with calls := calls }

/-- The last part of `Update`: look for a word that begins the collected text. -/
def recognize (status : EReadingBehahve) : UpdateStep :=
  let dataSize := self.lastData.length
  let itEnd := fitting self.words dataSize
  if (itEnd = self.words.length ∧ (self.words.getLastD []).length > dataSize)
      ∨ (self.isDetected ∧ status = .ollamaHasMore) then
    -- not enough of data to recognize
    self.needMoreData status
  else
    match scan self.words self.lastData with
    | some it =>
      if (self.lock it).isDetected ∧ status = .ollamaHasMore then
        (self.lock it).needMoreData status
      else (self.lock it).allReceivedResult
    | none =>
      if itEnd ≠ self.words.length then self.needMoreData status
      else self.finalizePassToUser status

/-- `status` of `Update`, from the field `done`. -/
def statusOf (isDone : Bool) : EReadingBehahve := if isDone then .ollamaSentAll else .ollamaHasMore

/-- `Update` once the text of the response has been appended. -/
def classify (commands : TAiCommands) (now : ℕ) (status : EReadingBehahve) : UpdateStep :=
  if self.isDetected ∧ status = .ollamaSentAll then self.allReceivedResult
  else if self.isDetected ∧ status = .ollamaHasMore then self.askProvider commands now status
  else self.recognize status

/-- `CContentRestorator::Update`, called at the instant `now`. -/
def update (commands : TAiCommands) (now : ℕ) (respFromOllama : TOllamaResponse) : UpdateStep :=
  match respFromOllama.isModelDone with
  | none =>
    { self := self, result := .ok (.communicationFailure, .alreadyDetected .ollamaHasMore),
      calls := [] }
  | some isDone =>
    let status := statusOf isDone
    if self.isPassToUser ∨ self.words = [] then
      { self := self, result := .ok (status, .alreadyDetected status), calls := [] }
    else (self.append respFromOllama.asSimpleString).classify commands now status

end CContentRestorator

end OllamaMitm
