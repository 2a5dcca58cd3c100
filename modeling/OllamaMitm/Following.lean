import OllamaMitm.DetectorRun
import OllamaMitm.Reply

/-!
# The phase after some text

A detector that has heard the text of some responses, with any marks: as long as it has not
decided, its phase is the one that the text determines, and a word that is recognised was locked by
the response that completed it.
-/

namespace OllamaMitm

open Lib

namespace CContentRestorator

variable {self : CContentRestorator} {commands : TAiCommands} {W : List TString}
variable {seen calls : List (ℕ × TOllamaResponse)} {c : ℕ × TOllamaResponse} {p p' : Phase}
variable {w : TString} {done : Bool} {res : Except TException TUpdateResult}

/-! ## What the text so far determines -/

/-- The text of the responses of some calls. -/
def heard (calls : List (ℕ × TOllamaResponse)) : TString := textOf (calls.map Prod.snd)

@[simp] lemma heard_nil : heard [] = [] := rfl

lemma heard_append_singleton : heard (seen ++ [c]) = heard seen ++ c.2.asSimpleString := by
  simp [heard]

/-- After the word had begun the text, its command took the text for a reply to the user. -/
def ReleasedBy (commands : TAiCommands) (w : TString) (calls : List (ℕ × TOllamaResponse)) : Prop :=
  ∃ before d after x, calls = before ++ d :: after ∧ before ≠ [] ∧ w <+: heard before ∧
    consult commands d.1 w (heard (before ++ [d])) = .ok (.thatWasResponseToUser x)

lemma ReleasedBy.append (h : ReleasedBy commands w seen) (calls : List (ℕ × TOllamaResponse)) :
    ReleasedBy commands w (seen ++ calls) := by
  obtain ⟨before, d, after, x, rfl, hne, hw, hx⟩ := h
  exact ⟨before, d, after ++ calls, x, by simp, hne, hw, hx⟩

lemma ReleasedBy.ne_nil (h : ReleasedBy commands w seen) : seen ≠ [] := by
  obtain ⟨before, d, after, x, rfl, -⟩ := h
  simp

/-- The word was locked by the response that completed it, and the text went on. -/
def LockedBy (w : TString) (calls : List (ℕ × TOllamaResponse)) : Prop :=
  ∃ before d after, calls = before ++ d :: after ∧
    (before = [] ∨ (heard before).length < w.length) ∧ w <+: heard (before ++ [d]) ∧
    ∀ e ∈ d :: after, e.2.isModelDone = some false

lemma LockedBy.ne_nil (h : LockedBy w seen) : seen ≠ [] := by
  obtain ⟨before, d, after, rfl, -⟩ := h
  simp

lemma LockedBy.append (h : LockedBy w seen) (hc : c.2.isModelDone = some false) :
    LockedBy w (seen ++ [c]) := by
  obtain ⟨before, d, after, rfl, hfirst, hw, hmore⟩ := h
  refine ⟨before, d, after ++ [c], by simp, hfirst, hw, fun e he => ?_⟩
  rcases List.mem_append.1 (show e ∈ (d :: after) ++ [c] from he) with he | he
  · exact hmore e he
  · rw [List.mem_singleton.1 he]
    exact hc

/-- The phase of a detector that has heard the text of some responses. -/
def Follows (commands : TAiCommands) (W : List TString) (seen : List (ℕ × TOllamaResponse)) :
    Phase → Prop
  | .searching D => D = heard seen ∧
      (seen ≠ [] → D.length < longest W ∧ ∀ w ∈ W, ¬ w <+: D)
  | .recognized w D => D = heard seen ∧ LockedBy w seen ∧ IsShortestPrefix W D w
  | .decided => (longest W ≤ (heard seen).length ∧ ∀ w ∈ W, ¬ w <+: heard seen) ∨
      ∃ w, IsShortestPrefix W (heard seen) w ∧
        (ReleasedBy commands w seen ∨ ∃ d ∈ seen, d.2.isModelDone = some true)

lemma follows_nil (commands : TAiCommands) : Follows commands W [] (.searching []) :=
  ⟨rfl, fun h => absurd rfl h⟩

/-- No word begins a text if none begins the first part of it, into which all words fit. -/
lemma not_prefix_append {D text : TString} (hfit : longest W ≤ D.length)
    (hno : ∀ w ∈ W, ¬ w <+: D) : ∀ w ∈ W, ¬ w <+: D ++ text := fun w hw hpre =>
  hno w hw (List.prefix_of_prefix_length_le hpre (List.prefix_append D text)
    (longest_le_iff.1 hfit w hw))

/-- One more response. -/
lemma Follows.step (h : Follows commands W seen p) (hdone : c.2.isModelDone = some done)
    (hs : DetectorStep W (consult commands c.1) p c.2.asSimpleString done res p') :
    Follows commands W (seen ++ [c]) p' := by
  have htext : heard (seen ++ [c]) = heard seen ++ c.2.asSimpleString := heard_append_singleton
  cases hs with
  | search hno hlong =>
    obtain ⟨rfl, -⟩ := h
    exact ⟨htext.symm, fun _ => ⟨lt_longest_iff.2 hlong, hno⟩⟩
  | pass hno hfit =>
    obtain ⟨rfl, -⟩ := h
    exact Or.inl (by rw [htext]; exact ⟨longest_le_iff.2 hfit, hno⟩)
  | @recognize D text w hw =>
    obtain ⟨rfl, hseen⟩ := h
    refine ⟨htext.symm, ⟨seen, c, [], rfl, ?_, by rw [htext]; exact hw.isPrefix, ?_⟩, hw⟩
    · -- the word did not begin the text before
      by_cases hnil : seen = []
      · exact Or.inl hnil
      · refine Or.inr (not_le.1 fun hle => (hseen hnil).2 w hw.mem ?_)
        exact List.prefix_of_prefix_length_le hw.isPrefix (List.prefix_append _ _) hle
    · intro e he
      rw [List.mem_singleton.1 he]
      exact hdone
  | @detect D text w hw =>
    obtain ⟨rfl, -⟩ := h
    exact Or.inr ⟨w, by rw [htext]; exact hw, Or.inr ⟨c, by simp, hdone⟩⟩
  | @complete D text w =>
    obtain ⟨rfl, -, hw⟩ := h
    exact Or.inr ⟨w, by rw [htext]; exact hw.append _, Or.inr ⟨c, by simp, hdone⟩⟩
  | keep | fail =>
    obtain ⟨rfl, hlock, hw⟩ := h
    exact ⟨htext.symm, hlock.append hdone, hw.append _⟩
  | @release D text w x hr =>
    obtain ⟨rfl, hlock, hw⟩ := h
    rw [← htext] at hr
    exact Or.inr ⟨w, by rw [htext]; exact hw.append _,
      Or.inl ⟨seen, c, [], x, rfl, hlock.ne_nil, hw.isPrefix, hr⟩⟩
  | already =>
    rcases h with ⟨hfit, hno⟩ | ⟨w, hw, hend⟩
    · have hle : longest W ≤ (heard seen ++ c.2.asSimpleString).length := by
        rw [List.length_append]
        omega
      exact Or.inl (by rw [htext]; exact ⟨hle, not_prefix_append hfit hno⟩)
    · refine Or.inr ⟨w, by rw [htext]; exact hw.append _, hend.imp (·.append _) ?_⟩
      rintro ⟨d, hd, htrue⟩
      exact ⟨d, List.mem_append_left [c] hd, htrue⟩

/-- Before a word begins the text, the detector searches. -/
lemma Follows.searching (h : Follows commands W seen p)
    (hw : IsShortestPrefix W (heard (seen ++ [c])) w)
    (hfirst : seen = [] ∨ (heard seen).length < w.length) : p = .searching (heard seen) := by
  rw [heard_append_singleton] at hw
  have hshort : ∀ v, IsShortestPrefix W (heard seen) v → seen = [] := by
    intro v hv
    have hle := hv.length_le
    rw [(hv.append _).unique hw] at hle
    exact hfirst.resolve_right (by omega)
  cases p with
  | searching D => rw [h.1]
  | recognized v D =>
    obtain ⟨rfl, hlock, hv⟩ := h
    exact absurd (hshort v hv) hlock.ne_nil
  | decided =>
    rcases h with ⟨hfit, hno⟩ | ⟨v, hv, hrel | ⟨d, hd, -⟩⟩
    · exact absurd hw.isPrefix (not_prefix_append hfit hno w hw.mem)
    · exact absurd (hshort v hv) hrel.ne_nil
    · exact absurd (hshort v hv) (List.ne_nil_of_mem hd)

/-- A word that begins the text only now is locked. -/
lemma Follows.locks (h : Follows commands W seen p)
    (hs : DetectorStep W (consult commands c.1) p c.2.asSimpleString false res p')
    (hw : IsShortestPrefix W (heard (seen ++ [c])) w)
    (hfirst : seen = [] ∨ (heard seen).length < w.length) :
    res = .ok (.ollamaHasMore, .needMoreData .ollamaHasMore (heard (seen ++ [c]))) ∧
      p' = .recognized w (heard (seen ++ [c])) := by
  obtain rfl := h.searching hw hfirst
  rw [heard_append_singleton] at hw ⊢
  cases hs with
  | search hno | pass hno => exact absurd hw.isPrefix (hno w hw.mem)
  | recognize hv => exact ⟨rfl, by rw [hv.unique hw]⟩

/-- The phase after a sequence of calls. -/
lemma Follows.afterUpdates (h : Follows commands W seen p) (hW : self.words = W)
    (hp : self.Represents p) (hall : ∀ d ∈ calls, d.2.isModelDone.isSome) :
    ∃ p', Follows commands W (seen ++ calls) p' ∧
      (self.afterUpdates commands calls).Represents p' := by
  induction calls generalizing self p seen with
  | nil => exact ⟨p, by rwa [List.append_nil], hp⟩
  | cons c calls ih =>
    obtain ⟨done, hdone⟩ := Option.isSome_iff_exists.1 (hall c (by simp))
    obtain ⟨p', hstep, hp'⟩ := update_refines commands c.1 hp hdone
    rw [hW] at hstep
    obtain ⟨q, hq, hrep⟩ := ih (h.step hdone hstep) (by rw [words_update, hW]) hp'
      fun d hd => hall d (by simp [hd])
    exact ⟨q, by simpa using hq, hrep⟩

/-- A detector that searches from the start follows all that it hears. -/
lemma exists_follows (commands : TAiCommands) (hW : self.words = W)
    (hstart : self.Represents (.searching [])) (hall : ∀ d ∈ calls, d.2.isModelDone.isSome) :
    ∃ p, Follows commands W calls p ∧ (self.afterUpdates commands calls).Represents p := by
  obtain ⟨p, hfollows, hp⟩ := (follows_nil commands).afterUpdates hW hstart hall
  rw [List.nil_append] at hfollows
  exact ⟨p, hfollows, hp⟩

end CContentRestorator

end OllamaMitm
