import OllamaMitm.DetectorRun
import OllamaMitm.Reply

/-!
# A reply that is exactly a keyword

The model is told to respond with the keyword as a single word.  Such a reply is reported for its
keyword if and only if no other keyword of the table begins this one: the words are tried in order
of their length, and the first that begins the text is locked, also when the whole text is a longer
keyword.
-/

namespace OllamaMitm

open Lib

namespace CContentRestorator

variable {self : CContentRestorator} {commands : TAiCommands} {std : LengthSort} {p : Phase}
variable {seen : List TOllamaResponse} {calls : List (ℕ × TOllamaResponse)}
variable {c : ℕ × TOllamaResponse} {W : List TString} {T D w s : TString}

/-- The decision that the word was recognised in a reply with the text `T`. -/
def detectedResult (w T : TString) : TUpdateResult :=
  (.ollamaSentAll, .detected ⟨.ollamaSentAll, w, T⟩)

/-- The text is not for a command: no word begins it, or one of its chunks settled that it is for
the user. -/
def GivenUp (commands : TAiCommands) (W : List TString) (T : TString) : Prop :=
  (∀ w ∈ W, ¬ w <+: T) ∨
    ∃ now rs r R, ReleasedAt W (consult commands now) rs r ∧ T = textOf (rs ++ [r]) ++ R

lemma GivenUp.not_command (h : GivenUp commands W T) (hk : commands.KeywordOnly) :
    ¬∃ w, IsShortestPrefix W T w ∧ trimCopy T = w := by
  rcases h with hno | ⟨now, rs, r, R, hrel, rfl⟩
  · rintro ⟨w, hw, -⟩
    exact hno w hw.mem hw.isPrefix
  · exact not_command_of_releasedAt hk hrel R

/-- The first chunk of a reply is the whole reply, or the other chunks are a reply. -/
lemma isReply_cons_cases (h : IsReply T ((c :: calls).map Prod.snd)) :
    (calls = [] ∧ IsChunk c.2 T true) ∨
      (calls ≠ [] ∧ ∃ text rest, T = text ++ rest ∧ IsChunk c.2 text false ∧
        IsReply rest (calls.map Prod.snd)) := by
  generalize hrs : (c :: calls).map Prod.snd = rs at h
  cases h with
  | last hr =>
    obtain ⟨rfl, hnil⟩ := List.cons.inj hrs
    exact Or.inl ⟨List.map_eq_nil_iff.1 hnil, hr⟩
  | more hr hrest =>
    obtain ⟨rfl, rfl⟩ := List.cons.inj hrs
    refine Or.inr ⟨?_, _, _, rfl, hr, hrest⟩
    rintro rfl
    cases hrest

/-- A decided restorator reports no word any more. -/
lemma getLast?_runUpdates_decided (hp : self.Represents .decided) (hne : calls ≠ [])
    (hreply : IsReply T (calls.map Prod.snd)) :
    ∃ x, (self.runUpdates commands calls).getLast? = some x ∧
      ∀ w D, x ≠ .ok (detectedResult w D) := by
  have hall : ∀ c ∈ calls, c.2.isModelDone.isSome := by
    intro c hc
    obtain ⟨done, hchunk⟩ := hreply.exists_isChunk c.2 (List.mem_map_of_mem hc)
    rw [hchunk.modelDone]
    rfl
  rw [runUpdates_decided hp hall]
  obtain ⟨calls, c, rfl⟩ := (List.eq_nil_or_concat calls).resolve_left hne
  refine ⟨.ok (alreadyResult c.2), by simp, fun w D heq => ?_⟩
  simp [alreadyResult, detectedResult] at heq

/-- **What the calls on a reply end in.**  The last call reports the shortest word that begins the
text, with all the text, or the text is not for a command and no word is reported. -/
lemma getLast?_runUpdates (hnt : commands.NoThrow) (hW : self.words = W)
    (hkeys : ∀ w ∈ W, w ∈ commands.keys) (hp : self.Represents p) (hseen : Undecided W seen p)
    (hreply : IsReply T (calls.map Prod.snd)) :
    (∃ w, IsShortestPrefix W (textOf seen ++ T) w ∧ (self.runUpdates commands calls).getLast?
        = some (.ok (detectedResult w (textOf seen ++ T)))) ∨
      (GivenUp commands W (textOf seen ++ T) ∧
        ∃ x, (self.runUpdates commands calls).getLast? = some x ∧
          ∀ w D, x ≠ .ok (detectedResult w D)) := by
  induction calls generalizing self p seen T with
  | nil => cases hreply
  | cons c calls ih =>
    rcases isReply_cons_cases hreply with ⟨rfl, hr⟩ | ⟨hne, text, rest, rfl, hr, hrest⟩
    · -- the last chunk
      obtain ⟨p', hstep, -⟩ := update_refines commands c.1 hp hr.modelDone
      rw [hW] at hstep
      have htext : textOf (seen ++ [c.2]) = textOf seen ++ T := by simp [hr.simpleString]
      have hlast : (self.runUpdates commands [c]).getLast?
          = some (self.update commands c.1 c.2).result := rfl
      rw [hlast, ← htext]
      rcases hseen.step_last hstep with ⟨hres | hres, hno⟩ | ⟨w, hres, hw⟩
      · exact Or.inr ⟨Or.inl hno, _, rfl, by simp [hres, detectedResult]⟩
      · exact Or.inr ⟨Or.inl hno, _, rfl, by simp [hres, detectedResult]⟩
      · exact Or.inl ⟨w, hw, by rw [hres]; rfl⟩
    · obtain ⟨p', hstep, hp'⟩ := update_refines commands c.1 hp hr.modelDone
      rw [hW] at hstep
      have htext : textOf seen ++ (text ++ rest) = textOf (seen ++ [c.2]) ++ rest := by
        simp [hr.simpleString]
      have hlast : (self.runUpdates commands (c :: calls)).getLast?
          = ((self.update commands c.1 c.2).self.runUpdates commands calls).getLast? := by
        cases calls with
        | nil => exact absurd rfl hne
        | cons d calls => exact List.getLast?_cons_cons
      rw [hlast, htext]
      rcases hseen.step_more hstep with ⟨-, hseen', -⟩ | ⟨-, rfl, hrel⟩ | ⟨w, e, hw, he, -⟩
      · exact ih (by rw [words_update, hW]) hp' hseen' hrest
      · exact Or.inr ⟨Or.inr ⟨_, _, _, rest, hrel, rfl⟩, getLast?_runUpdates_decided hp' hne hrest⟩
      · -- no provider throws
        obtain ⟨a, ha⟩ := exists_consult hnt c.1 (hkeys w hw) (textOf (seen ++ [c.2]))
        exact absurd (ha.symm.trans he) (by simp)

/-- **When a keyword is recognised.**  The model responds with a keyword of the table and trailing
whitespace, in any chunks.  The calls end in the decision that this keyword was detected, with the
whole text, if and only if no other keyword of the table begins it. -/
theorem detected_iff (std : LengthSort) (hk : commands.KeywordOnly) (hclean : commands.CleanKeys)
    (hw : w ∈ commands.keys) (hs : Blank s) (hreply : IsReply (w ++ s) (calls.map Prod.snd)) :
    ((ofCommands std commands).runUpdates commands calls).getLast?
        = some (.ok (.ollamaSentAll, .detected ⟨.ollamaSentAll, w, w ++ s⟩)) ↔
      ∀ v ∈ commands.keys, v <+: w → v = w := by
  have hmem : ∀ v, v ∈ (ofCommands std commands).words ↔ v ∈ commands.keys :=
    fun v => mem_words_ofCommands
  have hw' : w ∈ (ofCommands std commands).words := (hmem w).2 hw
  have hstart : (ofCommands std commands).Represents (.searching []) :=
    ⟨List.ne_nil_of_mem hw', rfl, rfl⟩
  have hcases := getLast?_runUpdates hk.noThrow rfl (fun v hv => (hmem v).1 hv) hstart undecided_nil
    hreply
  rw [textOf_nil, List.nil_append] at hcases
  constructor
  · intro hlast v hv hvw
    rcases hcases with ⟨u, hu, hres⟩ | ⟨-, x, hx, hno⟩
    · -- the word that was found is not longer than any other that begins the text
      obtain rfl : w = u := by
        rw [hlast] at hres
        cases hres
        rfl
      have hle := hu.le v ((hmem v).2 hv) (hvw.trans (List.prefix_append w s))
      exact hvw.eq_of_length (Nat.le_antisymm hvw.length_le hle)
    · exact absurd (Option.some.inj (hx.symm.trans hlast)) (hno _ _)
  · intro hfirst
    have hshort : IsShortestPrefix (ofCommands std commands).words (w ++ s) w := by
      refine ⟨hw', List.prefix_append w s, fun v hv hvp => ?_⟩
      by_contra hlt
      have hvw := List.prefix_of_prefix_length_le hvp (List.prefix_append w s) (by omega)
      exact hlt (hfirst v ((hmem v).1 hv) hvw ▸ le_rfl)
    rcases hcases with ⟨u, hu, hres⟩ | ⟨hgiven, -⟩
    · rw [hu.unique hshort] at hres
      exact hres
    · exact absurd ⟨w, hshort, trimCopy_append_blank (hclean w hw) hs⟩ (hgiven.not_command hk)

/-- The built-in keyword and a line end, in two chunks. -/
theorem detected_iff_dateTime :
    let commands := getAiCommandsList fun _ _ => .ok []
    let w := lit "AI_DATE_TIME_NOW"
    ((ofCommands .stable commands).runUpdates commands
        [(0, .ofText w false), (1, .ofText (lit "\n") true)]).getLast?
      = some (.ok (.ollamaSentAll, .detected ⟨.ollamaSentAll, w, w ++ lit "\n"⟩)) := by
  intro commands w
  have hkeys : commands.keys = [w] := keys_getAiCommandsList
  have hblank : Blank (lit "\n") := by
    have hall : (lit "\n").all isspace = true := by decide
    exact List.all_eq_true.1 hall
  refine (detected_iff .stable (getAiCommandsList_keywordOnly (neverThrows_ok _))
    getAiCommandsList_cleanKeys (hkeys ▸ List.mem_singleton_self w) hblank ?_).2 fun v hv _ => ?_
  · exact .more (isChunk_ofText w false) (isReply_ofText (lit "\n"))
  · exact List.mem_singleton.1 (hkeys ▸ hv)

/-- Two commands, and the keyword of one begins that of the other: the longer keyword is reported
as the shorter one. -/
theorem not_detected_of_prefix :
    let command : TAiCommand :=
      { instructionForAi := []
        resultProvider := fun _ keyword request =>
          makeTypicalResponseForKeywordOnly (fun _ => .ok (lit "Monday")) keyword request }
    let commands : TAiCommands := ⟨[(lit "DAY", command), (lit "DAY_NAME", command)], by decide⟩
    let results := (ofCommands .stable commands).runUpdates commands
      [(0, .ofText (lit "DAY_NAME") true)]
    commands.KeywordOnly ∧ commands.CleanKeys ∧ lit "DAY_NAME" ∈ commands.keys ∧
      results = [.ok (.ollamaSentAll, .detected ⟨.ollamaSentAll, lit "DAY", lit "DAY_NAME"⟩)] ∧
      results.getLast? ≠ some (.ok
        (.ollamaSentAll, .detected ⟨.ollamaSentAll, lit "DAY_NAME", lit "DAY_NAME"⟩)) := by
  intro command commands results
  have hresults : results
      = [.ok (.ollamaSentAll, .detected ⟨.ollamaSentAll, lit "DAY", lit "DAY_NAME"⟩)] := rfl
  have hcommand : ∀ e ∈ commands.entries, e.2 = command := by simp [commands]
  have hanswers : NeverThrows fun _ _ => .ok (lit "Monday") := neverThrows_ok _
  have hk : commands.KeywordOnly := by
    refine ⟨fun e he => ⟨fun _ _ => .ok (lit "Monday"), fun _ _ _ => ?_⟩,
      fun e he now keyword request => ?_⟩
    · rw [hcommand e he]
    · rw [hcommand e he]
      exact hanswers.makeTypicalResponse now keyword request
  refine ⟨hk, ?_, by decide, hresults, ?_⟩
  · intro v hv
    rcases (by simpa [commands, TAiCommands.keys] using hv : v = _ ∨ v = _) with rfl | rfl
    · exact clean_of_all (by decide) (by decide) (by decide)
    · exact clean_of_all (by decide) (by decide) (by decide)
  · have hne : lit "DAY" ≠ lit "DAY_NAME" := by decide
    simp [hresults, hne]

end CContentRestorator

end OllamaMitm
