import OllamaMitm.Detector

/-!
# The detector on one reply

A reply arrives in chunks.  As long as the detector has decided nothing, its phase is determined
by the text seen so far: it searches if no word begins the text, and it has recognised the
shortest word that does otherwise.  It decides before the last chunk in two situations only, which
depend on the texts of the chunks and on what the command of the recognised word says.
-/

namespace OllamaMitm

open Lib
open CContentRestorator (statusOf)

/-- The text of a sequence of chunks. -/
def textOf (rs : List TOllamaResponse) : TString := (rs.map fun r => r.asSimpleString).flatten

@[simp] lemma textOf_nil : textOf [] = [] := rfl

@[simp] lemma textOf_cons (r : TOllamaResponse) (rs : List TOllamaResponse) :
    textOf (r :: rs) = r.asSimpleString ++ textOf rs := rfl

@[simp] lemma textOf_append (rs rs' : List TOllamaResponse) :
    textOf (rs ++ rs') = textOf rs ++ textOf rs' := by simp [textOf]

lemma IsReply.textOf_eq {T : TString} {rs : List TOllamaResponse} (h : IsReply T rs) :
    textOf rs = T := by
  induction h with
  | last hr => simp [hr.simpleString]
  | more hr _ ih => simp [hr.simpleString, ih]

lemma IsReply.exists_isChunk {T : TString} {rs : List TOllamaResponse} (h : IsReply T rs) :
    ∀ r ∈ rs, ∃ done, IsChunk r r.asSimpleString done := by
  induction h with
  | last hr =>
    intro r' hr'
    rw [List.mem_singleton.1 hr']
    exact ⟨true, by rw [hr.simpleString]; exact hr⟩
  | more hr _ ih =>
    intro r' hr'
    rcases List.mem_cons.1 hr' with rfl | hmem
    · exact ⟨false, by rw [hr.simpleString]; exact hr⟩
    · exact ih r' hmem

/-- The detector has seen some chunks and has decided nothing. -/
def Undecided (W : List TString) (seen : List TOllamaResponse) : Phase → Prop
  | .searching D => D = textOf seen ∧ (seen ≠ [] → ∀ w ∈ W, ¬ w <+: D)
  | .recognized w D => D = textOf seen ∧ seen ≠ [] ∧ IsShortestPrefix W D w
  | .decided => False

/-- The chunk `r` after the chunks `seen` settles that the reply is for the user: no word begins
the text and none can, or the command of the word that began the text before says so. -/
def ReleasedAt (W : List TString)
    (consult : TString → TString → Except TException TResponseToOllama)
    (seen : List TOllamaResponse) (r : TOllamaResponse) : Prop :=
  (∀ w ∈ W, ¬ w <+: textOf (seen ++ [r]) ∧ w.length ≤ (textOf (seen ++ [r])).length) ∨
  (seen ≠ [] ∧ ∃ w x, IsShortestPrefix W (textOf seen) w ∧
    consult w (textOf (seen ++ [r])) = .ok (.thatWasResponseToUser x))

variable {W : List TString} {consult : TString → TString → Except TException TResponseToOllama}
variable {seen : List TOllamaResponse} {r : TOllamaResponse} {p p' : Phase}
variable {res : Except TException TUpdateResult}

lemma undecided_nil : Undecided W [] (.searching []) := ⟨rfl, fun h => absurd rfl h⟩

/-- What the detector does on a chunk that is not the last one. -/
lemma Undecided.step_more (h : Undecided W seen p)
    (hs : DetectorStep W consult p r.asSimpleString false res p') :
    (res = .ok (.ollamaHasMore, .needMoreData .ollamaHasMore (textOf (seen ++ [r]))) ∧
      Undecided W (seen ++ [r]) p' ∧ ¬ ReleasedAt W consult seen r) ∨
    (res = .ok (.ollamaHasMore, .passToUser .ollamaHasMore (textOf (seen ++ [r]))) ∧
      p' = .decided ∧ ReleasedAt W consult seen r) ∨
    (∃ w e, w ∈ W ∧ consult w (textOf (seen ++ [r])) = .error e ∧ res = .error e) := by
  have htext : textOf (seen ++ [r]) = textOf seen ++ r.asSimpleString := by simp
  rw [ReleasedAt, htext]
  cases hs with
  | search hno hlong =>
    obtain ⟨rfl, hseen⟩ := h
    refine Or.inl ⟨rfl, ⟨htext.symm, fun _ => hno⟩, ?_⟩
    rintro (hall | ⟨hne, w, x, hw, -⟩)
    · obtain ⟨w, hw, hlt⟩ := hlong
      exact absurd (hall w hw).2 (by omega)
    · exact hseen hne w hw.mem hw.isPrefix
  | recognize hw =>
    obtain ⟨rfl, hseen⟩ := h
    refine Or.inl ⟨rfl, ⟨htext.symm, by simp, hw⟩, ?_⟩
    rintro (hall | ⟨hne, v, x, hv, -⟩)
    · exact (hall _ hw.mem).1 hw.isPrefix
    · exact hseen hne v hv.mem hv.isPrefix
  | pass hno hfit =>
    obtain ⟨rfl, -⟩ := h
    exact Or.inr (Or.inl ⟨rfl, rfl, Or.inl fun w hw => ⟨hno w hw, hfit w hw⟩⟩)
  | keep hr hne =>
    obtain ⟨rfl, hnil, hw⟩ := h
    refine Or.inl ⟨rfl, ⟨htext.symm, by simp, hw.append _⟩, ?_⟩
    rintro (hall | ⟨-, v, x, hv, hx⟩)
    · exact (hall _ hw.mem).1 (hw.append _).isPrefix
    · rw [hv.unique hw, hr] at hx
      exact hne x (Except.ok.inj hx)
  | release hr =>
    obtain ⟨rfl, hnil, hw⟩ := h
    exact Or.inr (Or.inl ⟨rfl, rfl, Or.inr ⟨hnil, _, _, hw, hr⟩⟩)
  | fail hr =>
    obtain ⟨rfl, -, hw⟩ := h
    exact Or.inr (Or.inr ⟨_, _, hw.mem, hr, rfl⟩)
  | already => exact absurd h id

/-- What the detector does on the last chunk. -/
lemma Undecided.step_last (h : Undecided W seen p)
    (hs : DetectorStep W consult p r.asSimpleString true res p') :
    ((res = .ok (.ollamaSentAll, .needMoreData .ollamaSentAll (textOf (seen ++ [r]))) ∨
        res = .ok (.ollamaSentAll, .passToUser .ollamaSentAll (textOf (seen ++ [r])))) ∧
      ∀ w ∈ W, ¬ w <+: textOf (seen ++ [r])) ∨
    (∃ w, res = .ok (.ollamaSentAll, .detected ⟨.ollamaSentAll, w, textOf (seen ++ [r])⟩) ∧
      IsShortestPrefix W (textOf (seen ++ [r])) w) := by
  have htext : textOf (seen ++ [r]) = textOf seen ++ r.asSimpleString := by simp
  rw [htext]
  cases hs with
  | search hno hlong =>
    obtain ⟨rfl, -⟩ := h
    exact Or.inl ⟨Or.inl rfl, hno⟩
  | pass hno hfit =>
    obtain ⟨rfl, -⟩ := h
    exact Or.inl ⟨Or.inr rfl, hno⟩
  | detect hw =>
    obtain ⟨rfl, -⟩ := h
    exact Or.inr ⟨_, rfl, hw⟩
  | complete =>
    obtain ⟨rfl, -, hw⟩ := h
    exact Or.inr ⟨_, rfl, hw.append _⟩
  | already => exact absurd h id

/-! ## Early release -/

/-- Some chunk of `rs` that is not the last one settles that the reply is for the user, when the
chunks `seen` came before and the `Update` of the first chunk of `rs` happens one access after the
instant `clock`.  A chunk that is only collected takes three accesses to shared data. -/
def ReleasedEarly (commands : TAiCommands) (W : List TString) (clock : ℕ)
    (seen rs : List TOllamaResponse) : Prop :=
  ∃ rs₁ r rs₂, rs = rs₁ ++ r :: rs₂ ∧ rs₂ ≠ [] ∧
    ReleasedAt W (CContentRestorator.consult commands (clock + 3 * rs₁.length + 1)) (seen ++ rs₁) r

variable {commands : TAiCommands} {clock : ℕ} {rs : List TOllamaResponse}

/-- Only the set of words matters. -/
lemma ReleasedAt.of_mem_iff {V : List TString} (hVW : ∀ x, x ∈ V ↔ x ∈ W)
    (h : ReleasedAt W consult seen r) : ReleasedAt V consult seen r := by
  rcases h with hall | ⟨hne, w, x, hw, hx⟩
  · exact Or.inl fun w hw => hall w ((hVW w).1 hw)
  · exact Or.inr ⟨hne, w, x, hw.of_mem_iff hVW, hx⟩

lemma releasedEarly_iff_of_mem_iff {V : List TString} (hVW : ∀ x, x ∈ V ↔ x ∈ W) :
    ReleasedEarly commands V clock seen rs ↔ ReleasedEarly commands W clock seen rs := by
  constructor
  · rintro ⟨rs₁, r, rs₂, hrs, hne, hrel⟩
    exact ⟨rs₁, r, rs₂, hrs, hne, hrel.of_mem_iff fun x => (hVW x).symm⟩
  · rintro ⟨rs₁, r, rs₂, hrs, hne, hrel⟩
    exact ⟨rs₁, r, rs₂, hrs, hne, hrel.of_mem_iff hVW⟩

/-- After the only response there is none. -/
lemma eq_nil_of_singleton_eq {rs₁ rs₂ : List TOllamaResponse} {r' : TOllamaResponse}
    (h : [r] = rs₁ ++ r' :: rs₂) : rs₂ = [] := by
  cases rs₁ with
  | nil => exact (List.cons.inj h).2.symm
  | cons x rs₁ => simp at h

lemma not_releasedEarly_singleton : ¬ ReleasedEarly commands W clock seen [r] := by
  rintro ⟨rs₁, r', rs₂, hrs, hne, -⟩
  exact hne (eq_nil_of_singleton_eq hrs)

lemma releasedEarly_cons : ReleasedEarly commands W clock seen (r :: rs) ↔
    (rs ≠ [] ∧ ReleasedAt W (CContentRestorator.consult commands (clock + 1)) seen r) ∨
      ReleasedEarly commands W (clock + 3) (seen ++ [r]) rs := by
  constructor
  · rintro ⟨rs₁, r', rs₂, hrs, hne, hrel⟩
    cases rs₁ with
    | nil =>
      obtain ⟨rfl, rfl⟩ := List.cons.inj hrs
      exact Or.inl ⟨hne, by simpa using hrel⟩
    | cons x rs₁ =>
      obtain ⟨rfl, rfl⟩ := List.cons.inj hrs
      refine Or.inr ⟨rs₁, r', rs₂, rfl, hne, ?_⟩
      have hclock : clock + 3 * (r :: rs₁).length + 1 = clock + 3 + 3 * rs₁.length + 1 := by
        simp only [List.length_cons]
        omega
      rw [hclock] at hrel
      simpa using hrel
  · rintro (⟨hne, hrel⟩ | ⟨rs₁, r', rs₂, rfl, hne, hrel⟩)
    · exact ⟨[], r, rs, rfl, hne, by simpa using hrel⟩
    · refine ⟨r :: rs₁, r', rs₂, rfl, hne, ?_⟩
      have hclock : clock + 3 * (r :: rs₁).length + 1 = clock + 3 + 3 * rs₁.length + 1 := by
        simp only [List.length_cons]
        omega
      rw [hclock]
      simpa using hrel

/-! ## Keyword-only commands -/

variable {w x : TString}

/-- What the provider of a keyword-only command says. -/
lemma TAiCommands.KeywordOnly.provider (hk : commands.KeywordOnly) {cmd : TAiCommand}
    (hcmd : commands.find? w = some cmd) (now : ℕ) (text : TString) :
    (trimCopy text = w ∧
      ∃ y, cmd.resultProvider now w text = .ok (.thatWasRequestToFulfill y)) ∨
    (trimCopy text ≠ w ∧ cmd.resultProvider now w text = .ok (.thatWasResponseToUser text)) := by
  obtain ⟨answerProvider, hprovider⟩ := hk.typical _ (mem_of_find? hcmd)
  by_cases htrim : trimCopy text = w
  · refine Or.inl ⟨htrim, ?_⟩
    -- the answer provider has answered, for the command does not throw
    obtain ⟨r, hr⟩ := hk.noThrow _ (mem_of_find? hcmd) now w text
    have hr' := hr
    rw [hprovider, makeTypicalResponseForKeywordOnly, if_pos htrim] at hr'
    cases hy : answerProvider now text with
    | error e =>
      rw [hy] at hr'
      cases hr'
    | ok y =>
      rw [hy] at hr'
      cases hr'
      exact ⟨y, hr⟩
  · exact Or.inr ⟨htrim, by rw [hprovider, makeTypicalResponseForKeywordOnly, if_neg htrim]⟩

/-- A keyword-only command that takes an incomplete reply for chatting would do so on the whole
reply. -/
lemma trimCopy_ne_of_released (hk : commands.KeywordOnly) {now : ℕ} {D R : TString}
    (hpre : w <+: D)
    (hx : CContentRestorator.consult commands now w D = .ok (.thatWasResponseToUser x)) :
    trimCopy (D ++ R) ≠ w := by
  intro htrim
  rw [CContentRestorator.consult] at hx
  cases hat : commands.atKey w with
  | error e => rw [hat] at hx; simp at hx
  | ok cmd =>
    rw [hat] at hx
    have hcmd : commands.find? w = some cmd := by
      rw [TAiCommands.atKey] at hat
      split at hat
      · next hcmd => rw [hcmd, Except.ok.inj hat]
      · simp at hat
    rcases hk.provider hcmd now D with ⟨-, y, hy⟩ | ⟨hne, -⟩
    · simp only [hy] at hx
      simp at hx
    · exact hne (trimCopy_eq_of_append hpre htrim)

/-- A reply that is released early is not a command. -/
lemma not_command_of_releasedAt (hk : commands.KeywordOnly) {now : ℕ} {rs₁ : List TOllamaResponse}
    (h : ReleasedAt W (CContentRestorator.consult commands now) rs₁ r) (R : TString) :
    ¬∃ w, IsShortestPrefix W (textOf (rs₁ ++ [r]) ++ R) w ∧
      trimCopy (textOf (rs₁ ++ [r]) ++ R) = w := by
  rintro ⟨w, hw, htrim⟩
  rcases h with hall | ⟨-, v, x, hv, hx⟩
  · obtain ⟨hno, hfit⟩ := hall w hw.mem
    exact hno (List.prefix_of_prefix_length_le hw.isPrefix (List.prefix_append _ R) hfit)
  · have htext : textOf (rs₁ ++ [r]) = textOf rs₁ ++ r.asSimpleString := by simp
    rw [htext] at hw htrim hx
    have hv' : IsShortestPrefix W (textOf rs₁ ++ r.asSimpleString) v := hv.append _
    obtain rfl : v = w := (hv'.append R).unique hw
    exact trimCopy_ne_of_released hk hv'.isPrefix hx htrim

end OllamaMitm
