import Mathlib.Data.List.DropRight
import Mathlib.Data.List.TakeWhile
import Mathlib.Tactic.Lemma
import Mathlib.Tactic.Push

/-!
# Strings

A `std::string` is modelled as the list of its bytes.  Besides the literals this file has the
three string functions the proxy brings itself: `trim_copy` of
`commands/ollama_commands.cpp`, with its two halves, and `ReplaceSubstring` of
`network/chunkedcontentprovider.cpp`.
-/

namespace OllamaMitm

/-- A `std::string`, byte by byte. -/
abbrev TString := List UInt8

/-- The bytes of an ASCII string literal. -/
def lit (s : String) : TString := s.toList.map fun c => c.toNat.toUInt8

/-! ## Trimming -/

/-- `std::isspace` on an unsigned char, in the "C" locale. -/
def isspace (c : UInt8) : Bool := c == 32 || (9 ≤ c && c ≤ 13)

/-- `ltrim`: erase up to the first byte that is no whitespace. -/
def ltrim (s : TString) : TString := s.dropWhile isspace

/-- `rtrim`: erase from behind the last byte that is no whitespace. -/
def rtrim (s : TString) : TString := s.rdropWhile isspace

/-- `trim_copy`: `rtrim`, then `ltrim`. -/
def trimCopy (s : TString) : TString := ltrim (rtrim s)

/-- All bytes of the string are whitespace. -/
def Blank (s : TString) : Prop := ∀ c ∈ s, isspace c = true

/-- A non-empty string that neither begins nor ends with whitespace. -/
structure Clean (w : TString) : Prop where
  ne_nil : w ≠ []
  head : ∀ c ∈ w.head?, isspace c = false
  last : ∀ c ∈ w.getLast?, isspace c = false

/-- A word whose first and last bytes are looked up. -/
lemma clean_of_all {w : TString} (hne : w ≠ []) (hhead : (w.head?.all fun c => !isspace c) = true)
    (hlast : (w.getLast?.all fun c => !isspace c) = true) : Clean w := by
  refine ⟨hne, fun c hc => ?_, fun c hc => ?_⟩
  · rw [Option.mem_def.1 hc] at hhead
    simpa using hhead
  · rw [Option.mem_def.1 hc] at hlast
    simpa using hlast

lemma rtrim_append_blank {w s : TString} (hs : Blank s) : rtrim (w ++ s) = rtrim w := by
  induction s using List.reverseRecOn with
  | nil => simp
  | append_singleton s c ih =>
    have hc : isspace c = true := hs c (by simp)
    rw [rtrim, ← List.append_assoc, List.rdropWhile_concat_pos _ _ _ hc]
    exact ih fun d hd => hs d (by simp [hd])

lemma rtrim_clean {w : TString} (hw : Clean w) : rtrim w = w := by
  cases w using List.reverseRecOn with
  | nil => rfl
  | append_singleton v c =>
    have hc : isspace c = false := hw.last c (by simp)
    rw [rtrim, List.rdropWhile_concat_neg _ _ _ (by simp [hc])]

lemma ltrim_clean {w : TString} (hw : Clean w) : ltrim w = w := by
  cases w with
  | nil => exact absurd rfl hw.ne_nil
  | cons c v =>
    have hc : isspace c = false := hw.head c (by simp)
    rw [ltrim, List.dropWhile_cons_of_neg (by simp [hc])]

/-- Trailing whitespace is all that trimming removes from a clean word that has some. -/
lemma trimCopy_append_blank {w s : TString} (hw : Clean w) (hs : Blank s) :
    trimCopy (w ++ s) = w := by
  rw [trimCopy, rtrim_append_blank hs, rtrim_clean hw, ltrim_clean hw]

/-- A string is its trimmed copy between two blank strings. -/
lemma exists_blank_trimCopy (t : TString) :
    ∃ a b, Blank a ∧ Blank b ∧ t = a ++ trimCopy t ++ b := by
  refine ⟨(rtrim t).takeWhile isspace, t.rtakeWhile isspace, ?_, ?_, ?_⟩
  · intro c hc
    exact List.mem_takeWhile_imp hc
  · intro c hc
    exact List.mem_rtakeWhile_imp hc
  · rw [trimCopy, ltrim, List.takeWhile_append_dropWhile, rtrim, List.rdropWhile_append_rtakeWhile]

/-- A text that begins with a clean word and trims to it is that word and trailing whitespace. -/
lemma exists_blank_of_trimCopy {t w : TString} (hw : Clean w) (hpre : w <+: t)
    (htrim : trimCopy t = w) : ∃ s, Blank s ∧ t = w ++ s := by
  obtain ⟨a, b, ha, hb, ht⟩ := exists_blank_trimCopy t
  rw [htrim] at ht
  cases a with
  | nil => exact ⟨b, hb, by simpa using ht⟩
  | cons c a =>
    -- a leading blank would be the first byte of the word, which is none
    exfalso
    obtain ⟨u, hu⟩ := hpre
    have hc : isspace c = true := ha c (by simp)
    obtain ⟨d, v, rfl⟩ := List.exists_cons_of_ne_nil hw.ne_nil
    have hd : isspace d = false := hw.head d (by simp)
    have hcd : d = c := by
      have := congrArg List.head? (hu.trans ht)
      simpa using this
    rw [hcd, hc] at hd
    exact absurd hd (by simp)

/-- Trimming leaves a clean word, or nothing. -/
lemma trimCopy_eq_nil_or_clean (t : TString) : trimCopy t = [] ∨ Clean (trimCopy t) := by
  by_cases hne : trimCopy t = []
  · exact Or.inl hne
  · refine Or.inr ⟨hne, fun c hc => ?_, fun c hc => ?_⟩
    · have := List.head?_dropWhile_not isspace (rtrim t)
      rw [trimCopy, ltrim, Option.mem_def] at hc
      rwa [hc] at this
    · -- the trimmed copy ends as the string that was trimmed from behind does
      obtain ⟨a, ha⟩ : trimCopy t <:+ rtrim t := List.dropWhile_suffix isspace
      have hlast : c ∈ (rtrim t).getLast? := by
        rw [← ha, List.getLast?_append, Option.mem_def.1 hc]
        rfl
      have hr : rtrim t ≠ [] := by
        intro hr
        rw [hr] at hlast
        exact absurd hlast (by simp)
      have hnot := List.rdropWhile_last_not isspace t hr
      rw [List.getLast?_eq_some_getLast hr] at hlast
      obtain rfl := Option.some.inj hlast
      exact eq_false_of_ne_true hnot

/-- A string that trims to a word it begins with does so from that word on. -/
lemma trimCopy_eq_of_append {w d r : TString} (hpre : w <+: d) (htrim : trimCopy (d ++ r) = w) :
    trimCopy d = w := by
  obtain ⟨c, rfl⟩ := hpre
  rcases trimCopy_eq_nil_or_clean (w ++ c ++ r) with hnil | hw
  · -- all of the string is whitespace
    obtain rfl : w = [] := htrim.symm.trans hnil
    obtain ⟨a, b, ha, hb, ht⟩ := exists_blank_trimCopy ([] ++ c ++ r)
    have hc : Blank ([] ++ c) := by
      intro y hy
      have hmem : y ∈ [] ++ c ++ r := List.mem_append_left r hy
      rw [ht, hnil, List.append_nil] at hmem
      exact (List.mem_append.1 hmem).elim (ha y) (hb y)
    have := rtrim_append_blank (w := []) hc
    rw [List.nil_append] at this
    rw [trimCopy, this]
    rfl
  · rw [htrim] at hw
    obtain ⟨b, hb, heq⟩ :=
      exists_blank_of_trimCopy hw ((List.prefix_append w c).trans (List.prefix_append _ r)) htrim
    refine trimCopy_append_blank hw fun y hy => hb y ?_
    rw [List.append_assoc, List.append_cancel_left_eq] at heq
    rw [← heq]
    exact List.mem_append_left r hy

/-! ## Replacing a substring -/

/-- `str.find(fromStr, index)`: the first position from `index` on where `fromStr` occurs. -/
def find (str fromStr : TString) (index : ℕ) : Option ℕ :=
  (List.range (str.length + 1)).find? fun i =>
    decide (index ≤ i) && fromStr.isPrefixOf (str.drop i)

lemma find_eq_some {str fromStr : TString} {index i : ℕ} (h : find str fromStr index = some i) :
    index ≤ i ∧ fromStr <+: str.drop i := by
  have := List.find?_some h
  simpa using this

/-- The loop of `ReplaceSubstring`.  The first argument bounds the number of its rounds, since
an empty `fromStr` would be found for ever; `none` says that the bound was reached. -/
def replaceSubstringLoop (fromStr toStr : TString) : ℕ → TString → ℕ → Option TString
  | 0, _, _ => none
  | rounds + 1, str, index =>
    match find str fromStr index with
    | none => some str
    | some index =>
      let str := str.take index ++ toStr ++ str.drop (index + fromStr.length)
      replaceSubstringLoop fromStr toStr rounds str (index + toStr.length)

/-- `ReplaceSubstring(str, fromStr, toStr)`. -/
def replaceSubstring (str fromStr toStr : TString) : Option TString :=
  replaceSubstringLoop fromStr toStr (str.length + 1) str 0

lemma replaceSubstringLoop_isSome {fromStr : TString} (hne : fromStr ≠ []) (toStr : TString) :
    ∀ (rounds : ℕ) (str : TString) (index : ℕ), str.length - index < rounds →
      (replaceSubstringLoop fromStr toStr rounds str index).isSome := by
  intro rounds
  induction rounds with
  | zero => intro str index h; omega
  | succ rounds ih =>
    intro str index h
    rw [replaceSubstringLoop]
    cases hf : find str fromStr index with
    | none => rfl
    | some i =>
      obtain ⟨hi, hpre⟩ := find_eq_some hf
      have hpos : 0 < fromStr.length := List.length_pos_of_ne_nil hne
      have hfit := hpre.length_le
      rw [List.length_drop] at hfit
      -- what is left to scan is the old rest without the occurrence
      refine ih _ _ ?_
      simp only [List.length_append, List.length_take, List.length_drop]
      omega

/-- `ReplaceSubstring` ends whenever there is something to look for. -/
theorem replaceSubstring_isSome {fromStr : TString} (hne : fromStr ≠ []) (str toStr : TString) :
    (replaceSubstring str fromStr toStr).isSome :=
  replaceSubstringLoop_isSome hne toStr _ _ _ (by omega)

example : replaceSubstring (lit "say ${K}, ${K}") (lit "${K}") (lit "NOW") =
    some (lit "say NOW, NOW") := by decide

end OllamaMitm
