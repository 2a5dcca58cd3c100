import Mathlib.Logic.Relation
import OllamaMitm.Lib.Occurrences
import OllamaMitm.Text

/-!
# Replacing all occurrences

The loop of `ReplaceSubstring` keeps an index into a string that changes its length.  What stands in
front of the index is finished, and what stands behind it is an untouched end of the original
string.  So the loop meets the occurrences of the original string only, one after the other.
-/

namespace OllamaMitm

open Lib Relation

variable {str fromStr toStr rest finished : TString} {index i j : ℕ} {ps : List TString}

/-! ## Finding -/

lemma find_eq_none_of (h : ∀ i, index ≤ i → ¬fromStr <+: str.drop i) :
    find str fromStr index = none := by
  rw [find, List.find?_eq_none]
  intro i _
  simpa using h i

lemma find_eq_some_of (hi : index ≤ i) (hocc : fromStr <+: str.drop i) (hle : i ≤ str.length)
    (hfirst : ∀ j, index ≤ j → j < i → ¬fromStr <+: str.drop j) :
    find str fromStr index = some i := by
  refine List.find?_range_eq_some.2 ⟨by simp [hi, hocc], by simp; omega, fun j hj => ?_⟩
  by_cases hle : index ≤ j
  · have hno : fromStr.isPrefixOf (str.drop j) = false := by
      rw [Bool.eq_false_iff, ne_eq, List.isPrefixOf_iff_prefix]
      exact hfirst j hle hj
    simp [hle, hno]
  · simp [hle]

/-! ## One round of the loop -/

/-- One round of the loop, if it does not end: the string and the index after it. -/
def replaceRound (fromStr toStr : TString) : TString × ℕ → Option (TString × ℕ)
  | (str, index) =>
    (find str fromStr index).map fun index =>
      (str.take index ++ toStr ++ str.drop (index + fromStr.length), index + toStr.length)

lemma replaceSubstringLoop_succ (fromStr toStr : TString) (rounds : ℕ) (str : TString) (index : ℕ) :
    replaceSubstringLoop fromStr toStr (rounds + 1) str index
      = match replaceRound fromStr toStr (str, index) with
        | none => some str
        | some (str, index) => replaceSubstringLoop fromStr toStr rounds str index := by
  rw [replaceSubstringLoop, replaceRound]
  cases find str fromStr index <;> rfl

/-- The second string and index come from the first by some rounds of the loop. -/
def ReplacesTo (fromStr toStr : TString) : TString × ℕ → TString × ℕ → Prop :=
  ReflTransGen fun a b => replaceRound fromStr toStr a = some b

/-- A round that finds the pattern behind the piece `u` of the rest. -/
lemma replaceRound_append (u : TString)
    (hfirst : ∀ i < u.length, ¬fromStr <+: (u ++ (fromStr ++ rest)).drop i) :
    replaceRound fromStr toStr (finished ++ (u ++ (fromStr ++ rest)), finished.length)
      = some (finished ++ u ++ toStr ++ rest, (finished ++ u ++ toStr).length) := by
  have hdrop : ∀ k, (finished ++ (u ++ (fromStr ++ rest))).drop (finished.length + k)
      = (u ++ (fromStr ++ rest)).drop k := fun k => by simp
  have hfind : find (finished ++ (u ++ (fromStr ++ rest))) fromStr finished.length
      = some (finished.length + u.length) := by
    refine find_eq_some_of (Nat.le_add_right _ _) ?_ (by simp) fun j hj hlt => ?_
    · rw [hdrop, List.drop_left]
      exact List.prefix_append fromStr rest
    · obtain ⟨k, rfl⟩ := Nat.exists_eq_add_of_le hj
      rw [hdrop]
      exact hfirst k (by omega)
  have htake : (finished ++ (u ++ (fromStr ++ rest))).take (finished.length + u.length)
      = finished ++ u := by
    rw [← List.append_assoc, List.take_left' (by simp)]
  have hrest : (finished ++ (u ++ (fromStr ++ rest))).drop
      (finished.length + u.length + fromStr.length) = rest := by
    rw [← List.append_assoc, ← List.append_assoc, List.drop_left' (by simp [Nat.add_assoc])]
  rw [replaceRound, hfind, Option.map_some, htake, hrest]
  simp [Nat.add_assoc]

/-- The rest has no occurrence, and the loop ends. -/
lemma replaceRound_eq_none (hno : ∀ i, ¬fromStr <+: rest.drop i) :
    replaceRound fromStr toStr (finished ++ rest, finished.length) = none := by
  have hfind : find (finished ++ rest) fromStr finished.length = none := by
    refine find_eq_none_of fun i hi => ?_
    obtain ⟨k, rfl⟩ := Nat.exists_eq_add_of_le hi
    simpa using hno k
  rw [replaceRound, hfind, Option.map_none]

/-! ## The whole loop -/

/-- The loop replaces all occurrences in the rest, and leaves what is finished. -/
lemma replaceSubstringLoop_of_splitsAt (toStr : TString) (h : SplitsAt fromStr rest ps) :
    ∀ (finished : TString) (rounds : ℕ), ps.length ≤ rounds →
      replaceSubstringLoop fromStr toStr rounds (finished ++ rest) finished.length
        = some (finished ++ List.intercalate toStr ps) := by
  induction h with
  | @last rest hno =>
    intro finished rounds hrounds
    obtain ⟨rounds, rfl⟩ : ∃ n, rounds = n + 1 := ⟨rounds - 1, by simp at hrounds; omega⟩
    rw [replaceSubstringLoop_succ, replaceRound_eq_none hno, List.intercalate_singleton]
  | @cons u rest ps hfirst hrest ih =>
    intro finished rounds hrounds
    rw [List.length_cons] at hrounds
    obtain ⟨rounds, rfl⟩ : ∃ n, rounds = n + 1 := ⟨rounds - 1, by omega⟩
    rw [replaceSubstringLoop_succ, replaceRound_append u hfirst]
    simp only
    rw [ih (finished ++ u ++ toStr) rounds (by omega),
      SplitsAt.intercalate_cons toStr hrest.ne_nil, List.append_assoc, List.append_assoc]

/-- What a round leaves: the index moves on, what stands in front of it stays, and what stands
behind it was there before. -/
lemma replaceRound_spec (h : replaceRound fromStr toStr (str, index) = some (rest, j)) :
    index ≤ j ∧ j ≤ rest.length ∧ rest.drop j <:+ str.drop index ∧
      (index ≤ str.length → rest.take index = str.take index) := by
  rw [replaceRound, Option.map_eq_some_iff] at h
  obtain ⟨i, hi, hpair⟩ := h
  obtain ⟨rfl, rfl⟩ := Prod.mk.inj hpair
  obtain ⟨hle, hocc⟩ := find_eq_some hi
  have hlen : i ≤ str.length := by
    have := (List.find?_range_eq_some.1 hi).2.1
    rw [List.mem_range] at this
    omega
  have htake : (str.take i).length = i := by rw [List.length_take, Nat.min_eq_left hlen]
  have hfinished : (str.take i ++ toStr).length = i + toStr.length := by
    rw [List.length_append, htake]
  refine ⟨by omega, ?_, ?_, fun _ => ?_⟩
  · rw [List.length_append, hfinished]
    omega
  · rw [List.drop_left' hfinished]
    obtain ⟨k, hk⟩ := Nat.exists_eq_add_of_le (show index ≤ i + fromStr.length by omega)
    rw [hk, ← List.drop_drop]
    exact List.drop_suffix k _
  · rw [List.append_assoc, List.take_append_of_le_length (by omega), List.take_take,
      Nat.min_eq_left hle]

/-- The same for any number of rounds. -/
lemma ReplacesTo.spec {a b : TString × ℕ} (h : ReplacesTo fromStr toStr a b)
    (ha : a.2 ≤ a.1.length) :
    a.2 ≤ b.2 ∧ b.2 ≤ b.1.length ∧ b.1.drop b.2 <:+ a.1.drop a.2 ∧
      b.1.take a.2 = a.1.take a.2 := by
  induction h with
  | refl => exact ⟨le_rfl, ha, List.suffix_rfl, rfl⟩
  | @tail b c _ hround ih =>
    obtain ⟨hle, hfit, hsuffix, htake⟩ := ih
    obtain ⟨hle', hfit', hsuffix', htake'⟩ := replaceRound_spec hround
    refine ⟨hle.trans hle', hfit', hsuffix'.trans hsuffix, ?_⟩
    calc c.1.take a.2 = (c.1.take b.2).take a.2 := by rw [List.take_take, Nat.min_eq_left hle]
      _ = (b.1.take b.2).take a.2 := by rw [htake' hfit]
      _ = b.1.take a.2 := by rw [List.take_take, Nat.min_eq_left hle]
      _ = a.1.take a.2 := htake

/-- **`ReplaceSubstring` replaces all occurrences.**  The loop ends, and the result is the pieces of
the original string between its leftmost occurrences that do not overlap, joined by the
replacement; there is one such list of pieces.  In every round the index is inside the string, what
stands behind it is an end of the original string, and what stands in front of it never changes
again. -/
theorem replaceSubstring_eq_intercalate (hne : fromStr ≠ []) (str toStr : TString) :
    (∃ ps, (∀ qs, SplitsAt fromStr str qs ↔ qs = ps) ∧ List.intercalate fromStr ps = str ∧
      replaceSubstring str fromStr toStr = some (List.intercalate toStr ps)) ∧
    ∀ a, ReplacesTo fromStr toStr (str, 0) a →
      a.2 ≤ a.1.length ∧ a.1.drop a.2 <:+ str ∧
      ∀ b, ReplacesTo fromStr toStr a b → a.2 ≤ b.2 ∧ b.1.take a.2 = a.1.take a.2 := by
  refine ⟨?_, fun a ha => ?_⟩
  · obtain ⟨ps, hps⟩ := SplitsAt.exists_splitsAt hne str
    refine ⟨ps, fun qs => ⟨fun hqs => hqs.unique hps, fun heq => heq ▸ hps⟩, hps.intercalate_eq, ?_⟩
    exact replaceSubstringLoop_of_splitsAt toStr hps [] _ (hps.length_le hne)
  · obtain ⟨-, hfit, hsuffix, -⟩ := ReplacesTo.spec ha (Nat.zero_le _)
    refine ⟨hfit, hsuffix, fun b hb => ?_⟩
    obtain ⟨hle, -, -, htake⟩ := ReplacesTo.spec hb hfit
    exact ⟨hle, htake⟩

/-- A replacement that contains the pattern: the overlapping occurrence is not replaced, and the
inserted text is not scanned. -/
theorem replaceSubstring_eq_intercalate_aaab :
    ∃ ps, SplitsAt (lit "aa") (lit "aaab") ps ∧
      replaceSubstring (lit "aaab") (lit "aa") (lit "baac")
        = some (List.intercalate (lit "baac") ps) ∧
      List.intercalate (lit "baac") ps = lit "baacab" := by
  obtain ⟨ps, hps, -, hreplace⟩ :=
    (replaceSubstring_eq_intercalate (by decide : lit "aa" ≠ []) (lit "aaab") (lit "baac")).1
  refine ⟨ps, (hps ps).2 rfl, hreplace, ?_⟩
  have hresult : replaceSubstring (lit "aaab") (lit "aa") (lit "baac") = some (lit "baacab") := by
    decide
  exact Option.some.inj (hreplace.symm.trans hresult)

end OllamaMitm
