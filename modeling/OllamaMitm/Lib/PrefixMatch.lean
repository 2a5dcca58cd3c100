import Mathlib.Data.List.Infix
import Mathlib.Tactic.Lemma
import Mathlib.Tactic.Push

/-!
# The shortest word that begins a text

Given a finite list of words and a text, the *shortest prefix* is the shortest word of the
list that is a prefix of the text.  This file collects what does not depend on where the words
come from: a shortest prefix is unique, it exists as soon as some word is a prefix, it is not
changed by text that arrives later, and on a list sorted by length it is what a scan of the
words that already fit into the text finds first.
-/

namespace OllamaMitm.Lib

variable {α : Type*} {W : List (List α)} {t u v w : List α}

/-- The word `w` is the shortest word of `W` that is a prefix of the text `t`. -/
structure IsShortestPrefix (W : List (List α)) (t w : List α) : Prop where
  mem : w ∈ W
  isPrefix : w <+: t
  le : ∀ v ∈ W, v <+: t → w.length ≤ v.length

namespace IsShortestPrefix

lemma length_le (h : IsShortestPrefix W t w) : w.length ≤ t.length := h.isPrefix.length_le

/-- Two words of the same length that begin the same text are equal. -/
lemma unique (hw : IsShortestPrefix W t w) (hv : IsShortestPrefix W t v) : w = v := by
  have h₁ := hw.le v hv.mem hv.isPrefix
  have h₂ := hv.le w hw.mem hw.isPrefix
  have hpre := List.prefix_of_prefix_length_le hw.isPrefix hv.isPrefix h₁
  exact hpre.eq_of_length (Nat.le_antisymm h₁ h₂)

/-- Text that arrives later does not change the shortest prefix. -/
lemma append (h : IsShortestPrefix W t w) (u : List α) : IsShortestPrefix W (t ++ u) w := by
  refine ⟨h.mem, h.isPrefix.trans (List.prefix_append t u), fun v hv hvp => ?_⟩
  rcases Nat.lt_or_ge v.length w.length with hlt | hle
  · have hvt : v <+: t := List.prefix_of_prefix_length_le hvp (List.prefix_append t u)
      (hlt.le.trans h.length_le)
    exact h.le v hv hvt
  · exact hle

/-- The shortest prefix of a longer text is the one of the shorter text, once it fits. -/
lemma of_append (h : IsShortestPrefix W (t ++ u) w) (hle : w.length ≤ t.length) :
    IsShortestPrefix W t w := by
  refine ⟨h.mem, ?_, fun v hv hvt => h.le v hv (hvt.trans (List.prefix_append t u))⟩
  exact List.prefix_of_prefix_length_le h.isPrefix (List.prefix_append t u) hle

lemma of_mem_iff {V : List (List α)} (hVW : ∀ x, x ∈ V ↔ x ∈ W) (h : IsShortestPrefix W t w) :
    IsShortestPrefix V t w :=
  ⟨(hVW w).2 h.mem, h.isPrefix, fun v hv => h.le v ((hVW v).1 hv)⟩

/-- A single word. -/
lemma singleton (h : w <+: t) : IsShortestPrefix [w] t w :=
  ⟨List.mem_singleton_self w, h, fun v hv _ => by rw [List.mem_singleton.1 hv]⟩

end IsShortestPrefix

/-- If a word begins the text, then a shortest one does. -/
lemma exists_isShortestPrefix (hv : v ∈ W) (hvt : v <+: t) : ∃ w, IsShortestPrefix W t w := by
  induction hn : v.length using Nat.strongRecOn generalizing v with
  | _ n ih =>
    by_cases hle : ∀ u ∈ W, u <+: t → v.length ≤ u.length
    · exact ⟨v, hv, hvt, hle⟩
    · push Not at hle
      obtain ⟨u, hu, hut, hlt⟩ := hle
      exact ih u.length (hn ▸ hlt) hu hut rfl

/-! ## The longest word -/

/-- The length of the longest word. -/
def longest (W : List (List α)) : ℕ := (W.map List.length).foldr max 0

lemma longest_le_iff {n : ℕ} : longest W ≤ n ↔ ∀ w ∈ W, w.length ≤ n := by
  induction W with
  | nil => simp [longest]
  | cons w W ih =>
    have hcons : longest (w :: W) = max w.length (longest W) := rfl
    rw [hcons, Nat.max_le, ih, List.forall_mem_cons]

lemma lt_longest_iff {n : ℕ} : n < longest W ↔ ∃ w ∈ W, n < w.length := by
  rw [← not_le, longest_le_iff]
  push Not
  exact Iff.rfl

lemma longest_eq_of_mem_iff {V : List (List α)} (hVW : ∀ x, x ∈ V ↔ x ∈ W) :
    longest V = longest W := by
  refine Nat.le_antisymm (longest_le_iff.2 fun v hv => ?_) (longest_le_iff.2 fun w hw => ?_)
  · exact longest_le_iff.1 le_rfl v ((hVW v).1 hv)
  · exact longest_le_iff.1 le_rfl w ((hVW w).2 hw)

/-! ## Scanning a list sorted by length -/

/-- The words are sorted by length, shortest first. -/
def SortedByLength (W : List (List α)) : Prop := W.Pairwise fun a b => a.length ≤ b.length

/-- The number of leading words that fit into `n` letters: the position of the first word that
does not. -/
def fitting (W : List (List α)) (n : ℕ) : ℕ := W.findIdx fun w => decide (n < w.length)

/-- On a sorted list every word that fits stands among the fitting ones. -/
lemma lt_fitting_of_length_le (hW : SortedByLength W) {n i : ℕ} (hi : i < W.length)
    (hle : W[i].length ≤ n) : i < fitting W n := by
  by_contra hge
  push Not at hge
  have hlt : fitting W n < W.length := hge.trans_lt hi
  have hlong : n < W[fitting W n].length :=
    of_decide_eq_true (@List.findIdx_getElem _ (fun w : List α => decide (n < w.length)) W hlt)
  have hmono : W[fitting W n].length ≤ W[i].length := by
    rcases hge.eq_or_lt with heq | hlt'
    · simp only [heq, le_refl]
    · exact List.pairwise_iff_getElem.1 hW _ _ hlt hi hlt'
  omega

/-- The words that are scanned fit. -/
lemma length_le_of_mem_take_fitting {n : ℕ} (hw : w ∈ W.take (fitting W n)) : w.length ≤ n := by
  obtain ⟨i, hi, rfl⟩ := List.mem_take_iff_getElem.1 hw
  have hlong := List.not_of_lt_findIdx (show i < fitting W n by omega)
  simpa using hlong

/-- All words fit exactly when the position of the first misfit is the end of the list. -/
lemma fitting_eq_length_iff {n : ℕ} :
    fitting W n = W.length ↔ ∀ w ∈ W, w.length ≤ n := by
  rw [fitting, List.findIdx_eq_length]
  simp

variable [DecidableEq α]

/-- The scan of the words that fit into the text for the first one that begins it. -/
def scan (W : List (List α)) (t : List α) : Option ℕ :=
  (W.take (fitting W t.length)).findIdx? fun w => w.isPrefixOf t

/-- What the scan of a sorted list finds is the shortest prefix. -/
lemma isShortestPrefix_of_scan (hW : SortedByLength W) {i : ℕ} (h : scan W t = some i) :
    ∃ hi : i < W.length, IsShortestPrefix W t W[i] := by
  obtain ⟨hlen, hpre, hmin⟩ := List.findIdx?_eq_some_iff_getElem.1 h
  have hi : i < W.length := (List.length_take_le' _ _).trans_lt' hlen
  have hfit : i < fitting W t.length := by
    rw [List.length_take] at hlen
    omega
  simp only [List.getElem_take, List.isPrefixOf_iff_prefix] at hpre
  refine ⟨hi, List.getElem_mem hi, hpre, fun v hv hvt => ?_⟩
  obtain ⟨j, hj, rfl⟩ := List.getElem_of_mem hv
  have hjfit := lt_fitting_of_length_le hW hj hvt.length_le
  rcases Nat.lt_or_ge j i with hji | hij
  · have hno := hmin j hji
    simp only [List.getElem_take, List.isPrefixOf_iff_prefix] at hno
    exact absurd hvt hno
  · rcases hij.eq_or_lt with rfl | hlt
    · exact le_rfl
    · exact List.pairwise_iff_getElem.1 hW _ _ hi hj hlt

/-- When the scan of a sorted list finds nothing, no word begins the text. -/
lemma not_prefix_of_scan_none (hW : SortedByLength W) (h : scan W t = none) :
    ∀ w ∈ W, ¬ w <+: t := by
  intro w hw hwt
  obtain ⟨i, hi, rfl⟩ := List.getElem_of_mem hw
  have hfit := lt_fitting_of_length_le hW hi hwt.length_le
  rw [scan, List.findIdx?_eq_none_iff] at h
  have hmem : W[i] ∈ W.take (fitting W t.length) :=
    List.mem_take_iff_getElem.2 ⟨i, by omega, rfl⟩
  have := h _ hmem
  rw [List.isPrefixOf_iff_prefix.2 hwt] at this
  exact absurd this (by simp)

end OllamaMitm.Lib
