import Mathlib.Data.List.Infix
import Mathlib.Data.Nat.Find
import Mathlib.Tactic.Lemma
import Mathlib.Tactic.Push

/-!
# The occurrences of a pattern

Going through a text from left to right one meets the leftmost occurrence of a pattern, then the
leftmost one behind it, and so on.  These occurrences do not overlap, and the pieces of the text
between them are determined by the text and the pattern.
-/

namespace OllamaMitm.Lib

variable {α : Type*} {p t u rest : List α} {ps qs : List (List α)}

/-- The pieces of a text between the leftmost occurrences of a pattern that do not overlap. -/
inductive SplitsAt (p : List α) : List α → List (List α) → Prop
  /-- The pattern does not occur. -/
  | last {t : List α} (hno : ∀ i, ¬p <+: t.drop i) : SplitsAt p t [t]
  /-- Its leftmost occurrence comes after the piece `u`. -/
  | cons {u rest : List α} {ps : List (List α)}
      (hfirst : ∀ i < u.length, ¬p <+: (u ++ (p ++ rest)).drop i) (hrest : SplitsAt p rest ps) :
      SplitsAt p (u ++ (p ++ rest)) (u :: ps)

namespace SplitsAt

lemma ne_nil (h : SplitsAt p t ps) : ps ≠ [] := by cases h <;> simp

lemma intercalate_cons (r : List α) (hne : ps ≠ []) :
    List.intercalate r (u :: ps) = u ++ (r ++ List.intercalate r ps) := by
  obtain ⟨q, qs, rfl⟩ := List.exists_cons_of_ne_nil hne
  rw [List.intercalate_cons_cons, List.append_assoc]

/-- The pieces joined by the pattern are the text. -/
theorem intercalate_eq (h : SplitsAt p t ps) : List.intercalate p ps = t := by
  induction h with
  | last _ => exact List.intercalate_singleton
  | cons _ hrest ih => rw [intercalate_cons p hrest.ne_nil, ih]

/-- Two pieces before leftmost occurrences have the same length. -/
lemma length_le_of_first {u' rest' : List α} (hsame : u ++ (p ++ rest) = u' ++ (p ++ rest'))
    (hfirst : ∀ i < u'.length, ¬p <+: (u' ++ (p ++ rest')).drop i) : u'.length ≤ u.length := by
  by_contra hlt
  push Not at hlt
  refine hfirst u.length hlt ?_
  rw [← hsame, List.drop_left]
  exact List.prefix_append p rest

/-- **The pieces are determined by the text.** -/
theorem unique (h : SplitsAt p t ps) (h' : SplitsAt p t qs) : ps = qs := by
  induction h generalizing qs with
  | last hno =>
    cases h' with
    | last _ => rfl
    | @cons u rest qs hfirst hrest =>
      refine absurd ?_ (hno u.length)
      rw [List.drop_left]
      exact List.prefix_append p rest
  | @cons u rest ps hfirst hrest ih =>
    generalize hsame : u ++ (p ++ rest) = t at h' hfirst
    cases h' with
    | last hno =>
      refine absurd ?_ (hno u.length)
      rw [← hsame, List.drop_left]
      exact List.prefix_append p rest
    | @cons u' rest' qs hfirst' hrest' =>
      have hle := length_le_of_first hsame hfirst'
      have hge := length_le_of_first hsame.symm (hsame ▸ hfirst)
      obtain ⟨rfl, htail⟩ := List.append_inj hsame (by omega)
      rw [List.append_cancel_left_eq] at htail
      subst htail
      rw [ih hrest']

/-- A pattern that is not empty splits every text. -/
theorem exists_splitsAt (hne : p ≠ []) (t : List α) : ∃ ps, SplitsAt p t ps := by
  classical
  induction hn : t.length using Nat.strongRecOn generalizing t with
  | ind n ih =>
    by_cases hocc : ∃ i, p <+: t.drop i
    · -- behind the leftmost occurrence the text is shorter
      obtain ⟨rest, hrest⟩ := Nat.find_spec hocc
      have hpos := List.length_pos_iff.2 hne
      have hfit := congrArg List.length hrest
      rw [List.length_append, List.length_drop] at hfit
      obtain ⟨ps, hps⟩ := ih rest.length (by omega) rest rfl
      have hsplit : t.take (Nat.find hocc) ++ (p ++ rest) = t := by
        rw [hrest, List.take_append_drop]
      have hcons : SplitsAt p (t.take (Nat.find hocc) ++ (p ++ rest))
          (t.take (Nat.find hocc) :: ps) := by
        refine .cons (fun i hi => ?_) hps
        rw [hsplit]
        exact Nat.find_min hocc (hi.trans_le (List.length_take_le _ _))
      exact ⟨_, hsplit ▸ hcons⟩
    · push Not at hocc
      exact ⟨[t], .last hocc⟩

/-- There are not more occurrences than letters. -/
lemma length_le (h : SplitsAt p t ps) (hne : p ≠ []) : ps.length ≤ t.length + 1 := by
  induction h with
  | last _ => simp
  | cons _ _ ih =>
    have hpos := List.length_pos_iff.2 hne
    simp only [List.length_cons, List.length_append]
    omega

end SplitsAt

end OllamaMitm.Lib
