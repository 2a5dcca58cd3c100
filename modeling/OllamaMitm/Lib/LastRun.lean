import Mathlib.Data.List.DropRight
import Mathlib.Data.List.Induction
import Mathlib.Tactic.Lemma

/-!
# The equal elements at the end of a list

A list ends in a run of equal elements, and what comes before does not end in that element.  The
last `k` elements of the list are equal if and only if `k` is not more than the length of the run.
-/

namespace OllamaMitm.Lib

variable {α : Type*} {k : ℕ} {a b : α} {l pre run rest : List α}

/-- The list has `k` elements or more, and the last `k` of them are equal. -/
def RepeatsLast (k : ℕ) (l : List α) : Prop := ∃ a, List.replicate k a <:+ l

/-- A list in front of its last elements with a property. -/
lemma exists_lastRun (p : α → Prop) [DecidablePred p] (l : List α) :
    ∃ pre run, l = pre ++ run ∧ (∀ b ∈ run, p b) ∧ ∀ b ∈ pre.getLast?, ¬p b := by
  refine ⟨l.rdropWhile (fun b => p b), l.rtakeWhile (fun b => p b),
    List.rdropWhile_append_rtakeWhile.symm, ?_, ?_⟩
  · intro b hb
    simpa using List.mem_rtakeWhile_imp hb
  · intro b hb
    obtain ⟨hne, rfl⟩ := List.mem_getLast?_eq_getLast hb
    simpa using List.rdropWhile_last_not (fun b => decide (p b)) l hne

lemma replicate_suffix_concat :
    List.replicate (k + 1) a <:+ l ++ [b] ↔ b = a ∧ List.replicate k a <:+ l := by
  rw [List.replicate_succ', List.suffix_concat_iff]
  constructor
  · rintro (hnil | ⟨t, ht, hsuffix⟩)
    · simp at hnil
    · obtain ⟨rfl, hlast⟩ := List.append_inj' ht rfl
      exact ⟨(List.cons.inj hlast).1.symm, hsuffix⟩
  · rintro ⟨rfl, hsuffix⟩
    exact Or.inr ⟨_, rfl, hsuffix⟩

/-- The copies of `a` at the end of a list are counted by the run of `a` there. -/
lemma replicate_suffix_iff (hrun : ∀ b ∈ run, b = a) (hpre : ∀ b ∈ pre.getLast?, b ≠ a) :
    List.replicate k a <:+ pre ++ run ↔ k ≤ run.length := by
  induction run using List.reverseRecOn generalizing k with
  | nil =>
    rw [List.append_nil, List.length_nil, Nat.le_zero]
    cases k with
    | zero => exact iff_of_true List.nil_suffix rfl
    | succ k =>
      refine iff_of_false ?_ (Nat.succ_ne_zero k)
      intro hsuffix
      have hlast : a ∈ pre.getLast? := by
        obtain ⟨t, rfl⟩ := hsuffix
        rw [List.replicate_succ', ← List.append_assoc, List.getLast?_concat, Option.mem_some_iff]
      exact hpre a hlast rfl
  | append_singleton run c ih =>
    cases k with
    | zero => exact iff_of_true List.nil_suffix (Nat.zero_le _)
    | succ k =>
      have hc : c = a := hrun c (by simp)
      have hinit : ∀ b ∈ run, b = a := fun b hb => hrun b (by simp [hb])
      rw [← List.append_assoc, replicate_suffix_concat, ih hinit, List.length_append,
        List.length_singleton, Nat.add_le_add_iff_right]
      exact and_iff_right hc

/-- What comes before another element is not counted. -/
lemma replicate_suffix_append_cons (hb : b ≠ a) :
    List.replicate k a <:+ pre ++ b :: rest ↔ List.replicate k a <:+ rest := by
  induction rest using List.reverseRecOn generalizing k with
  | nil =>
    cases k with
    | zero => exact iff_of_true List.nil_suffix List.nil_suffix
    | succ k =>
      rw [replicate_suffix_concat]
      exact iff_of_false (fun h => hb h.1) (by simp)
  | append_singleton rest c ih =>
    cases k with
    | zero => exact iff_of_true List.nil_suffix List.nil_suffix
    | succ k =>
      rw [← List.cons_append, ← List.append_assoc, replicate_suffix_concat,
        replicate_suffix_concat, ih]

namespace RepeatsLast

lemma le_length (h : RepeatsLast k l) : k ≤ l.length := by
  obtain ⟨a, ha⟩ := h
  simpa using ha.length_le

/-- Of a list that ends in `a`, the last elements can only be copies of `a`. -/
lemma concat_iff (hk : 0 < k) : RepeatsLast k (l ++ [a]) ↔ List.replicate k a <:+ l ++ [a] := by
  obtain ⟨m, rfl⟩ := Nat.exists_eq_succ_of_ne_zero hk.ne'
  constructor
  · rintro ⟨c, hc⟩
    obtain rfl : a = c := (replicate_suffix_concat.1 hc).1
    exact hc
  · exact fun h => ⟨a, h⟩

/-- **The last elements are equal as far as the last run goes.** -/
theorem iff_le_length (hk : 0 < k) (hrun : ∀ b ∈ run, b = a) (hpre : ∀ b ∈ pre.getLast?, b ≠ a) :
    RepeatsLast k (pre ++ (run ++ [a])) ↔ k ≤ run.length + 1 := by
  have hrun' : ∀ b ∈ run ++ [a], b = a := by
    intro b hb
    rcases List.mem_append.1 hb with hb | hb
    · exact hrun b hb
    · exact List.mem_singleton.1 hb
  rw [← List.append_assoc, concat_iff hk, List.append_assoc, replicate_suffix_iff hrun' hpre,
    List.length_append, List.length_singleton]

/-- **Another element in between restarts the count.** -/
theorem append_cons_iff (pre rest : List α) (hk : 0 < k) (hb : b ≠ a) :
    RepeatsLast k (pre ++ b :: (rest ++ [a])) ↔ RepeatsLast k (rest ++ [a]) := by
  rw [← List.cons_append, ← List.append_assoc, concat_iff hk, concat_iff hk, List.append_assoc,
    List.cons_append, replicate_suffix_append_cons hb]

end RepeatsLast

end OllamaMitm.Lib
