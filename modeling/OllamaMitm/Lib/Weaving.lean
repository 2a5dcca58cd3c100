import Mathlib.Data.List.Induction
import Mathlib.Tactic.Lemma

/-!
# Weaving

A party that reads one sequence and writes another may write for each element that it reads one
element at most, and between them some of its own.  Such an output is woven from the input: it
neither repeats what was read nor changes the order.
-/

namespace OllamaMitm.Lib

variable {α β : Type*}

/-- The output `bs` is woven from the input `as`. -/
inductive Woven (own : β → Prop) (carries : α → β → Prop) : List α → List β → Prop
  | nil : Woven own carries [] []
  /-- An element of one's own. -/
  | adds {as : List α} {bs : List β} {b : β} (h : Woven own carries as bs) (hb : own b) :
      Woven own carries as (bs ++ [b])
  /-- An element that is read and leaves nothing. -/
  | drops {as : List α} {bs : List β} (h : Woven own carries as bs) (a : α) :
      Woven own carries (as ++ [a]) bs
  /-- An element that is read and passed on. -/
  | passes {as : List α} {bs : List β} {a : α} {b : β} (h : Woven own carries as bs)
      (hab : carries a b) : Woven own carries (as ++ [a]) (bs ++ [b])

namespace Woven

variable {own : β → Prop} {carries : α → β → Prop}
variable {as as' : List α} {bs bs' : List β} {a : α} {b : β}

lemma own_singleton (hb : own b) : Woven own carries [] [b] := adds nil hb

lemma carries_singleton (hab : carries a b) : Woven own carries [a] [b] := passes nil hab

/-- What is read may leave nothing. -/
lemma drop_all (as : List α) : Woven own carries as [] := by
  induction as using List.reverseRecOn with
  | nil => exact nil
  | append_singleton as a ih => exact ih.drops a

/-- Two outputs one after the other are woven from the two inputs one after the other. -/
theorem append (h : Woven own carries as bs) (h' : Woven own carries as' bs') :
    Woven own carries (as ++ as') (bs ++ bs') := by
  induction h' with
  | nil => simpa using h
  | adds _ hb ih =>
    rw [← List.append_assoc]
    exact ih.adds hb
  | drops _ a ih =>
    rw [← List.append_assoc]
    exact ih.drops a
  | passes _ hab ih =>
    rw [← List.append_assoc, ← List.append_assoc]
    exact ih.passes hab

/-- Every element of the output has an origin. -/
theorem origin (h : Woven own carries as bs) (hb : b ∈ bs) : own b ∨ ∃ a ∈ as, carries a b := by
  have hmore {as : List α} {a : α} (hb : own b ∨ ∃ a ∈ as, carries a b) :
      own b ∨ ∃ c ∈ as ++ [a], carries c b := by
    refine hb.imp_right ?_
    rintro ⟨c, hc, hcb⟩
    exact ⟨c, List.mem_append_left _ hc, hcb⟩
  induction h with
  | nil => cases hb
  | adds _ hown ih =>
    rcases List.mem_append.1 hb with hb | hb
    · exact ih hb
    · rw [List.mem_singleton.1 hb]
      exact Or.inl hown
  | drops _ a ih => exact hmore (ih hb)
  | passes _ hab ih =>
    rcases List.mem_append.1 hb with hb | hb
    · exact hmore (ih hb)
    · rw [List.mem_singleton.1 hb]
      exact Or.inr ⟨_, List.mem_append_right _ (List.mem_singleton_self _), hab⟩

end Woven

end OllamaMitm.Lib
