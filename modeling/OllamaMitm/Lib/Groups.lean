import Mathlib.Computability.Language

/-!
# Bracketed groups followed by a tail

The language `(open · more∗ · close)∗ · tail∗`: a sequence of groups, each opened by one letter,
continued by any number of letters and closed by one letter, and then a tail.  A stream that is
produced letter by letter is always a prefix of such a word if it is in one of three stages: all
its groups are closed, its last group is open, or its tail has begun.  This file names the three
stages and says which letter leads from which stage to which.
-/

namespace OllamaMitm.Lib

open Computability

variable {α : Type*}

/-- The one-letter words over the letters of a set. -/
def letters (S : Set α) : Language α := {l | ∃ a ∈ S, l = [a]}

/-- The four letter classes of the language of groups. -/
structure GroupAlphabet (α : Type*) where
  opens : Set α
  continues : Set α
  closes : Set α
  tail : Set α

namespace GroupAlphabet

variable (G : GroupAlphabet α)

/-- The words all of whose groups are closed. -/
def closed : Language α := (letters G.opens * (letters G.continues)∗ * letters G.closes)∗

/-- The words whose last group is open. -/
def opened : Language α := G.closed * (letters G.opens * (letters G.continues)∗)

/-- The whole language: closed groups, then a tail. -/
def words : Language α := G.closed * (letters G.tail)∗

/-- The prefixes of the words of the language. -/
def IsPartial (l : List α) : Prop := ∃ w ∈ G.words, l <+: w

variable {G} {l : List α} {a : α}

lemma mem_letters {S : Set α} (ha : a ∈ S) : [a] ∈ letters S := ⟨a, ha, rfl⟩

lemma append_mem_kstar {L : Language α} {x y : List α} (hx : x ∈ L∗) (hy : y ∈ L) :
    x ++ y ∈ L∗ := by
  rw [Language.mem_kstar] at hx ⊢
  obtain ⟨xs, rfl, hxs⟩ := hx
  refine ⟨xs ++ [y], by simp, fun z hz => ?_⟩
  rcases List.mem_append.1 hz with hz | hz
  · exact hxs z hz
  · rwa [List.mem_singleton.1 hz]

lemma nil_mem_closed : [] ∈ G.closed := Language.nil_mem_kstar _

/-! ## The stages and the letters between them -/

lemma opened_of_closed (hl : l ∈ G.closed) (ha : a ∈ G.opens) : l ++ [a] ∈ G.opened := by
  refine Language.mem_mul.2 ⟨l, hl, [a], ?_, rfl⟩
  exact Language.mem_mul.2 ⟨[a], mem_letters ha, [], Language.nil_mem_kstar _, by simp⟩

lemma opened_append (hl : l ∈ G.opened) (ha : a ∈ G.continues) : l ++ [a] ∈ G.opened := by
  obtain ⟨x, hx, y, hy, rfl⟩ := Language.mem_mul.1 hl
  obtain ⟨o, ho, ps, hps, rfl⟩ := Language.mem_mul.1 hy
  refine Language.mem_mul.2 ⟨x, hx, o ++ (ps ++ [a]), ?_, by simp⟩
  exact Language.mem_mul.2 ⟨o, ho, _, append_mem_kstar hps (mem_letters ha), rfl⟩

lemma closed_of_opened (hl : l ∈ G.opened) (ha : a ∈ G.closes) : l ++ [a] ∈ G.closed := by
  obtain ⟨x, hx, y, hy, rfl⟩ := Language.mem_mul.1 hl
  rw [List.append_assoc]
  exact append_mem_kstar hx (Language.mem_mul.2 ⟨y, hy, [a], mem_letters ha, rfl⟩)

lemma words_of_closed (hl : l ∈ G.closed) : l ∈ G.words :=
  Language.mem_mul.2 ⟨l, hl, [], Language.nil_mem_kstar _, by simp⟩

lemma words_append (hl : l ∈ G.words) (ha : a ∈ G.tail) : l ++ [a] ∈ G.words := by
  obtain ⟨x, hx, y, hy, rfl⟩ := Language.mem_mul.1 hl
  refine Language.mem_mul.2 ⟨x, hx, y ++ [a], append_mem_kstar hy (mem_letters ha), by simp⟩

/-! ## Every stage is partial -/

lemma isPartial_of_words (hl : l ∈ G.words) : G.IsPartial l := ⟨l, hl, List.prefix_rfl⟩

lemma isPartial_of_closed (hl : l ∈ G.closed) : G.IsPartial l :=
  isPartial_of_words (words_of_closed hl)

/-- A word with an open group is a prefix of the word in which that group is closed; this needs
a closing letter. -/
lemma isPartial_of_opened (hl : l ∈ G.opened) (ha : a ∈ G.closes) : G.IsPartial l :=
  ⟨l ++ [a], words_of_closed (closed_of_opened hl ha), List.prefix_append _ _⟩

/-! ## The letters of closed groups -/

/-- A letter class that is none of the three of the groups does not occur in closed groups. -/
lemma forall_mem_of_closed {p : α → Prop} (ho : ∀ x ∈ G.opens, p x) (hc : ∀ x ∈ G.continues, p x)
    (hcl : ∀ x ∈ G.closes, p x) (hl : l ∈ G.closed) : ∀ x ∈ l, p x := by
  obtain ⟨gs, rfl, hgs⟩ := Language.mem_kstar.1 hl
  intro x hx
  obtain ⟨g, hg, hxg⟩ := List.mem_flatten.1 hx
  obtain ⟨oc, hoc, c, ⟨b, hb, rfl⟩, rfl⟩ := Language.mem_mul.1 (hgs g hg)
  obtain ⟨o, ⟨d, hd, rfl⟩, ps, hps, rfl⟩ := Language.mem_mul.1 hoc
  obtain ⟨pss, rfl, hpss⟩ := Language.mem_kstar.1 hps
  simp only [List.cons_append, List.nil_append, List.mem_cons, List.mem_append, List.mem_flatten,
    List.not_mem_nil, or_false] at hxg
  rcases hxg with rfl | ⟨q, hq, hxq⟩ | rfl
  · exact ho _ hd
  · obtain ⟨e, he, rfl⟩ := hpss q hq
    rw [List.mem_singleton.1 hxq]
    exact hc _ he
  · exact hcl _ hb

/-- What holds of all letters holds of every letter of a partial word. -/
lemma forall_mem_of_isPartial {p : α → Prop} (ho : ∀ x ∈ G.opens, p x)
    (hc : ∀ x ∈ G.continues, p x) (hcl : ∀ x ∈ G.closes, p x) (ht : ∀ x ∈ G.tail, p x)
    (hl : G.IsPartial l) : ∀ x ∈ l, p x := by
  obtain ⟨w, hw, hpre⟩ := hl
  obtain ⟨c, hclosed, t, hkstar, rfl⟩ := Language.mem_mul.1 hw
  obtain ⟨ts, rfl, hts⟩ := Language.mem_kstar.1 hkstar
  intro x hx
  rcases List.mem_append.1 (hpre.subset hx) with hx | hx
  · exact forall_mem_of_closed ho hc hcl hclosed x hx
  · obtain ⟨q, hq, hxq⟩ := List.mem_flatten.1 hx
    obtain ⟨e, he, rfl⟩ := hts q hq
    rw [List.mem_singleton.1 hxq]
    exact ht _ he

end GroupAlphabet

end OllamaMitm.Lib
