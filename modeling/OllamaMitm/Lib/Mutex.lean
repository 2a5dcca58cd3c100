import Mathlib.Logic.Basic
import Mathlib.Tactic.Lemma

/-!
# A mutex

The parties that share a mutex each know whether they hold it, and the mutex knows its owner.
These agree, and they go on to agree when one party takes or releases the mutex and the others
stay where they are.
-/

namespace OllamaMitm.Lib

variable {ι : Type*} {holds holds' : ι → Prop} {owner : Option ι} {p q : ι}

/-- The mutex is held by its owner and by nobody else. -/
def Exclusive (holds : ι → Prop) (owner : Option ι) : Prop := ∀ p, holds p ↔ owner = some p

namespace Exclusive

/-- At most one party holds the mutex. -/
lemma unique (h : Exclusive holds owner) (hp : holds p) (hq : holds q) : p = q :=
  Option.some.inj (((h p).1 hp).symm.trans ((h q).1 hq))

lemma congr (h : Exclusive holds owner) (hsame : ∀ q, holds' q ↔ holds q) :
    Exclusive holds' owner := fun q => (hsame q).trans (h q)

/-- A party takes the free mutex. -/
lemma take (h : Exclusive holds none) (hp : holds' p) (hsame : ∀ q, q ≠ p → (holds' q ↔ holds q)) :
    Exclusive holds' (some p) := by
  intro q
  by_cases hq : q = p
  · subst hq
    exact iff_of_true hp rfl
  · refine iff_of_false (fun hh => ?_) (fun heq => hq (Option.some.inj heq).symm)
    exact absurd ((h q).1 ((hsame q hq).1 hh)) (by simp)

/-- The party that holds the mutex releases it. -/
lemma release (h : Exclusive holds owner) (hp : holds p) (hp' : ¬holds' p)
    (hsame : ∀ q, q ≠ p → (holds' q ↔ holds q)) : Exclusive holds' none := by
  intro q
  refine iff_of_false (fun hh => ?_) (by simp)
  by_cases hq : q = p
  · subst hq
    exact hp' hh
  · exact hq (h.unique ((hsame q hq).1 hh) hp)

end Exclusive

end OllamaMitm.Lib
