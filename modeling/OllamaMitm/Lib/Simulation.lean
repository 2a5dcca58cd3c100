import Mathlib.Data.List.Forall2
import Mathlib.Data.List.Induction
import OllamaMitm.Lib.Runs

/-!
# Simulation of a system by an abstract one

A program that makes one step for each input is related to an abstract system that may choose
between several steps.  If every step of the program is one that the abstract system may make, then
so is every run; and an abstract system without a choice determines what the program may show.

Two systems of events are related in the same way, where the one may make several steps or none for
one of the other, and only the visible events have to agree.
-/

namespace OllamaMitm.Lib

variable {α ι κ σ : Type*}

/-- The abstract states that may be reached from `a` with the inputs. -/
inductive Reaches (step : α → ι → α → Prop) (a : α) : List ι → α → Prop
  | nil : Reaches step a [] a
  | snoc {is : List ι} {i : ι} {b c : α} (h : Reaches step a is b) (hstep : step b i c) :
      Reaches step a (is ++ [i]) c

variable {step : α → ι → α → Prop} {a b c : α} {is is' : List ι} {i : ι}

lemma reaches_nil_iff : Reaches step a [] b ↔ b = a := by
  constructor
  · intro h
    generalize his : ([] : List ι) = is at h
    cases h with
    | nil => rfl
    | snoc _ _ => simp at his
  · rintro rfl
    exact .nil

lemma reaches_snoc_iff :
    Reaches step a (is ++ [i]) c ↔ ∃ b, Reaches step a is b ∧ step b i c := by
  constructor
  · intro h
    generalize his : is ++ [i] = js at h
    cases h with
    | nil => simp at his
    | snoc h hstep =>
      obtain ⟨rfl, hlast⟩ := List.append_inj' his rfl
      obtain rfl := (List.cons.inj hlast).1
      exact ⟨_, h, hstep⟩
  · rintro ⟨b, h, hstep⟩
    exact h.snoc hstep

/-- What every step preserves holds of all that is reached. -/
lemma Reaches.invariant {P : α → Prop} (h : Reaches step a is b) (ha : P a)
    (hstep : ∀ b i c, P b → step b i c → P c) : P b := by
  induction h with
  | nil => exact ha
  | snoc _ hbc ih => exact hstep _ _ _ ih hbc

lemma Reaches.mono {step' : α → ι → α → Prop} (hstep : ∀ b i c, step b i c → step' b i c)
    (h : Reaches step a is b) : Reaches step' a is b := by
  induction h with
  | nil => exact .nil
  | snoc _ hbc ih => exact ih.snoc (hstep _ _ _ hbc)

/-- Without a choice there is one result. -/
lemma Reaches.unique (hstep : ∀ a i b c, step a i b → step a i c → b = c)
    (hb : Reaches step a is b) (hc : Reaches step a is c) : b = c := by
  induction is using List.reverseRecOn generalizing b c with
  | nil => rw [reaches_nil_iff.1 hb, reaches_nil_iff.1 hc]
  | append_singleton is i ih =>
    obtain ⟨b', hb', hstep'⟩ := reaches_snoc_iff.1 hb
    obtain ⟨c', hc', hstep''⟩ := reaches_snoc_iff.1 hc
    obtain rfl := ih hb' hc'
    exact hstep _ _ _ _ hstep' hstep''

/-- **The simulation rule.**  The program `impl` hears the inputs `ks`, for which the abstract
inputs `is` stand.  If it makes only steps that the abstract system may make, then its run is a run
of the abstract system. -/
theorem exists_reaches {impl : σ → κ → σ} {rep : α → σ → Prop} {stands : ι → κ → Prop}
    (hsim : ∀ a s i k, rep a s → stands i k → ∃ b, step a i b ∧ rep b (impl s k))
    {ks : List κ} {s : σ} (hks : List.Forall₂ stands is ks) (hs : rep a s) :
    ∃ b, Reaches step a is b ∧ rep b (ks.foldl impl s) := by
  induction ks using List.reverseRecOn generalizing is with
  | nil =>
    obtain rfl := List.forall₂_nil_right_iff.1 hks
    exact ⟨a, .nil, hs⟩
  | append_singleton ks k ih =>
    have hinit := List.forall₂_take_append is ks [k] hks
    have hlast := List.forall₂_drop_append is ks [k] hks
    obtain ⟨i, is', hik, hnil, hdrop⟩ := List.forall₂_cons_right_iff.1 hlast
    obtain rfl := List.forall₂_nil_right_iff.1 hnil
    obtain ⟨b, hb, hrep⟩ := ih hinit
    obtain ⟨c, hstep, hrep'⟩ := hsim b _ i k hrep hik
    rw [List.foldl_append, ← List.take_append_drop ks.length is, hdrop]
    exact ⟨c, hb.snoc hstep, hrep'⟩

section Runs

variable {τ ε ε' ω : Type*} {concrete : σ → ε → Option σ} {abstract : τ → ε' → Option τ}
variable {visible : ε → Option ω} {visible' : ε' → Option ω} {rep : σ → τ → Prop}
variable {s t : σ} {u : τ} {es : List ε}

/-- **The simulation rule for runs.**  If the abstract system can answer every step with steps that
show the same, then it can answer every run. -/
theorem exists_run_of_simulates
    (hsim : ∀ s e t u, rep s u → concrete s e = some t → ∃ es' v, run abstract u es' = some v ∧
      es'.filterMap visible' = (visible e).toList ∧ rep t v)
    (hrun : run concrete s es = some t) (hs : rep s u) :
    ∃ es' v, run abstract u es' = some v ∧ es'.filterMap visible' = es.filterMap visible ∧
      rep t v := by
  induction es generalizing s u with
  | nil =>
    obtain rfl : s = t := Option.some.inj hrun
    exact ⟨[], u, rfl, rfl, hs⟩
  | cons e es ih =>
    obtain ⟨s', hstep, hrest⟩ := run_cons_eq_some.1 hrun
    obtain ⟨es₁, u', hrun₁, hvisible₁, hs'⟩ := hsim s e s' u hs hstep
    obtain ⟨es₂, v, hrun₂, hvisible₂, ht⟩ := ih hrest hs'
    refine ⟨es₁ ++ es₂, v, run_append_eq_some.2 ⟨u', hrun₁, hrun₂⟩, ?_, ht⟩
    rw [List.filterMap_append, hvisible₁, hvisible₂]
    cases hv : visible e <;> simp [hv]

end Runs

end OllamaMitm.Lib
