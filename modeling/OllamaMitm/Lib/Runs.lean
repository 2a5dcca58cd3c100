import Mathlib.Algebra.Ring.Nat
import Mathlib.Data.List.Basic
import Mathlib.Tactic.Lemma

/-!
# Runs of a system

A system of several parties is given by what an event does to its state; an event that cannot
happen in a state has no result there.  An interleaving is a list of events.
-/

namespace OllamaMitm.Lib

variable {σ ε : Type*}

/-- The state after the events, if they can happen one after the other. -/
def run (step : σ → ε → Option σ) : σ → List ε → Option σ
  | s, [] => some s
  | s, e :: es => (step s e).bind fun t => run step t es

variable {step : σ → ε → Option σ} {s t : σ} {e : ε} {es es' : List ε}

lemma run_cons : run step s (e :: es) = (step s e).bind fun t => run step t es := rfl

lemma run_cons_eq_some :
    run step s (e :: es) = some t ↔ ∃ u, step s e = some u ∧ run step u es = some t := by
  rw [run_cons, Option.bind_eq_some_iff]

lemma run_append :
    run step s (es ++ es') = (run step s es).bind fun t => run step t es' := by
  induction es generalizing s with
  | nil => rfl
  | cons e es ih =>
    rw [List.cons_append, run_cons, run_cons, Option.bind_assoc]
    congr 1
    funext t
    exact ih

lemma run_append_eq_some :
    run step s (es ++ es') = some t ↔ ∃ u, run step s es = some u ∧ run step u es' = some t := by
  rw [run_append, Option.bind_eq_some_iff]

/-- An event of a run happens in a state on the way. -/
lemma exists_step_of_mem (h : run step s es = some t) (he : e ∈ es) :
    ∃ es₁ es₂ u v, es = es₁ ++ e :: es₂ ∧ run step s es₁ = some u ∧ step u e = some v := by
  obtain ⟨es₁, es₂, rfl⟩ := List.append_of_mem he
  obtain ⟨u, hu, hrest⟩ := run_append_eq_some.1 h
  obtain ⟨v, hv, -⟩ := run_cons_eq_some.1 hrest
  exact ⟨es₁, es₂, u, v, rfl, hu, hv⟩

/-- What the events of a run yield, one after the other. -/
def yields {α : Type*} (step : σ → ε → Option σ) (out : σ → ε → List α) : σ → List ε → List α
  | _, [] => []
  | s, e :: es => out s e ++ (step s e).elim [] fun t => yields step out t es

/-- Where every event appends what it yields to a list in the state, a run appends what all its
events yield. -/
theorem yields_of_run {α : Type*} {out : σ → ε → List α} {g : σ → List α}
    (hstep : ∀ s e t, step s e = some t → g t = g s ++ out s e) (h : run step s es = some t) :
    g t = g s ++ yields step out s es := by
  induction es generalizing s with
  | nil =>
    obtain rfl : s = t := Option.some.inj h
    exact (List.append_nil _).symm
  | cons e es ih =>
    obtain ⟨u, hu, hrest⟩ := run_cons_eq_some.1 h
    rw [ih hrest, hstep s e u hu, yields, hu, Option.elim_some, List.append_assoc]

/-- Every event of the run meets the condition in the state in which it happens. -/
def Along (step : σ → ε → Option σ) (C : σ → ε → Prop) : σ → List ε → Prop
  | _, [] => True
  | s, e :: es => C s e ∧ ∀ t, step s e = some t → Along step C t es

/-- A property that the events preserve under the condition is preserved by a run that meets it
all along. -/
theorem Along.run {C : σ → ε → Prop} {P : σ → Prop} (hes : Along step C s es)
    (h : ∀ s e t, P s → C s e → step s e = some t → P t) (hrun : Lib.run step s es = some t)
    (hs : P s) : P t := by
  induction es generalizing s with
  | nil =>
    obtain rfl : s = t := Option.some.inj hrun
    exact hs
  | cons e es ih =>
    obtain ⟨u, hu, hrest⟩ := run_cons_eq_some.1 hrun
    exact ih (hes.2 u hu) hrest (h s e u hs hes.1 hu)

/-- A condition that the events meet in every state. -/
lemma along_of_forall {C : σ → ε → Prop} (hes : ∀ e ∈ es, ∀ s, C s e) : Along step C s es := by
  induction es generalizing s with
  | nil => trivial
  | cons e es ih => exact ⟨hes e (by simp) s, fun t _ => ih fun e he => hes e (by simp [he])⟩

lemma Along.append {C : σ → ε → Prop} (hes : Along step C s es)
    (hes' : ∀ t, Lib.run step s es = some t → Along step C t es') :
    Along step C s (es ++ es') := by
  induction es generalizing s with
  | nil => exact hes' s rfl
  | cons e es ih =>
    exact ⟨hes.1, fun u hu => ih (hes.2 u hu) fun t ht => hes' t (run_cons_eq_some.2 ⟨u, hu, ht⟩)⟩

/-- Every event that is allowed preserves the property. -/
def Preserves (step : σ → ε → Option σ) (allowed : ε → Prop) (P : σ → Prop) : Prop :=
  ∀ s e t, P s → allowed e → step s e = some t → P t

/-- **The invariant rule.**  A property that every step preserves is preserved by every run. -/
theorem Preserves.run {allowed : ε → Prop} {P : σ → Prop} (h : Preserves step allowed P)
    (hrun : Lib.run step s es = some t) (hes : ∀ e ∈ es, allowed e) (hs : P s) : P t :=
  (along_of_forall (C := fun _ => allowed) fun e he _ => hes e he).run h hrun hs

/-- An event that cannot happen where the property holds is not part of a run from there. -/
theorem Preserves.not_mem {allowed : ε → Prop} {P : σ → Prop} (h : Preserves step allowed P)
    (hrun : Lib.run step s es = some t) (hes : ∀ e ∈ es, allowed e) (hs : P s)
    (hno : ∀ u v, P u → step u e ≠ some v) : e ∉ es := by
  intro he
  obtain ⟨es₁, es₂, u, v, rfl, hu, hv⟩ := exists_step_of_mem hrun he
  exact hno u v (h.run hu (fun e he => hes e (by simp [he])) hs) hv

/-- **The potential rule.**  Where every event costs no more than it takes from the potential and
what is paid for it, a run costs no more than the potential at its start and what is paid for its
events. -/
theorem Preserves.potential {allowed : ε → Prop} {P : σ → Prop} (h : Preserves step allowed P)
    {cost price : ε → ℕ} {potential : σ → ℕ}
    (hstep : ∀ s e t, P s → allowed e → step s e = some t →
      cost e + potential t ≤ potential s + price e)
    (hrun : Lib.run step s es = some t) (hes : ∀ e ∈ es, allowed e) (hs : P s) :
    (es.map cost).sum + potential t ≤ potential s + (es.map price).sum := by
  induction es generalizing s with
  | nil =>
    obtain rfl : s = t := Option.some.inj hrun
    simp
  | cons e es ih =>
    obtain ⟨u, hu, hrest⟩ := run_cons_eq_some.1 hrun
    have he := hes e (by simp)
    have hhead := hstep s e u hs he hu
    have htail := ih hrest (fun e he => hes e (by simp [he])) (h s e u hs he hu)
    simp only [List.map_cons, List.sum_cons]
    omega

/-- Where every event lowers the potential, a run comes to rest. -/
theorem Preserves.exists_rest {allowed : ε → Prop} {P : σ → Prop} (h : Preserves step allowed P)
    {potential : σ → ℕ}
    (hstep : ∀ s e t, P s → allowed e → step s e = some t → potential t < potential s)
    (hs : P s) :
    ∃ es t, (∀ e ∈ es, allowed e) ∧ Lib.run step s es = some t ∧
      ∀ e, allowed e → step t e = none := by
  induction hk : potential s using Nat.strongRecOn generalizing s with
  | _ k ih =>
    by_cases hrest : ∀ e, allowed e → step s e = none
    · exact ⟨[], s, by simp, rfl, hrest⟩
    · push Not at hrest
      obtain ⟨e, he, hsome⟩ := hrest
      obtain ⟨u, hu⟩ := Option.ne_none_iff_exists'.1 hsome
      have hlt : potential u < k := hk ▸ hstep s e u hs he hu
      obtain ⟨es, t, hes, hrun, ht⟩ := ih _ hlt (h s e u hs he hu) rfl
      exact ⟨e :: es, t, by simpa using ⟨he, hes⟩, run_cons_eq_some.2 ⟨u, hu, hrun⟩, ht⟩

/-- A run has no more events of a kind than the measure that they lower says, where no event
raises it. -/
theorem Preserves.countP_le {allowed : ε → Prop} {P : σ → Prop} (h : Preserves step allowed P)
    {p : ε → Bool} {measure : σ → ℕ}
    (hstep : ∀ s e t, P s → allowed e → step s e = some t →
      (p e).toNat + measure t ≤ measure s)
    (hrun : Lib.run step s es = some t) (hes : ∀ e ∈ es, allowed e) (hs : P s) :
    es.countP p + measure t ≤ measure s := by
  have hcount : (es.map fun e => (p e).toNat).sum = es.countP p := by
    clear hrun hes
    induction es with
    | nil => rfl
    | cons e es ih => cases he : p e <;> simp [he, ih, Nat.add_comm]
  have hfree : ∀ s e t, P s → allowed e → step s e = some t →
      (p e).toNat + measure t ≤ measure s + 0 := hstep
  have hcost := h.potential hfree hrun hes hs
  rwa [hcount, List.map_const', List.sum_replicate_nat, Nat.mul_zero, Nat.add_zero] at hcost

end OllamaMitm.Lib
