import Mathlib.Data.List.Basic

/-!
# Simulation of labelled transition systems

A system is a relation `step : σ → α → σ → Prop` between states, with a label for each step.
`Trace step s as s'` is a run with the labels `as`. If a relation `R` between the states of
two systems is kept by every step of the first one, which the second one answers by a step
with the same label, then it answers every run by a run with the same labels.
-/

namespace Simulation

variable {σ τ α : Type*} {step : σ → α → σ → Prop} {step' : τ → α → τ → Prop} {R : σ → τ → Prop}
  {s s' : σ} {t : τ} {as : List α}

inductive Trace (step : σ → α → σ → Prop) : σ → List α → σ → Prop where
  | nil (s : σ) : Trace step s [] s
  | cons {s s' s'' : σ} {a : α} {as : List α} :
      step s a s' → Trace step s' as s'' → Trace step s (a :: as) s''

/-- Every step from related states is answered. -/
def Simulates (step : σ → α → σ → Prop) (step' : τ → α → τ → Prop) (R : σ → τ → Prop) : Prop :=
  ∀ s t a s', R s t → step s a s' → ∃ t', step' t a t' ∧ R s' t'

/-- So is every run. -/
theorem Simulates.trace (h : Simulates step step' R) (hR : R s t) (hs : Trace step s as s') :
  ∃ t', Trace step' t as t' ∧ R s' t'
  := by
  induction hs generalizing t with
  | nil s => exact ⟨t, .nil t, hR⟩
  | cons hstep _ ih =>
    obtain ⟨t₁, hstep', hR₁⟩ := h _ _ _ _ hR hstep
    obtain ⟨t', htrace, hR'⟩ := ih hR₁
    exact ⟨t', .cons hstep' htrace, hR'⟩

/-- A run whose steps all have a property, and the answers to them another one. -/
theorem Simulates.and {P : σ → α → σ → Prop} {P' : τ → α → τ → Prop}
    (h : Simulates step step' R) (hP : ∀ s a s' t t', R s t → R s' t' → P s a s' → P' t a t') :
  Simulates (fun s a s' => step s a s' ∧ P s a s') (fun t a t' => step' t a t' ∧ P' t a t') R
  := by
  rintro s t a s' hR ⟨hstep, hprop⟩
  obtain ⟨t', hstep', hR'⟩ := h s t a s' hR hstep
  exact ⟨t', ⟨hstep', hP s a s' t t' hR hR' hprop⟩, hR'⟩

/-- What every step keeps holds at the end of a run. -/
theorem Trace.invariant {I : σ → Prop} (h : Trace step s as s')
    (hstep : ∀ s a s', I s → step s a s' → I s') (hs : I s) :
  I s'
  := by
  induction h with
  | nil s => exact hs
  | cons ha _ ih => exact ih (hstep _ _ _ hs ha)

end Simulation
