import Mathlib

/-!
# State machines

A machine is a step function `step : σ → ε → Option σ`: what an event does to a state, if it can
happen there. `Run step A s s'`: `s'` is reached from `s` by events that all meet `A`.
-/

set_option autoImplicit false

namespace Conc

variable {σ ε : Type} {step : σ → ε → Option σ} {A B : ε → σ → Prop} {s s' : σ}

def Run (step : σ → ε → Option σ) (A : ε → σ → Prop) : σ → σ → Prop :=
  Relation.ReflTransGen fun s s' => ∃ e, A e s ∧ step s e = some s'

/-- What every event keeps, every run keeps. -/
theorem Run.keeps {P : σ → Prop} (hr : Run step A s s')
    (hstep : ∀ s e s', A e s → P s → step s e = some s' → P s') (h : P s) : P s' := by
  induction hr with
  | refl => exact h
  | tail _ hs ih =>
    obtain ⟨e, hA, he⟩ := hs
    exact hstep _ e _ hA ih he

theorem Run.mono (hr : Run step A s s') (h : ∀ e s, A e s → B e s) : Run step B s s' :=
  Relation.ReflTransGen.mono (fun s _ ⟨e, hA, he⟩ => ⟨e, h e s hA, he⟩) _ _ hr

theorem Run.of_foldlM {l : List ε} (h : l.foldlM step s = some s') (hA : ∀ e ∈ l, ∀ s, A e s) :
    Run step A s s' := by
  induction l generalizing s with
  | nil =>
    cases h
    exact .refl
  | cons e l ih =>
    rw [List.foldlM_cons, Option.bind_eq_bind, Option.bind_eq_some_iff] at h
    obtain ⟨s₁, h1, h2⟩ := h
    exact .head ⟨e, hA e (.head _) s, h1⟩ (ih h2 fun e' he' => hA e' (.tail _ he'))

/-- A run in which each event has been found to meet `A` before it happened. -/
theorem Run.of_checked [∀ e s, Decidable (A e s)] {l : List ε}
    (h : l.foldlM (fun s e => if A e s then step s e else none) s = some s') :
    Run step A s s' := by
  induction l generalizing s with
  | nil =>
    cases h
    exact .refl
  | cons e l ih =>
    rw [List.foldlM_cons, Option.bind_eq_bind, Option.bind_eq_some_iff] at h
    obtain ⟨s₁, h1, h2⟩ := h
    split at h1
    · rename_i hA
      exact .head ⟨e, hA, h1⟩ (ih h2)
    · cases h1

end Conc
