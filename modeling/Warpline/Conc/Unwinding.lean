import Mathlib

/-!
# Noninterference of a machine with outputs

`outputs step s l`: what the events `l` return, each with its event. The events that are `mine`
return the same with and without the others between them if two conditions on single events hold
(`Unwinding`): an event of mine does the same in states I cannot tell apart, and another's event
leaves me a state I cannot tell from the old one.
-/

set_option autoImplicit false

namespace Conc

variable {σ ε β : Type} {step : σ → ε → β × σ} {mine : ε → Prop} {Same : σ → σ → Prop}

def outputs (step : σ → ε → β × σ) : σ → List ε → List (ε × β)
  | _, [] => []
  | s, e :: l => (e, (step s e).1) :: outputs step (step s e).2 l

structure Unwinding (step : σ → ε → β × σ) (mine : ε → Prop) (Same : σ → σ → Prop) : Prop where
  own : ∀ {s s' e}, mine e → Same s s' →
    (step s e).1 = (step s' e).1 ∧ Same (step s e).2 (step s' e).2
  other : ∀ {s s' e}, ¬ mine e → Same s s' → Same (step s e).2 s'

theorem Unwinding.purge [DecidablePred mine] (h : Unwinding step mine Same) {s s' : σ}
    (hs : Same s s') (l : List ε) :
    (outputs step s l).filter (fun q => mine q.1) = outputs step s' (l.filter fun e => mine e) := by
  induction l generalizing s s' with
  | nil => rfl
  | cons e l ih =>
    by_cases he : mine e
    · obtain ⟨hr, hs'⟩ := h.own he hs
      simp only [outputs, List.filter_cons, he, decide_true, if_true, ih hs', hr]
    · simp only [outputs, List.filter_cons, he, decide_false, Bool.false_eq_true, if_false,
        ih (h.other he hs)]

end Conc
