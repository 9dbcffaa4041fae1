import Warpline.Conc.Trace

/-!
# Operations that take effect one at a time

Every thread runs one operation. `eff t` says which of its calls, with their answers, settle what
the operation comes to; it takes effect at the oldest of these. `effects eff tr` are the operations
that have taken effect, newest first, with what they came to.

`Serial step b₀ l b`: the operations `l`, one at a time, lead from the abstract state `b₀` to `b`.
`Linear` is the invariant of a run whose operations agree with such an order, `Linearizable` what it
comes to: the order is fixed as it grows, so an operation that returns before another one starts
stands before it. `AnsweredBy` is the step of an operation over a storage that may fail.
-/

set_option autoImplicit false

namespace Conc

variable {τ σ ι β : Type} {ρ : ι → Type} {γ : τ → Type} [DecidableEq τ]

def effects (eff : (t : τ) → (c : ι) → ρ c → Option (γ t)) : Trace τ ι ρ → List (Sigma γ)
  | [] => []
  | (t, ⟨c, r⟩) :: tr =>
    match first (eff t) (Trace.of t tr), eff t c r with
    | none, some g => ⟨t, g⟩ :: effects eff tr
    | _, _ => effects eff tr

variable {eff : (t : τ) → (c : ι) → ρ c → Option (γ t)} {t : τ} {c : ι} {r : ρ c} {g : γ t}
  {tr tr' : Trace τ ι ρ}

@[simp] theorem effects_nil : effects eff ([] : Trace τ ι ρ) = [] := rfl

theorem effects_none (h : eff t c r = none) : effects eff ((t, ⟨c, r⟩) :: tr) = effects eff tr := by
  rw [effects, h]
  cases first (eff t) (Trace.of t tr) <;> rfl

theorem effects_done (q : (c : ι) × ρ c) (h : first (eff t) (Trace.of t tr) = some g) :
    effects eff ((t, q) :: tr) = effects eff tr := by
  obtain ⟨c, r⟩ := q
  rw [effects, h]

theorem effects_some (h : first (eff t) (Trace.of t tr) = none) (he : eff t c r = some g) :
    effects eff ((t, ⟨c, r⟩) :: tr) = ⟨t, g⟩ :: effects eff tr := by
  rw [effects, h, he]

variable (eff tr t) in
/-- A call adds at most its own operation. -/
theorem effects_cons (q : (c : ι) × ρ c) :
    effects eff ((t, q) :: tr) = effects eff tr ∨
      ∃ g, first (eff t) (Trace.of t tr) = none ∧ eff t q.1 q.2 = some g ∧
        effects eff ((t, q) :: tr) = ⟨t, g⟩ :: effects eff tr := by
  obtain ⟨c, r⟩ := q
  cases hf : first (eff t) (Trace.of t tr) with
  | some g => exact .inl (effects_done _ hf)
  | none =>
    cases he : eff t c r with
    | none => exact .inl (effects_none he)
    | some g => exact .inr ⟨g, rfl, rfl, effects_some hf he⟩

/-- What an operation came to is what its own calls say. -/
theorem mem_effects : ⟨t, g⟩ ∈ effects eff tr ↔ first (eff t) (Trace.of t tr) = some g := by
  induction tr with
  | nil => simp
  | cons e tr ih =>
    obtain ⟨u, c, r⟩ := e
    by_cases hu : u = t
    · subst hu
      rw [Trace.of_cons_self, first_cons]
      cases hf : first (eff u) (Trace.of u tr) with
      | some g' => rw [effects_done _ hf, ih, hf, Option.some_or]
      | none =>
        rw [hf] at ih
        rw [Option.none_or]
        cases he : eff u c r with
        | none => rw [effects_none he, ih]
        | some g' =>
          rw [effects_some hf he, List.mem_cons, ih]
          simp [eq_comm]
    · rw [Trace.of_cons_ne hu, ← ih]
      obtain heq | ⟨g', -, -, heq⟩ := effects_cons eff u tr ⟨c, r⟩
      · rw [heq]
      · rw [heq, List.mem_cons]
        refine ⟨fun h => h.resolve_left fun h => hu ?_, .inr⟩
        exact (congrArg Sigma.fst h).symm

/-- No operation takes effect twice. -/
theorem nodup_effects (tr : Trace τ ι ρ) : ((effects eff tr).map Sigma.fst).Nodup := by
  induction tr with
  | nil => exact List.nodup_nil
  | cons e tr ih =>
    obtain ⟨u, q⟩ := e
    obtain heq | ⟨g, hf, -, heq⟩ := effects_cons eff u tr q
    · rw [heq]
      exact ih
    · rw [heq, List.map_cons, List.nodup_cons]
      refine ⟨fun hm => ?_, ih⟩
      obtain ⟨⟨u', g'⟩, hm', hu⟩ := List.mem_map.1 hm
      cases hu
      rw [mem_effects.1 hm'] at hf
      cases hf

/-- The order only grows. -/
theorem effects_suffix (h : tr <:+ tr') : effects eff tr <:+ effects eff tr' := by
  obtain ⟨l, rfl⟩ := h
  induction l with
  | nil => exact List.suffix_rfl
  | cons e l ih =>
    obtain ⟨u, q⟩ := e
    rw [List.cons_append]
    obtain heq | ⟨g, -, -, heq⟩ := effects_cons eff u (l ++ tr) q
    · rw [heq]
      exact ih
    · rw [heq]
      exact ih.trans (List.suffix_cons _ _)

theorem Reach.trace_suffix {S : System τ σ ι ρ} {α : τ → Type}
    {C C' : Config τ (Traced τ σ ι ρ) ι ρ α} (hr : Reach S.traced C C') :
    C.shared.trace <:+ C'.shared.trace := by
  induction hr with
  | refl => exact List.suffix_rfl
  | tail _ hs ih =>
    cases hs with
    | call hp he =>
      rw [he.2]
      exact ih.trans (List.suffix_cons _ _)
    | env he =>
      rw [he.2]
      exact ih

/-! ## One at a time -/

inductive Serial (step : β → (t : τ) → γ t → β → Prop) (b₀ : β) : List (Sigma γ) → β → Prop
  | nil : Serial step b₀ [] b₀
  | cons {l : List (Sigma γ)} {t : τ} {g : γ t} {b b' : β} :
      Serial step b₀ l b → step b t g b' → Serial step b₀ (⟨t, g⟩ :: l) b'

/-- An operation of a storage that may fail: it comes to its answer, or to a failure, before it has
been carried out or after it. -/
inductive AnsweredBy {δ : Type} (answer : β → δ × β) (fault : δ → Prop) : β → δ → β → Prop
  | answered (b : β) : AnsweredBy answer fault b (answer b).1 (answer b).2
  | failed {b : β} {g : δ} : fault g → AnsweredBy answer fault b g b
  | lost {b : β} {g : δ} : fault g → AnsweredBy answer fault b g (answer b).2

/-- The operations so far have an order that leads to a state related to the shared one. -/
def Linear (eff : (t : τ) → (c : ι) → ρ c → Option (γ t)) (step : β → (t : τ) → γ t → β → Prop)
    (b₀ : β) (R : β → σ → Prop) (s : Traced τ σ ι ρ) : Prop :=
  ∃ b, Serial step b₀ (effects eff s.trace) b ∧ R b s.state

namespace Linear

variable {step : β → (t : τ) → γ t → β → Prop} {b₀ : β} {R : β → σ → Prop} {s s' : Traced τ σ ι ρ}

/-- Nothing takes effect. -/
theorem keep (h : Linear eff step b₀ R s) (he : effects eff s'.trace = effects eff s.trace)
    (hR : ∀ b, R b s.state → R b s'.state) : Linear eff step b₀ R s' := by
  obtain ⟨b, hb, hs⟩ := h
  exact ⟨b, by rwa [he], hR b hs⟩

/-- One operation takes effect. -/
theorem point (h : Linear eff step b₀ R s) (htr : s'.trace = (t, ⟨c, r⟩) :: s.trace)
    (hf : first (eff t) (Trace.of t s.trace) = none) (he : eff t c r = some g)
    (hR : ∀ b, R b s.state → ∃ b', step b t g b' ∧ R b' s'.state) : Linear eff step b₀ R s' := by
  obtain ⟨b, hb, hs⟩ := h
  obtain ⟨b', hstep, hs'⟩ := hR b hs
  refine ⟨b', ?_, hs'⟩
  rw [htr, effects_some hf he]
  exact hb.cons hstep

end Linear

/-- What a run in which the operations are linear has at a configuration. `silent` are the results of
operations that end before they take effect. -/
structure Linearizable (S : System τ σ ι ρ) (eff : (t : τ) → (c : ι) → ρ c → Option (γ t))
    (step : β → (t : τ) → γ t → β → Prop) (b₀ : β) (R : β → σ → Prop) (silent : ∀ t, γ t → Prop)
    (C : Config τ (Traced τ σ ι ρ) ι ρ γ) : Prop where
  /-- The operations, in the order in which they took effect, lead to the present state. -/
  serial : ∃ b, Serial step b₀ (effects eff C.shared.trace) b ∧ R b C.shared.state
  once : ((effects eff C.shared.trace).map Sigma.fst).Nodup
  returned : ∀ t g, C.prog t = .ret g → ⟨t, g⟩ ∈ effects eff C.shared.trace ∨
    silent t g ∧ ∀ g', ⟨t, g'⟩ ∉ effects eff C.shared.trace
  started : ∀ t g, ⟨t, g⟩ ∈ effects eff C.shared.trace → Trace.of t C.shared.trace ≠ []
  order : ∀ C', Reach S.traced C C' →
    effects eff C.shared.trace <:+ effects eff C'.shared.trace

theorem Linear.linearizable {S : System τ σ ι ρ} {step : β → (t : τ) → γ t → β → Prop} {b₀ : β}
    {R : β → σ → Prop} {silent : ∀ t, γ t → Prop} {C : Config τ (Traced τ σ ι ρ) ι ρ γ}
    (h : Linear eff step b₀ R C.shared)
    (hret : ∀ t g, C.prog t = .ret g → first (eff t) (Trace.of t C.shared.trace) = some g ∨
      silent t g ∧ first (eff t) (Trace.of t C.shared.trace) = none) :
    Linearizable S eff step b₀ R silent C where
  serial := h
  once := nodup_effects _
  returned := by
    intro t g hg
    refine (hret t g hg).imp mem_effects.2 fun hs => ⟨hs.1, fun g' hm => ?_⟩
    rw [mem_effects, hs.2] at hm
    cases hm
  started := by
    intro t g hg hnil
    rw [mem_effects, hnil] at hg
    cases hg
  order := fun _ hr => effects_suffix hr.trace_suffix

end Conc
