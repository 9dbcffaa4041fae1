import Warpline.Conc.Sat

/-!
# Interleavings of several programs

A `System` runs one program for each thread `t : τ` over one shared state: a step lets one thread
make the call it is about to make (`Step.call`), or lets the environment act (`Step.env`). Both
may depend on what every thread is about to do, so a condition on the order of two programs'
calls is a `restrict`ion of the system.

* `Reach.sat`: if each program is `Sat` on its own and each thread's guarantee is within the
  others' rely (`Compatible`), all of them stay `Sat` along every run, and so does an invariant
  every guarantee keeps.
* `play_reach`: a schedule of calls with an executable semantics is a run.
-/

set_option autoImplicit false

namespace Conc

variable {τ σ ι : Type} {ρ : ι → Type} {α : τ → Type}

structure Config (τ σ ι : Type) (ρ : ι → Type) (α : τ → Type) where
  shared : σ
  prog : ∀ t, Prog ι ρ (α t)

def Config.pending (C : Config τ σ ι ρ α) : τ → Option ι := fun t => (C.prog t).pending

structure System (τ σ ι : Type) (ρ : ι → Type) where
  exec : (τ → Option ι) → τ → σ → (c : ι) → ρ c → σ → Prop
  env : (τ → Option ι) → σ → σ → Prop

/-- The system without an environment. -/
def System.closed (exec : τ → σ → (c : ι) → ρ c → σ → Prop) : System τ σ ι ρ where
  exec := fun _ => exec
  env := fun _ _ _ => False

/-- The runs of `S` whose calls all meet `A`. -/
def System.restrict (S : System τ σ ι ρ)
    (A : (τ → Option ι) → τ → σ → (c : ι) → ρ c → Prop) : System τ σ ι ρ where
  exec := fun pend t s c r s' => S.exec pend t s c r s' ∧ A pend t s c r
  env := S.env

variable [DecidableEq τ]

inductive Step (S : System τ σ ι ρ) : Config τ σ ι ρ α → Config τ σ ι ρ α → Prop
  | call {C : Config τ σ ι ρ α} {t : τ} {c : ι} {k : ρ c → Prog ι ρ (α t)} {r : ρ c} {s' : σ} :
      C.prog t = .call c k → S.exec C.pending t C.shared c r s' →
      Step S C ⟨s', Function.update C.prog t (k r)⟩
  | env {C : Config τ σ ι ρ α} {s' : σ} :
      S.env C.pending C.shared s' → Step S C ⟨s', C.prog⟩

/-- The configurations a run from `C` reaches. -/
def Reach (S : System τ σ ι ρ) : Config τ σ ι ρ α → Config τ σ ι ρ α → Prop :=
  Relation.ReflTransGen (Step S)

theorem Reach.mono {S S' : System τ σ ι ρ} {C C' : Config τ σ ι ρ α} (h : Reach S C C')
    (he : ∀ pend t s c r s', S.exec pend t s c r s' → S'.exec pend t s c r s')
    (hv : ∀ pend s s', S.env pend s s' → S'.env pend s s') : Reach S' C C' := by
  induction h with
  | refl => exact .refl
  | tail _ hs ih =>
    refine ih.tail ?_
    cases hs with
    | call hp hx => exact .call hp (he _ _ _ _ _ _ hx)
    | env hx => exact .env (hv _ _ _ hx)

/-- A program that has returned makes no step. -/
theorem Reach.ret {S : System τ σ ι ρ} {C C' : Config τ σ ι ρ α} (hr : Reach S C C') {t : τ}
    {a : α t} (h : C.prog t = .ret a) : C'.prog t = .ret a := by
  induction hr with
  | refl => exact h
  | tail _ hs ih =>
    cases hs with
    | @call u c k r s' hp _ =>
      have hu : t ≠ u := by
        rintro rfl
        cases ih.symm.trans hp
      simpa [Function.update_of_ne hu] using ih
    | env => exact ih

/-! ## Composition -/

/-- What makes the proofs of the single programs fit together: each thread's calls are within
its own setting, and one thread's guarantee, like the environment, is within the others' rely.
`J` is an invariant of the shared state the guarantees may be read with. -/
structure Compatible (S : System τ σ ι ρ) (T : τ → Thread σ ι ρ) (J : σ → Prop) : Prop where
  exec : ∀ pend t s c r s', pend t = some c → J s → S.exec pend t s c r s' → (T t).exec s c r s'
  guar : ∀ pend t u s c r s', t ≠ u → pend t = some c → J s → S.exec pend t s c r s' →
    (T t).guar c s s' → (T u).rely (pend u) s s'
  env : ∀ pend u s s', J s → S.env pend s s' → (T u).rely (pend u) s s'
  inv : ∀ t s c s', J s → (T t).guar c s s' → J s'
  envInv : ∀ pend s s', J s → S.env pend s s' → J s'

variable {S : System τ σ ι ρ} {T : τ → Thread σ ι ρ} {J : σ → Prop}
  {Q : ∀ t, α t → σ → Prop}

theorem Step.sat {C C' : Config τ σ ι ρ α} (hc : Compatible S T J)
    (hq : ∀ t a, (T t).Stable none (Q t a)) (hJ : J C.shared)
    (h : ∀ t, Sat (T t) (Q t) (C.prog t) C.shared) (hs : Step S C C') :
    J C'.shared ∧ ∀ t, Sat (T t) (Q t) (C'.prog t) C'.shared := by
  cases hs with
  | @call t c k r s' hp hx =>
    have hpend : C.pending t = some c := by simp [Config.pending, hp]
    have ht := h t
    rw [hp] at ht
    obtain ⟨hg, hk⟩ := ht _ .refl r s' (hc.exec _ _ _ _ _ _ hpend hJ hx)
    refine ⟨hc.inv _ _ _ _ hJ hg, fun u => ?_⟩
    by_cases hu : u = t
    · subst hu
      simpa using hk
    · simp only [Function.update_of_ne hu]
      exact (h u).rely (hq u) (hc.guar _ _ _ _ _ _ _ (Ne.symm hu) hpend hJ hx hg)
  | env hx =>
    exact ⟨hc.envInv _ _ _ hJ hx, fun u => (h u).rely (hq u) (hc.env _ _ _ _ hJ hx)⟩

/-- **Composition**: along every run the shared invariant holds and every thread stays `Sat`. -/
theorem Reach.sat {C C' : Config τ σ ι ρ α} (hc : Compatible S T J)
    (hq : ∀ t a, (T t).Stable none (Q t a)) (hJ : J C.shared)
    (h : ∀ t, Sat (T t) (Q t) (C.prog t) C.shared) (hr : Reach S C C') :
    J C'.shared ∧ ∀ t, Sat (T t) (Q t) (C'.prog t) C'.shared := by
  induction hr with
  | refl => exact ⟨hJ, h⟩
  | tail _ hs ih => exact hs.sat hc hq ih.1 ih.2

/-- What holds when a thread has returned. -/
theorem Reach.post {C C' : Config τ σ ι ρ α} (hc : Compatible S T J)
    (hq : ∀ t a, (T t).Stable none (Q t a)) (hJ : J C.shared)
    (h : ∀ t, Sat (T t) (Q t) (C.prog t) C.shared) (hr : Reach S C C') {t : τ} {a : α t}
    (ha : C'.prog t = .ret a) : Q t a C'.shared := by
  have := (hr.sat hc hq hJ h).2 t
  rwa [ha] at this

/-! ## One thread -/

/-- An invariant of the shared state that every call keeps, whoever makes it. -/
theorem Reach.keeps {C C' : Config τ σ ι ρ α} (hr : Reach S C C')
    (hx : ∀ pend t s c r s', J s → S.exec pend t s c r s' → J s')
    (hv : ∀ pend s s', J s → S.env pend s s' → J s') (h : J C.shared) : J C'.shared := by
  induction hr with
  | refl => exact h
  | tail _ hs ih =>
    cases hs with
    | call hp he => exact hx _ _ _ _ _ _ ih he
    | env he => exact hv _ _ _ ih he

/-- What every call leaves of a thread's program, whatever it is answered. -/
theorem Reach.program {C C' : Config τ σ ι ρ α} {t : τ} {P : Prog ι ρ (α t) → Prop}
    (hr : Reach S C C') (hP : ∀ c k r, P (.call c k) → P (k r)) (h : P (C.prog t)) :
    P (C'.prog t) := by
  induction hr with
  | refl => exact h
  | tail _ hs ih =>
    cases hs with
    | @call u c k r s' hp he =>
      by_cases hu : u = t
      · subst hu
        rw [hp] at ih
        simp only [Function.update_self]
        exact hP c k r ih
      · simp only [Function.update_of_ne (Ne.symm hu)]
        exact ih
    | env he => exact ih

/-- What holds of one thread under such an invariant, whatever the others run. -/
theorem Reach.follow {C C' : Config τ σ ι ρ α} {t : τ} {T : Thread σ ι ρ} {Q : α t → σ → Prop}
    (hr : Reach S C C') (hx : ∀ pend t s c r s', J s → S.exec pend t s c r s' → J s')
    (hv : ∀ pend s s', J s → S.env pend s s' → J s') (hJ : J C.shared)
    (he : ∀ pend s c r s', J s → S.exec pend t s c r s' → T.exec s c r s')
    (ho : ∀ pend u s c r s', u ≠ t → J s → S.exec pend u s c r s' → T.rely (pend t) s s')
    (hve : ∀ pend s s', J s → S.env pend s s' → T.rely (pend t) s s')
    (hq : ∀ a, T.Stable none (Q a)) (h : Sat T Q (C.prog t) C.shared) :
    Sat T Q (C'.prog t) C'.shared := by
  induction hr with
  | refl => exact h
  | @tail C₁ C₂ hr₁ hs ih =>
    have hJ₁ : J C₁.shared := Reach.keeps hr₁ hx hv hJ
    cases hs with
    | @call u c k r s' hp hc =>
      by_cases hu : u = t
      · subst hu
        rw [hp] at ih
        simpa using (ih _ .refl r s' (he _ _ _ _ _ hJ₁ hc)).2
      · simp only [Function.update_of_ne (Ne.symm hu)]
        exact ih.rely hq (ho _ _ _ _ _ _ hu hJ₁ hc)
    | env hc => exact ih.rely hq (hve _ _ _ hJ₁ hc)

/-! ## Schedules -/

section
variable {κ : Type} (ex : κ → (τ → Option ι) → τ → σ → (c : ι) → Option (ρ c × σ))

/-- Thread `t` makes its call, the choice `x` resolving what the semantics leaves open. -/
def Config.fire (C : Config τ σ ι ρ α) (t : τ) (x : κ) : Option (Config τ σ ι ρ α) :=
  match C.prog t with
  | .ret _ => none
  | .call c k =>
    (ex x C.pending t C.shared c).map fun q => ⟨q.2, Function.update C.prog t (k q.1)⟩

def Config.play : List (τ × κ) → Config τ σ ι ρ α → Option (Config τ σ ι ρ α)
  | [], C => some C
  | (t, x) :: sched, C => (C.fire ex t x).bind (Config.play sched)

/-- A schedule in which the environment acts too. -/
def Config.playEnv {η : Type} (env : η → (τ → Option ι) → σ → Option σ) :
    List ((τ × κ) ⊕ η) → Config τ σ ι ρ α → Option (Config τ σ ι ρ α)
  | [], C => some C
  | .inl q :: sched, C => (C.fire ex q.1 q.2).bind (Config.playEnv env sched)
  | .inr e :: sched, C =>
    (env e C.pending C.shared).bind fun s' => Config.playEnv env sched ⟨s', C.prog⟩

/-- Only the calls that pass a test. -/
def checked (B : (τ → Option ι) → τ → σ → (c : ι) → ρ c → Bool) :
    κ → (τ → Option ι) → τ → σ → (c : ι) → Option (ρ c × σ) :=
  fun x pend t s c => (ex x pend t s c).filter fun q => B pend t s c q.1

variable {ex}

theorem play_reach (hS : ∀ x pend t s c r s', ex x pend t s c = some (r, s') →
      S.exec pend t s c r s') {sched : List (τ × κ)} {C C' : Config τ σ ι ρ α}
    (h : C.play ex sched = some C') : Reach S C C' := by
  induction sched generalizing C with
  | nil =>
    simp only [Config.play, Option.some.injEq] at h
    exact h ▸ .refl
  | cons q sched ih =>
    obtain ⟨t, x⟩ := q
    simp only [Config.play, Option.bind_eq_some_iff] at h
    obtain ⟨C₁, h1, h2⟩ := h
    refine .head ?_ (ih h2)
    unfold Config.fire at h1
    split at h1
    · cases h1
    · rename_i c k hp
      simp only [Option.map_eq_some_iff] at h1
      obtain ⟨⟨r, s'⟩, hx, rfl⟩ := h1
      exact .call hp (hS _ _ _ _ _ _ _ hx)

theorem playEnv_reach {η : Type} {env : η → (τ → Option ι) → σ → Option σ}
    (hS : ∀ x pend t s c r s', ex x pend t s c = some (r, s') → S.exec pend t s c r s')
    (hE : ∀ e pend s s', env e pend s = some s' → S.env pend s s')
    {sched : List ((τ × κ) ⊕ η)} {C C' : Config τ σ ι ρ α}
    (h : C.playEnv ex env sched = some C') : Reach S C C' := by
  induction sched generalizing C with
  | nil =>
    cases h
    exact .refl
  | cons q sched ih =>
    cases q with
    | inl q =>
      obtain ⟨C₁, h1, h2⟩ := Option.bind_eq_some_iff.1 h
      have hplay : C.play ex [q] = some C₁ := by
        rw [Config.play, h1]
        rfl
      exact (play_reach hS hplay).trans (ih h2)
    | inr e =>
      obtain ⟨s', h1, h2⟩ := Option.bind_eq_some_iff.1 h
      exact .head (.env (hE _ _ _ _ h1)) (ih h2)

theorem play_restrict {B : (τ → Option ι) → τ → σ → (c : ι) → ρ c → Bool}
    (hS : ∀ x pend t s c r s', ex x pend t s c = some (r, s') → S.exec pend t s c r s')
    {sched : List (τ × κ)} {C C' : Config τ σ ι ρ α}
    (h : C.play (checked ex B) sched = some C') :
    Reach (S.restrict fun pend t s c r => B pend t s c r = true) C C' := by
  refine play_reach (fun x pend t s c r s' hx => ?_) h
  simp only [checked, Option.filter_eq_some_iff] at hx
  exact ⟨hS _ _ _ _ _ _ _ hx.1, hx.2⟩

end

end Conc
