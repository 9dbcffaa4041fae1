import Warpline.Conc.Sat

/-!
# The calls a program can make

`Prog.Calls P p`: every call `p` makes, whatever it is answered, satisfies `P`. A program whose
calls all keep an assertion keeps it (`Prog.Calls.sat`).

`Prog.Answers good P p`: as long as every call is answered well, `p` returns a result in `P`
(`Sat.answers`). `Thread.judged` is about both.

`Prog.Needs E R p`: `p` returns a result in `R` only after a call that is answered as `E` says.
-/

set_option autoImplicit false

namespace Conc

/-- The result is no error. -/
def IsOk {ε α : Type} (r : Except ε α) : Prop := ∃ a, r = .ok a

theorem not_isOk_error {ε α : Type} (e : ε) : ¬IsOk (.error e : Except ε α) :=
  fun ⟨_, h⟩ => by cases h

/-- If the result is an error, it is one in `Φ`. -/
def Raises {ε α : Type} (Φ : ε → Prop) (r : Except ε α) : Prop := ∀ e, r = .error e → Φ e

theorem Raises.ok {ε α : Type} {Φ : ε → Prop} (a : α) : Raises Φ (.ok a) := fun _ h => by cases h

theorem Raises.error {ε α : Type} {Φ : ε → Prop} {e : ε} (h : Φ e) :
    Raises Φ (.error e : Except ε α) := by
  rintro _ ⟨⟩
  exact h

/-- A setting in which only the calls in `P` are made. -/
def Thread.limit {σ ι : Type} {ρ : ι → Type} (T : Thread σ ι ρ) (P : ι → Prop) : Thread σ ι ρ :=
  { T with exec := fun s c r s' => T.exec s c r s' ∧ P c }

namespace Prog

variable {ι : Type} {ρ : ι → Type} {α β ε ε' : Type}

def Calls (P : ι → Prop) : Prog ι ρ α → Prop
  | ret _ => True
  | call c k => P c ∧ ∀ r, Calls P (k r)

namespace Calls

variable {P : ι → Prop}

theorem mono {P' : ι → Prop} {p : Prog ι ρ α} (hP : ∀ c, P c → P' c) (hp : Calls P p) :
    Calls P' p := by
  induction p with
  | ret a => trivial
  | call c k ih => exact ⟨hP c hp.1, fun r => ih r (hp.2 r)⟩

theorem perform {c : ι} (h : P c) : Calls P (Prog.perform c : Prog ι ρ (ρ c)) :=
  ⟨h, fun _ => trivial⟩

theorem bind {p : Prog ι ρ α} {f : α → Prog ι ρ β} (hp : Calls P p) (hf : ∀ a, Calls P (f a)) :
    Calls P (p >>= f) := by
  induction p with
  | ret a => exact hf a
  | call c k ih => exact ⟨hp.1, fun r => ih r (hp.2 r)⟩

theorem bindE {p : ExceptT ε (Prog ι ρ) α} {f : α → ExceptT ε (Prog ι ρ) β}
    (hp : Calls P p.run) (hf : ∀ a, Calls P (f a).run) : Calls P (p >>= f).run := by
  refine bind (f := ExceptT.bindCont f) hp fun r => ?_
  cases r with
  | ok a => exact hf a
  | error e => trivial

theorem mapErr {p : ExceptT ε (Prog ι ρ) α} {g : ε → ε'} (hp : Calls P p.run) :
    Calls P (Prog.mapErr g p).run :=
  bind hp fun _ => trivial

theorem liftE {p : Prog ι ρ α} {f : α → ExceptT ε (Prog ι ρ) β} (hp : Calls P p)
    (hf : ∀ a, Calls P (f a).run) : Calls P ((liftM p : ExceptT ε (Prog ι ρ) α) >>= f).run :=
  bindE (bind (f := fun a => Prog.ret (Except.ok a)) hp fun _ => trivial) hf

theorem foldlE {f : β → α → ExceptT ε (Prog ι ρ) β} (hf : ∀ b a, Calls P (f b a).run)
    (l : List α) (b : β) : Calls P (l.foldlM f b).run := by
  induction l generalizing b with
  | nil => trivial
  | cons a l ih =>
    rw [List.foldlM_cons]
    exact bindE (hf b a) ih

theorem onError {p : ExceptT ε (Prog ι ρ) α} {cleanup : Prog ι ρ Unit} (hp : Calls P p.run)
    (hc : Calls P cleanup) : Calls P (Prog.onError cleanup p).run := by
  refine bind hp fun r => ?_
  cases r with
  | ok a => trivial
  | error e => exact bind hc fun _ => trivial

theorem guarded {p : ExceptT ε (Prog ι ρ) α} {cleanup : Prog ι ρ Unit} (hp : Calls P p.run)
    (hc : Calls P cleanup) : Calls P (Prog.guarded cleanup p).run :=
  bind hp fun _ => bind hc fun _ => trivial

/-- A program whose calls all keep `R`, and the guarantee, keeps `R`. -/
theorem sat {σ : Type} {T : Thread σ ι ρ} {R : σ → Prop} {p : Prog ι ρ α} {s : σ}
    (hp : Calls P p) (hst : ∀ c, P c → T.Stable (some c) R)
    (h : ∀ c s r s', P c → R s → T.exec s c r s' → T.guar c s s' ∧ R s') (hs : R s) :
    Sat T (fun _ => R) p s := by
  induction p generalizing s with
  | ret a => exact hs
  | call c k ih =>
    refine Sat.call R (hst c hp.1) hs fun s₁ r s₂ hs₁ he => ?_
    obtain ⟨hg, hs₂⟩ := h c s₁ r s₂ hp.1 hs₁ he
    exact ⟨hg, ih r (hp.2 r) hs₂⟩

/-- A program whose calls are all in `P` may be proved in the setting where no other is made. -/
theorem limit {σ : Type} {T : Thread σ ι ρ} {Q : α → σ → Prop} {p : Prog ι ρ α} {s : σ}
    (hp : Calls P p) (h : Sat (T.limit P) Q p s) : Sat T Q p s := by
  induction p generalizing s with
  | ret a => exact h
  | call c k ih =>
    intro s₁ hr r s₂ he
    obtain ⟨hg, hk⟩ := h s₁ hr r s₂ ⟨he, hp.1⟩
    exact ⟨hg, ih r (hp.2 r) hk⟩

end Calls

/-! ## Good answers -/

def Answers (good : (c : ι) → ρ c → Prop) (P : α → Prop) : Prog ι ρ α → Prop
  | ret a => P a
  | call c k => ∀ r, good c r → Answers good P (k r)

namespace Answers

variable {good : (c : ι) → ρ c → Prop}

theorem perform {c : ι} {P : ρ c → Prop} (h : ∀ r, good c r → P r) :
    Answers good P (Prog.perform c) :=
  h

theorem bind {P : α → Prop} {P' : β → Prop} {p : Prog ι ρ α} {f : α → Prog ι ρ β}
    (hp : Answers good P p) (hf : ∀ a, P a → Answers good P' (f a)) :
    Answers good P' (p >>= f) := by
  induction p with
  | ret a => exact hf a hp
  | call c k ih => exact fun r hr => ih r (hp r hr)

theorem bindE {p : ExceptT ε (Prog ι ρ) α} {f : α → ExceptT ε (Prog ι ρ) β}
    (hp : Answers good IsOk p.run) (hf : ∀ a, Answers good IsOk (f a).run) :
    Answers good IsOk (p >>= f).run := by
  refine bind (f := ExceptT.bindCont f) hp ?_
  rintro _ ⟨a, rfl⟩
  exact hf a

/-- Whatever the answers are. -/
theorem any (p : Prog ι ρ α) : Answers good (fun _ => True) p := by
  induction p with
  | ret a => trivial
  | call c k ih => exact fun r _ => ih r

/-- A step that may fail, of which more is known than that. -/
theorem bindE' {p : ExceptT ε (Prog ι ρ) α} {f : α → ExceptT ε (Prog ι ρ) β}
    {P : Except ε α → Prop} {P' : Except ε β → Prop} (hp : Answers good P p.run)
    (hf : ∀ a, P (.ok a) → Answers good P' (f a).run) (he : ∀ e, P (.error e) → P' (.error e)) :
    Answers good P' (p >>= f).run := by
  refine bind (f := ExceptT.bindCont f) hp fun r hr => ?_
  cases r with
  | ok a => exact hf a hr
  | error e => exact he e hr

theorem guarded {p : ExceptT ε (Prog ι ρ) α} {cleanup : Prog ι ρ Unit} {P : Except ε α → Prop}
    (hp : Answers good P p.run) : Answers good P (Prog.guarded cleanup p).run :=
  bind hp fun _ hr => bind (any cleanup) fun _ _ => hr

theorem mapErr {p : ExceptT ε (Prog ι ρ) α} {g : ε → ε'} (hp : Answers good IsOk p.run) :
    Answers good IsOk (Prog.mapErr g p).run := by
  refine bind hp ?_
  rintro _ ⟨a, rfl⟩
  exact ⟨a, rfl⟩

theorem onError {p : ExceptT ε (Prog ι ρ) α} {cleanup : Prog ι ρ Unit}
    (hp : Answers good IsOk p.run) : Answers good IsOk (Prog.onError cleanup p).run := by
  refine bind hp ?_
  rintro _ ⟨a, rfl⟩
  exact ⟨a, rfl⟩

/-! ### Errors -/

variable {Φ : ε → Prop}

theorem raises_bindE {p : ExceptT ε (Prog ι ρ) α} {f : α → ExceptT ε (Prog ι ρ) β}
    (hp : Answers good (Raises Φ) p.run) (hf : ∀ a, Answers good (Raises Φ) (f a).run) :
    Answers good (Raises Φ) (p >>= f).run :=
  bindE' hp (fun a _ => hf a) fun e he => .error (he e rfl)

theorem raises_liftE {p : Prog ι ρ α} {f : α → ExceptT ε (Prog ι ρ) β}
    (hf : ∀ a, Answers good (Raises Φ) (f a).run) :
    Answers good (Raises Φ) ((liftM p : ExceptT ε (Prog ι ρ) α) >>= f).run :=
  raises_bindE (bind (any p) fun a _ => .ok a) hf

theorem raises_mapErr {p : ExceptT ε' (Prog ι ρ) α} {g : ε' → ε} (hg : ∀ e, Φ (g e)) :
    Answers good (Raises Φ) (Prog.mapErr g p).run := by
  refine bind (any p.run) fun r _ => ?_
  cases r with
  | ok a => exact .ok a
  | error e => exact .error (hg e)

end Answers

/-! ## Calls that a result needs -/

/-- A result in `R` comes only after a call that is answered as `E` says. -/
def Needs (E : (c : ι) → ρ c → Prop) (R : α → Prop) : Prog ι ρ α → Prop
  | ret a => ¬R a
  | call c k => ∀ r, E c r ∨ Needs E R (k r)

namespace Needs

variable {E : (c : ι) → ρ c → Prop} {R : α → Prop} {R' : β → Prop}

theorem perform {c : ι} {R : ρ c → Prop} (h : ∀ r, R r → E c r) : Needs E R (Prog.perform c) :=
  fun r => (Classical.em (R r)).imp_left (h r)

/-- What is known of all results need not be looked for. -/
theorem answers {P R₁ : α → Prop} {p : Prog ι ρ α} (hp : Needs E R p)
    (ha : Answers (fun _ _ => True) P p) (h : ∀ a, P a → R₁ a → R a) : Needs E R₁ p := by
  induction p with
  | ret a => exact fun hR => hp (h a ha hR)
  | call c k ih => exact fun r => (hp r).imp_right fun hk => ih r hk (ha r trivial)

theorem bind {p : Prog ι ρ α} {f : α → Prog ι ρ β} (hp : Needs E R p)
    (hf : ∀ a, ¬R a → Needs E R' (f a)) : Needs E R' (p >>= f) := by
  induction p with
  | ret a => exact hf a hp
  | call c k ih => exact fun r => (hp r).imp_right fun hk => ih r hk

/-- The call is not among those of the first part. -/
theorem rest {p : Prog ι ρ α} {f : α → Prog ι ρ β} (hf : ∀ a, Needs E R' (f a)) :
    Needs E R' (p >>= f) := by
  induction p with
  | ret a => exact hf a
  | call c k ih => exact fun r => .inr (ih r)

theorem liftE {p : Prog ι ρ α} {f : α → ExceptT ε (Prog ι ρ) β} (hp : Needs E R p)
    (hf : ∀ a, ¬R a → Needs E IsOk (f a).run) :
    Needs E IsOk ((liftM p : ExceptT ε (Prog ι ρ) α) >>= f).run := by
  refine bind (R := fun r : Except ε α => ∃ a, r = .ok a ∧ R a) (f := ExceptT.bindCont f)
    (bind (f := fun a => Prog.ret (Except.ok a)) hp fun a ha => ?_) fun r hr => ?_
  · rintro ⟨b, hb, hR⟩
    cases hb
    exact ha hR
  · cases r with
    | ok a => exact hf a fun ha => hr ⟨a, rfl, ha⟩
    | error e => exact not_isOk_error e

theorem mapErr {p : ExceptT ε (Prog ι ρ) α} {g : ε → ε'} (hp : Needs E IsOk p.run) :
    Needs E IsOk (Prog.mapErr g p).run := by
  refine bind hp fun r hr => ?_
  cases r with
  | ok a => exact absurd ⟨a, rfl⟩ hr
  | error e => exact not_isOk_error (g e)

theorem onError {p : ExceptT ε (Prog ι ρ) α} {cleanup : Prog ι ρ Unit}
    (hp : Needs E IsOk p.run) : Needs E IsOk (Prog.onError cleanup p).run := by
  refine bind hp fun r hr => ?_
  cases r with
  | ok a => exact absurd ⟨a, rfl⟩ hr
  | error e => exact rest fun _ => not_isOk_error e

end Needs

end Prog

/-- What is known of the result when, under an assertion `K`, every call is answered well. -/
theorem Sat.answers {σ ι α : Type} {ρ : ι → Type} {T : Thread σ ι ρ} {Q : α → σ → Prop}
    {good : (c : ι) → ρ c → Prop} {P : α → Prop} {p : Prog ι ρ α} {s : σ} (K : σ → Prop)
    (hst : ∀ c, T.Stable (some c) K)
    (hK : ∀ s c r s', K s → T.exec s c r s' → good c r ∧ K s') (hp : p.Answers good P)
    (hs : K s) (h : Sat T Q p s) : Sat T (fun a s => Q a s ∧ P a) p s := by
  induction p generalizing s with
  | ret a => exact ⟨h, hp⟩
  | call c k ih =>
    intro s₁ hr r s₂ he
    obtain ⟨hg, hk⟩ := h s₁ hr r s₂ he
    obtain ⟨hgood, hs₂⟩ := hK _ _ _ _ ((hst c).star hs hr) he
    exact ⟨hg, ih r (hp r hgood) hs₂ hk⟩

/-! ## Calls and result together -/

/-- The setting in which a program is judged by its calls and its result: as long as the answers are
good, every call has to meet `P`. -/
def Thread.judged {ι : Type} {ρ : ι → Type} (good : (c : ι) → ρ c → Prop) (P : ι → Prop) :
    Thread Unit ι ρ where
  exec := fun _ c r _ => good c r
  rely := fun _ _ _ => True
  guar := fun c _ _ => P c

theorem Sat.judged_perform {ι : Type} {ρ : ι → Type} {good : (c : ι) → ρ c → Prop} {P : ι → Prop}
    {c : ι} {Q : ρ c → Prop} {s : Unit} (hc : P c) (h : ∀ r, good c r → Q r) :
    Sat (Thread.judged good P) (fun r _ => Q r) (Prog.perform c) s :=
  fun _ _ r _ he => ⟨hc, h r he⟩

/-- Calls and result may be judged apart. -/
theorem Sat.judged_of {ι α : Type} {ρ : ι → Type} {good : (c : ι) → ρ c → Prop} {P : ι → Prop}
    {Q : α → Prop} {p : Prog ι ρ α} (hp : p.Calls P) (h : p.Answers good Q) {s : Unit} :
    Sat (Thread.judged good P) (fun a _ => Q a) p s := by
  induction p with
  | ret a => exact h
  | call c k ih => exact fun _ _ r _ he => ⟨hp.1, ih r (hp.2 r) (h r he)⟩

/-- A program whose calls and result have been judged, where such calls are answered well and keep
an assertion. -/
theorem Sat.of_judged {σ ι α : Type} {ρ : ι → Type} {T : Thread σ ι ρ}
    {good : (c : ι) → ρ c → Prop} {P : ι → Prop} {Q : α → Prop} {p : Prog ι ρ α} {s : σ}
    {K : σ → Prop} (hst : ∀ c, T.Stable (some c) K)
    (hgood : ∀ s c r s', T.exec s c r s' → good c r)
    (hK : ∀ c s r s', P c → K s → T.exec s c r s' → T.guar c s s' ∧ K s')
    (h : Sat (Thread.judged good P) (fun a _ => Q a) p ()) (hs : K s) :
    Sat T (fun a s => Q a ∧ K s) p s := by
  induction p generalizing s with
  | ret a => exact ⟨h, hs⟩
  | call c k ih =>
    intro s₁ hr r s₂ he
    obtain ⟨hc, hk⟩ := h () .refl r () (hgood _ _ _ _ he)
    obtain ⟨hg, hs₂⟩ := hK c s₁ r s₂ hc ((hst c).star hs hr) he
    exact ⟨hg, ih r hk hs₂⟩

/-! ## Calls that depend on the result

What a program has done by the time it returns a particular result: the state is whether all calls
so far, with their answers, meet `G`. -/

def Thread.noting {ι : Type} {ρ : ι → Type} (good G : (c : ι) → ρ c → Prop) : Thread Prop ι ρ where
  exec := fun b c r b' => good c r ∧ b' = (G c r ∧ b)
  rely := fun _ _ _ => False
  guar := fun _ _ _ => True

section
variable {ι α : Type} {ρ : ι → Type} {good G : (c : ι) → ρ c → Prop}

theorem Thread.noting_stable {c : Option ι} {K : Prop → Prop} : (noting good G).Stable c K :=
  fun _ _ _ h => h.elim

theorem Sat.noting_trivial {p : Prog ι ρ α} {b : Prop} :
    Sat (Thread.noting good G) (fun _ _ => True) p b := by
  induction p generalizing b with
  | ret a => trivial
  | call c k ih => exact fun _ _ r _ _ => ⟨trivial, ih r⟩

/-- A program all of whose calls are noted. -/
theorem Sat.noted {P : ι → Prop} {Q : α → Prop} {p : Prog ι ρ α} {b : Prop}
    (hG : ∀ c r, P c → good c r → G c r)
    (h : Sat (Thread.judged good P) (fun a _ => Q a) p ()) (hb : b) :
    Sat (Thread.noting good G) (fun a b => Q a ∧ b) p b := by
  induction p generalizing b with
  | ret a => exact ⟨h, hb⟩
  | call c k ih =>
    refine Sat.call (fun b' => b') Thread.noting_stable hb fun b₁ r b₂ hb₁ he => ?_
    obtain ⟨hc, hk⟩ := h () .refl r () he.1
    refine ⟨trivial, ih r hk ?_⟩
    rw [he.2]
    exact ⟨hG c r hc he.1, hb₁⟩

theorem Sat.noted_calls {P : ι → Prop} {p : Prog ι ρ α} {b : Prop}
    (hG : ∀ c r, P c → good c r → G c r) (hp : p.Calls P) (hb : b) :
    Sat (Thread.noting good G) (fun _ b => b) p b := by
  refine (Sat.noted hG (Q := fun _ => True) ?_ hb).mono fun _ _ h => h.2
  exact hp.sat (fun _ _ _ _ _ _ => trivial) (fun c _ _ _ hc _ _ => ⟨hc, trivial⟩) trivial

theorem Sat.noting_answers {P : α → Prop} {p : Prog ι ρ α} {b : Prop} (hp : p.Answers good P) :
    Sat (Thread.noting good G) (fun a _ => P a) p b := by
  induction p generalizing b with
  | ret a => exact hp
  | call c k ih =>
    refine Sat.call (fun _ => True) Thread.noting_stable trivial fun b₁ r b₂ _ he => ?_
    exact ⟨trivial, ih r (hp r he.1)⟩

end

end Conc
