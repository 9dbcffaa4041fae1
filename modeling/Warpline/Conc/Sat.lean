import Warpline.Conc.Prog

/-!
# Rely-guarantee reasoning about one program

`Sat T Q p s`: started in `s`, the program `p` keeps its guarantee at every call it makes, and
when it returns `a` the state satisfies `Q a`, whatever the other programs do in between within
the rely. A `Thread` fixes the three relations: what a call may do (`exec`), what the others may
do while this program is about to make call `c` (`rely (some c)`) or has returned (`rely none`),
and what this program promises about its own calls (`guar`).

`Sat` is defined by recursion on the program, so each construct has one rule: `Sat.bind`,
`Sat.call`, the early-return rules (`Sat.bindE`, `Sat.mapErr`, `Sat.onError`) and the loop rule
(`Sat.foldlM`). `Conc/System.lean` composes several programs; `Sat.replay` reads a program that
runs alone.
-/

set_option autoImplicit false

namespace Conc

/-- The setting one program is proved in (module doc). -/
structure Thread (σ ι : Type) (ρ : ι → Type) where
  exec : σ → (c : ι) → ρ c → σ → Prop
  rely : Option ι → σ → σ → Prop
  guar : ι → σ → σ → Prop

variable {σ ι : Type} {ρ : ι → Type} {α β ε ε' : Type}

/-- Module doc. Between two calls the others take any number of steps. -/
def Sat (T : Thread σ ι ρ) (Q : α → σ → Prop) : Prog ι ρ α → σ → Prop
  | .ret a, s => Q a s
  | .call c k, s => ∀ s₁, Relation.ReflTransGen (T.rely (some c)) s s₁ →
      ∀ r s₂, T.exec s₁ c r s₂ → T.guar c s₁ s₂ ∧ Sat T Q (k r) s₂

/-- `P` survives what the others do while `c` is pending. -/
def Thread.Stable (T : Thread σ ι ρ) (c : Option ι) (P : σ → Prop) : Prop :=
  ∀ s s', P s → T.rely c s s' → P s'

theorem Thread.Stable.star {T : Thread σ ι ρ} {c : Option ι} {P : σ → Prop} (hP : T.Stable c P)
    {s s' : σ} (h : P s) (hr : Relation.ReflTransGen (T.rely c) s s') : P s' := by
  induction hr with
  | refl => exact h
  | tail _ h1 ih => exact hP _ _ ih h1

theorem Thread.Stable.and {T : Thread σ ι ρ} {c : Option ι} {P P' : σ → Prop}
    (h : T.Stable c P) (h' : T.Stable c P') : T.Stable c fun s => P s ∧ P' s :=
  fun s s' hp hr => ⟨h s s' hp.1 hr, h' s s' hp.2 hr⟩

namespace Sat

variable {T : Thread σ ι ρ}

theorem mono {Q Q' : α → σ → Prop} {p : Prog ι ρ α} {s : σ} (h : Sat T Q p s)
    (hq : ∀ a s, Q a s → Q' a s) : Sat T Q' p s := by
  induction p generalizing s with
  | ret a => exact hq a s h
  | call c k ih =>
    intro s₁ hr r s₂ he
    obtain ⟨hg, hk⟩ := h s₁ hr r s₂ he
    exact ⟨hg, ih r hk⟩

theorem and {Q Q' : α → σ → Prop} {p : Prog ι ρ α} {s : σ} (h : Sat T Q p s) (h' : Sat T Q' p s) :
    Sat T (fun a s => Q a s ∧ Q' a s) p s := by
  induction p generalizing s with
  | ret a => exact ⟨h, h'⟩
  | call c k ih =>
    intro s₁ hr r s₂ he
    obtain ⟨hg, hk⟩ := h s₁ hr r s₂ he
    exact ⟨hg, ih r hk (h' s₁ hr r s₂ he).2⟩

theorem bind {Q : β → σ → Prop} {p : Prog ι ρ α} {f : α → Prog ι ρ β} {s : σ}
    (h : Sat T (fun a s => Sat T Q (f a) s) p s) : Sat T Q (p >>= f) s := by
  induction p generalizing s with
  | ret a => exact h
  | call c k ih =>
    intro s₁ hr r s₂ he
    obtain ⟨hg, hk⟩ := h s₁ hr r s₂ he
    exact ⟨hg, ih r hk⟩

/-- One call under an assertion the others keep. -/
theorem call {Q : α → σ → Prop} {c : ι} {k : ρ c → Prog ι ρ α} {s : σ} (P : σ → Prop)
    (hst : T.Stable (some c) P) (hP : P s)
    (h : ∀ s₁ r s₂, P s₁ → T.exec s₁ c r s₂ → T.guar c s₁ s₂ ∧ Sat T Q (k r) s₂) :
    Sat T Q (.call c k) s :=
  fun s₁ hr r s₂ he => h s₁ r s₂ (hst.star hP hr) he

theorem perform {c : ι} {Q : ρ c → σ → Prop} {s : σ} (P : σ → Prop)
    (hst : T.Stable (some c) P) (hP : P s)
    (h : ∀ s₁ r s₂, P s₁ → T.exec s₁ c r s₂ → T.guar c s₁ s₂ ∧ Q r s₂) :
    Sat T Q (Prog.perform c) s :=
  call P hst hP h

/-- The other programs' steps keep `Sat` of a program that has not returned. -/
theorem rely {Q : α → σ → Prop} {p : Prog ι ρ α} {s s' : σ} (h : Sat T Q p s)
    (hq : ∀ a, T.Stable none (Q a)) (hr : T.rely p.pending s s') : Sat T Q p s' := by
  cases p with
  | ret a => exact hq a s s' h hr
  | call c k => exact fun s₁ hr₁ => h s₁ (.head hr hr₁)

/-- A setting with fewer behaviours and a weaker promise. -/
theorem weaken {T' : Thread σ ι ρ} {Q : α → σ → Prop} {p : Prog ι ρ α} {s : σ}
    (h : Sat T Q p s) (he : ∀ s c r s', T'.exec s c r s' → T.exec s c r s')
    (hr : ∀ c s s', T'.rely (some c) s s' → T.rely (some c) s s')
    (hg : ∀ s c r s', T'.exec s c r s' → T.guar c s s' → T'.guar c s s') : Sat T' Q p s := by
  induction p generalizing s with
  | ret a => exact h
  | call c k ih =>
    intro s₁ hs r s₂ hx
    obtain ⟨hgc, hk⟩ := h s₁ (Relation.ReflTransGen.mono (hr c) _ _ hs) r s₂ (he _ _ _ _ hx)
    exact ⟨hg _ _ _ _ hx hgc, ih r hk⟩

/-- A setting with fewer behaviours, under an assertion that it keeps. -/
theorem under {T' : Thread σ ι ρ} {Q : α → σ → Prop} {p : Prog ι ρ α} {s : σ} (K : σ → Prop)
    (h : Sat T Q p s) (hs : K s) (hst : ∀ c, T'.Stable (some c) K)
    (he : ∀ s c r s', K s → T'.exec s c r s' → T.exec s c r s')
    (hr : ∀ c s s', T'.rely (some c) s s' → T.rely (some c) s s')
    (hg : ∀ s c r s', K s → T'.exec s c r s' → T.guar c s s' → T'.guar c s s' ∧ K s') :
    Sat T' (fun a s => Q a s ∧ K s) p s := by
  induction p generalizing s with
  | ret a => exact ⟨h, hs⟩
  | call c k ih =>
    intro s₁ hs₁ r s₂ hx
    have hK : K s₁ := (hst c).star hs hs₁
    obtain ⟨hgc, hk⟩ := h s₁ (Relation.ReflTransGen.mono (hr c) _ _ hs₁) r s₂ (he _ _ _ _ hK hx)
    obtain ⟨hgc, hK₂⟩ := hg _ _ _ _ hK hx hgc
    exact ⟨hgc, ih r hk hK₂⟩

/-! ## Early return -/

theorem bindE {Q : Except ε β → σ → Prop} {p : ExceptT ε (Prog ι ρ) α}
    {f : α → ExceptT ε (Prog ι ρ) β} {s : σ}
    (h : Sat T (fun r s => match r with
      | .ok a => Sat T Q (f a).run s
      | .error e => Q (.error e) s) p.run s) : Sat T Q (p >>= f).run s := by
  refine bind (f := ExceptT.bindCont f) (h.mono fun r s hr => ?_)
  cases r with
  | ok a => exact hr
  | error e => exact hr

/-- A step that cannot fail. -/
theorem liftE {Q : Except ε β → σ → Prop} {p : Prog ι ρ α} {f : α → ExceptT ε (Prog ι ρ) β} {s : σ}
    (h : Sat T (fun a s => Sat T Q (f a).run s) p s) :
    Sat T Q ((liftM p : ExceptT ε (Prog ι ρ) α) >>= f).run s :=
  bindE (bind (f := fun a => Prog.ret (Except.ok a)) h)

theorem mapErr {Q : Except ε' α → σ → Prop} {p : ExceptT ε (Prog ι ρ) α} {g : ε → ε'} {s : σ}
    (h : Sat T (fun r => Q (r.mapError g)) p.run s) : Sat T Q (Prog.mapErr g p).run s :=
  bind h

theorem onError {Q : Except ε α → σ → Prop} {p : ExceptT ε (Prog ι ρ) α}
    {cleanup : Prog ι ρ Unit} {s : σ}
    (h : Sat T (fun r s => match r with
      | .ok a => Q (.ok a) s
      | .error e => Sat T (fun _ => Q (.error e)) cleanup s) p.run s) :
    Sat T Q (Prog.onError cleanup p).run s := by
  refine bind (h.mono fun r s hr => ?_)
  cases r with
  | ok a => exact hr
  | error e => exact bind hr

theorem guarded {Q : Except ε α → σ → Prop} {p : ExceptT ε (Prog ι ρ) α}
    {cleanup : Prog ι ρ Unit} {s : σ}
    (h : Sat T (fun r s => Sat T (fun _ => Q r) cleanup s) p.run s) :
    Sat T Q (Prog.guarded cleanup p).run s :=
  bind (h.mono fun _ _ hr => bind hr)

/-! ## Loops -/

/-- A loop over a list that never returns early: `I done b` is what holds after `done`. -/
theorem foldlM {f : β → α → Prog ι ρ β} (I : List α → β → σ → Prop) {l : List α} {b : β} {s : σ}
    (h0 : I [] b s)
    (hstep : ∀ done a rest b s, l = done ++ a :: rest → I done b s →
      Sat T (I (done ++ [a])) (f b a) s) :
    Sat T (I l) (l.foldlM f b) s := by
  suffices h : ∀ rest done b s, l = done ++ rest → I done b s →
      Sat T (I l) (rest.foldlM f b) s from h l [] b s rfl h0
  intro rest
  induction rest with
  | nil =>
    intro done b s hl hI
    simp only [List.append_nil] at hl
    subst hl
    exact hI
  | cons a rest ih =>
    intro done b s hl hI
    rw [List.foldlM_cons]
    exact bind ((hstep done a rest b s hl hI).mono fun b' s' hI' =>
      ih (done ++ [a]) b' s' (by simp [hl]) hI')

/-- A loop over a list with `?` in its body: an iteration that fails ends it. -/
theorem foldlE {f : β → α → ExceptT ε (Prog ι ρ) β} (I : List α → β → σ → Prop)
    {Q : Except ε β → σ → Prop} {l : List α} {b : β} {s : σ} (h0 : I [] b s)
    (hstep : ∀ done a rest b s, l = done ++ a :: rest → I done b s →
      Sat T (fun r s => match r with
        | .ok b' => I (done ++ [a]) b' s
        | .error e => Q (.error e) s) (f b a).run s)
    (hend : ∀ b s, I l b s → Q (.ok b) s) :
    Sat T Q (l.foldlM f b).run s := by
  suffices h : ∀ rest done b s, l = done ++ rest → I done b s →
      Sat T Q (rest.foldlM f b).run s from h l [] b s rfl h0
  intro rest
  induction rest with
  | nil =>
    intro done b s hl hI
    simp only [List.append_nil] at hl
    subst hl
    exact hend b s hI
  | cons a rest ih =>
    intro done b s hl hI
    rw [List.foldlM_cons]
    refine bindE ((hstep done a rest b s hl hI).mono fun r s' hr => ?_)
    cases r with
    | ok b' => exact ih (done ++ [a]) b' s' (by simp [hl]) hr
    | error e => exact hr

end Sat

/-! ## A program that runs alone -/

section
variable {κ : Type} (ex : κ → σ → (c : ι) → Option (ρ c × σ))

/-- `p`, run alone: the choices resolve, call by call, what the semantics leaves open. The choices
that are left over are returned too. -/
def Prog.replay : Prog ι ρ α → List κ → σ → Option (α × List κ × σ)
  | .ret a, xs, s => some (a, xs, s)
  | .call _ _, [], _ => none
  | .call c k, x :: xs, s => (ex x s c).bind fun q => (k q.1).replay xs q.2

/-- The setting of a program that runs alone under choices that meet `A`. -/
def Thread.alone (A : κ → Prop) : Thread σ ι ρ where
  exec := fun s c r s' => ∃ x, A x ∧ ex x s c = some (r, s')
  rely := fun _ _ _ => False
  guar := fun _ _ _ => True

variable {ex}

theorem Thread.alone_stable {A : κ → Prop} {c : Option ι} {P : σ → Prop} :
    (Thread.alone ex A).Stable c P := fun _ _ _ h => h.elim

theorem Prog.replay_bind (p : Prog ι ρ α) (f : α → Prog ι ρ β) (xs : List κ) (s : σ) :
    (p >>= f).replay ex xs s =
      (p.replay ex xs s).bind fun q => (f q.1).replay ex q.2.1 q.2.2 := by
  induction p generalizing xs s with
  | ret a => rfl
  | call c k ih =>
    cases xs with
    | nil => rfl
    | cons x xs =>
      simp only [Prog.call_bind, Prog.replay, Option.bind_assoc]
      exact Option.bind_congr fun q _ => ih q.1 xs q.2

/-- The two halves of a run that may end early. -/
theorem Prog.replay_bindE {p : ExceptT ε (Prog ι ρ) α} {f : α → ExceptT ε (Prog ι ρ) β}
    {xs ys : List κ} {s s' : σ} {r : Except ε β}
    (h : (p >>= f).run.replay ex xs s = some (r, ys, s')) :
    ∃ q zs s₁, p.run.replay ex xs s = some (q, zs, s₁) ∧
      match q with
      | .ok a => (f a).run.replay ex zs s₁ = some (r, ys, s')
      | .error e => r = .error e ∧ ys = zs ∧ s' = s₁ := by
  have hb : (p >>= f).run = p.run >>= ExceptT.bindCont f := rfl
  rw [hb, Prog.replay_bind] at h
  obtain ⟨⟨q, zs, s₁⟩, hp, hf⟩ := Option.bind_eq_some_iff.1 h
  refine ⟨q, zs, s₁, hp, ?_⟩
  cases q with
  | ok a => exact hf
  | error e =>
    cases hf
    exact ⟨rfl, rfl, rfl⟩

theorem Sat.replay {A : κ → Prop} {Q : α → σ → Prop} {p : Prog ι ρ α} {xs ys : List κ}
    {s s' : σ} {a : α} (h : Sat (Thread.alone ex A) Q p s) (hA : ∀ x ∈ xs, A x)
    (hr : p.replay ex xs s = some (a, ys, s')) : Q a s' := by
  induction p generalizing xs s with
  | ret b =>
    cases hr
    exact h
  | call c k ih =>
    cases xs with
    | nil => cases hr
    | cons x xs =>
      obtain ⟨q, hx, hk⟩ := Option.bind_eq_some_iff.1 hr
      exact ih q.1 (h _ .refl _ _ ⟨x, hA x (.head _), hx⟩).2
        (fun y hy => hA y (.tail _ hy)) hk

end

end Conc
