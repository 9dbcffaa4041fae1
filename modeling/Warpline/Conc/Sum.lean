import Warpline.Conc.Calls

/-!
# Programs over two kinds of calls

A program over the calls `ι` runs among the calls `ι ⊕ κ` (`Prog.inl`), and what is proved of it
in its own setting holds there (`Sat.of_inl`; `Sat.inl_proj` where its setting sees a part of the
state only). `Prog.inr` is the same for the other kind.
-/

set_option autoImplicit false

namespace Conc

variable {σ ι κ : Type} {ρ : ι → Type} {ρ' : κ → Type} {α β ε : Type}

def Prog.inl : Prog ι ρ α → Prog (ι ⊕ κ) (Sum.elim ρ ρ') α
  | .ret a => .ret a
  | .call c k => .call (.inl c) fun r => (k r).inl

/-- The calls of the first kind, in a setting for both. -/
def Thread.inl (T : Thread σ (ι ⊕ κ) (Sum.elim ρ ρ')) : Thread σ ι ρ where
  exec := fun s c r s' => T.exec s (.inl c) r s'
  rely := fun c => T.rely (c.map .inl)
  guar := fun c => T.guar (.inl c)

theorem Sat.of_inl {T : Thread σ (ι ⊕ κ) (Sum.elim ρ ρ')} {Q : α → σ → Prop} {p : Prog ι ρ α} {s : σ}
    (h : Sat T.inl Q p s) : Sat T Q (p.inl) s := by
  induction p generalizing s with
  | ret a => exact h
  | call c k ih =>
    intro s₁ hr r s₂ he
    obtain ⟨hg, hk⟩ := h s₁ hr r s₂ he
    exact ⟨hg, ih r hk⟩

/-- Answers to the calls of the first kind. -/
def onLeft (good : (c : ι) → ρ c → Prop) : (c : ι ⊕ κ) → Sum.elim ρ ρ' c → Prop
  | .inl c, r => good c r
  | .inr _, _ => True

theorem Sat.judged_inl {good : (c : ι) → ρ c → Prop} {P : ι → Prop} {Q : α → Unit → Prop}
    {p : Prog ι ρ α} {s : Unit} (h : Sat (Thread.judged good P) Q p s) :
    Sat (Thread.judged (onLeft good) (Sum.elim P fun _ => True)) Q
      (p.inl : Prog (ι ⊕ κ) (Sum.elim ρ ρ') α) s :=
  Sat.of_inl h

theorem Prog.Calls.inl {P : ι ⊕ κ → Prop} (h : ∀ c, P (.inl c)) (p : Prog ι ρ α) :
    (p.inl : Prog (ι ⊕ κ) (Sum.elim ρ ρ') α).Calls P := by
  induction p with
  | ret a => trivial
  | call c k ih => exact ⟨h c, ih⟩

theorem Prog.Answers.inl {good : (c : ι ⊕ κ) → Sum.elim ρ ρ' c → Prop} {P : α → Prop}
    {p : Prog ι ρ α} (h : p.Answers (fun c => good (.inl c)) P) :
    (p.inl : Prog (ι ⊕ κ) (Sum.elim ρ ρ') α).Answers good P := by
  induction p with
  | ret a => exact h
  | call c k ih => exact fun r hr => ih r (h r hr)

theorem Sat.inl_proj {σ' : Type} {T : Thread σ ι ρ} {T' : Thread σ' (ι ⊕ κ) (Sum.elim ρ ρ')}
    (f : σ' → σ) {Q : α → σ → Prop} {p : Prog ι ρ α} {s : σ'} (h : Sat T Q p (f s))
    (he : ∀ s c r s', T'.exec s (.inl c) r s' → T.exec (f s) c r (f s'))
    (hr : ∀ c s s', T'.rely (some (.inl c)) s s' → T.rely (some c) (f s) (f s'))
    (hg : ∀ s c r s', T'.exec s (.inl c) r s' → T.guar c (f s) (f s') → T'.guar (.inl c) s s') :
    Sat T' (fun a s => Q a (f s)) p.inl s := by
  induction p generalizing s with
  | ret a => exact h
  | call c k ih =>
    intro s₁ hs r s₂ hx
    obtain ⟨hgc, hk⟩ := h (f s₁) (hs.lift f (hr c)) r (f s₂) (he _ _ _ _ hx)
    exact ⟨hg _ _ _ _ hx hgc, ih r hk⟩

/-! ## The second kind -/

def Prog.inr : Prog κ ρ' α → Prog (ι ⊕ κ) (Sum.elim ρ ρ') α
  | .ret a => .ret a
  | .call c k => .call (.inr c) fun r => (k r).inr

def Thread.inr (T : Thread σ (ι ⊕ κ) (Sum.elim ρ ρ')) : Thread σ κ ρ' where
  exec := fun s c r s' => T.exec s (.inr c) r s'
  rely := fun c => T.rely (c.map .inr)
  guar := fun c => T.guar (.inr c)

theorem Sat.of_inr {T : Thread σ (ι ⊕ κ) (Sum.elim ρ ρ')} {Q : α → σ → Prop} {p : Prog κ ρ' α}
    {s : σ} (h : Sat T.inr Q p s) : Sat T Q (p.inr) s := by
  induction p generalizing s with
  | ret a => exact h
  | call c k ih =>
    intro s₁ hr r s₂ he
    obtain ⟨hg, hk⟩ := h s₁ hr r s₂ he
    exact ⟨hg, ih r hk⟩

theorem Prog.Calls.inr {P : ι ⊕ κ → Prop} {p : Prog κ ρ' α} (h : p.Calls fun c => P (.inr c)) :
    (p.inr : Prog (ι ⊕ κ) (Sum.elim ρ ρ') α).Calls P := by
  induction p with
  | ret a => trivial
  | call c k ih => exact ⟨h.1, fun r => ih r (h.2 r)⟩

theorem Prog.Needs.inr {E : (c : ι ⊕ κ) → Sum.elim ρ ρ' c → Prop} {R : α → Prop}
    {p : Prog κ ρ' α} (h : p.Needs (fun c => E (.inr c)) R) :
    (p.inr : Prog (ι ⊕ κ) (Sum.elim ρ ρ') α).Needs E R := by
  induction p with
  | ret a => exact h
  | call c k ih => exact fun r => (h r).imp_right (ih r)

theorem Prog.Answers.inr {good : (c : ι ⊕ κ) → Sum.elim ρ ρ' c → Prop} {P : α → Prop}
    {p : Prog κ ρ' α} (h : p.Answers (fun c => good (.inr c)) P) :
    (p.inr : Prog (ι ⊕ κ) (Sum.elim ρ ρ') α).Answers good P := by
  induction p with
  | ret a => exact h
  | call c k ih => exact fun r hr => ih r (h r hr)

end Conc
