import Warpline.Conc.Calls
import Warpline.Conc.System

/-!
# Histories

`System.traced` runs a system with a record of the calls made so far: by whom, and what each was
answered, newest first. Programs do not see the record; it serves to say what has happened.
-/

set_option autoImplicit false

namespace Conc

variable {τ σ ι β κ : Type} {ρ : ι → Type}

abbrev Trace (τ ι : Type) (ρ : ι → Type) := List (τ × (c : ι) × ρ c)

structure Traced (τ σ ι : Type) (ρ : ι → Type) where
  state : σ
  trace : Trace τ ι ρ

def System.traced (S : System τ σ ι ρ) : System τ (Traced τ σ ι ρ) ι ρ where
  exec := fun pend t s c r s' =>
    S.exec pend t s.state c r s'.state ∧ s'.trace = (t, ⟨c, r⟩) :: s.trace
  env := fun pend s s' => S.env pend s.state s'.state ∧ s'.trace = s.trace

/-- Schedules of a traced system. -/
def tracing (ex : κ → (τ → Option ι) → τ → σ → (c : ι) → Option (ρ c × σ)) :
    κ → (τ → Option ι) → τ → Traced τ σ ι ρ → (c : ι) → Option (ρ c × Traced τ σ ι ρ) :=
  fun x pend t s c =>
    (ex x pend t s.state c).map fun q => (q.1, ⟨q.2, (t, ⟨c, q.1⟩) :: s.trace⟩)

theorem tracing_sound {ex : κ → (τ → Option ι) → τ → σ → (c : ι) → Option (ρ c × σ)}
    {S : System τ σ ι ρ}
    (hS : ∀ x pend t s c r s', ex x pend t s c = some (r, s') → S.exec pend t s c r s')
    (x : κ) (pend : τ → Option ι) (t : τ) (s : Traced τ σ ι ρ) (c : ι) (r : ρ c)
    (s' : Traced τ σ ι ρ) (h : tracing ex x pend t s c = some (r, s')) :
    S.traced.exec pend t s c r s' := by
  simp only [tracing, Option.map_eq_some_iff] at h
  obtain ⟨⟨r₁, s₁⟩, hx, heq⟩ := h
  cases heq
  exact ⟨hS _ _ _ _ _ _ _ hx, rfl⟩

namespace Trace

/-- The calls of one thread. -/
def of [DecidableEq τ] (me : τ) (tr : Trace τ ι ρ) : List ((c : ι) × ρ c) :=
  tr.filterMap fun e => if e.1 = me then some e.2 else none

variable [DecidableEq τ] {me t : τ} {q : (c : ι) × ρ c} {tr : Trace τ ι ρ}

@[simp] theorem of_nil : of me ([] : Trace τ ι ρ) = [] := rfl

@[simp] theorem of_cons_self : of me ((me, q) :: tr) = q :: of me tr := by simp [of]

theorem of_cons_ne (h : t ≠ me) : of me ((t, q) :: tr) = of me tr := by simp [of, h]

theorem mem_of : q ∈ of me tr ↔ (me, q) ∈ tr := by
  simp only [of, List.mem_filterMap, Option.ite_none_right_eq_some, Option.some.injEq]
  constructor
  · rintro ⟨e, he, rfl, rfl⟩
    exact he
  · exact fun h => ⟨_, h, rfl, rfl⟩

/-- One of a thread's calls, and the history it was made in. -/
theorem of_split {l₁ l₂ : List ((c : ι) × ρ c)} (h : of me tr = l₁ ++ q :: l₂) :
    ∃ before, (me, q) :: before <:+ tr ∧ of me before = l₂ := by
  induction tr generalizing l₁ with
  | nil => simp at h
  | cons e tr ih =>
    obtain ⟨t, q'⟩ := e
    have hold : ∀ l₁, of me tr = l₁ ++ q :: l₂ →
        ∃ before, (me, q) :: before <:+ (t, q') :: tr ∧ of me before = l₂ := by
      intro l₁ h
      obtain ⟨before, hb, hof⟩ := ih h
      exact ⟨before, hb.trans (List.suffix_cons _ _), hof⟩
    by_cases ht : t = me
    · subst ht
      rw [of_cons_self] at h
      cases l₁ with
      | nil =>
        obtain ⟨rfl, hof⟩ := List.cons.inj h
        exact ⟨tr, List.suffix_rfl, hof⟩
      | cons a l₁ => exact hold l₁ (List.cons.inj h).2
    · rw [of_cons_ne ht] at h
      exact hold l₁ h

end Trace

/-- **A thread judged by its own calls**: what is proved of its program over a state that its own
calls determine holds in every run. -/
theorem Reach.own {σ' : Type} [DecidableEq τ] {S : System τ σ ι ρ} {α : τ → Type}
    {C C' : Config τ (Traced τ σ ι ρ) ι ρ α} {t : τ} {T : Thread σ' ι ρ} {Q : α t → σ' → Prop}
    (hr : Reach S.traced C C') (view : List ((c : ι) × ρ c) → σ')
    (hx : ∀ pend s c r s' h, S.exec pend t s c r s' → T.exec (view h) c r (view (⟨c, r⟩ :: h)))
    (h : Sat T Q (C.prog t) (view (C.shared.trace.of t))) :
    Sat T Q (C'.prog t) (view (C'.shared.trace.of t)) := by
  induction hr with
  | refl => exact h
  | tail _ hs ih =>
    cases hs with
    | @call u c k r s' hp he =>
      by_cases hu : u = t
      · subst hu
        rw [hp] at ih
        simp only [Function.update_self, he.2, Trace.of_cons_self]
        exact (ih _ .refl r _ (hx _ _ c r _ _ he.1)).2
      · simp only [Function.update_of_ne (Ne.symm hu), he.2, Trace.of_cons_ne hu]
        exact ih
    | env he =>
      simp only [he.2]
      exact ih

/-- **A thread that notes its calls**: what they are by the time it returns. -/
theorem Reach.noted [DecidableEq τ] {S : System τ σ ι ρ} {α : τ → Type}
    {C C' : Config τ (Traced τ σ ι ρ) ι ρ α} {t : τ} {good G : (c : ι) → ρ c → Prop}
    {Q : α t → Prop → Prop} (hr : Reach S.traced C C') (hC : C.shared.trace = [])
    (hS : ∀ pend s c r s', S.exec pend t s c r s' → good c r)
    (h : Sat (Thread.noting good G) Q (C.prog t) True) {a : α t} (ha : C'.prog t = .ret a) :
    Q a (∀ q ∈ C'.shared.trace.of t, G q.1 q.2) := by
  have hsat := hr.own (T := Thread.noting good G) (Q := Q) (fun l => ∀ q ∈ l, G q.1 q.2)
    (fun pend s c r s' l hx => ⟨hS _ _ _ _ _ hx, by rw [List.forall_mem_cons]⟩)
    (by simpa [hC] using h)
  rwa [ha] at hsat

/-- **An answer that rules a result out**: `t` returns a result in `R` only if all its calls are as
`G` says, so it returns none once one of them was not. -/
theorem Reach.ruled_out [DecidableEq τ] {S : System τ σ ι ρ} {α : τ → Type}
    {C C₁ C₂ : Config τ σ ι ρ α} {t : τ} {G : (c : ι) → ρ c → Prop} {R : α t → Prop}
    (h : Sat (Thread.noting (fun _ _ => True) G) (fun a b => R a → b) (C.prog t) True)
    (hr : Reach S C C₁) {c : ι} {k : ρ c → Prog ι ρ (α t)} (hp : C₁.prog t = .call c k) {r : ρ c}
    (hG : ¬G c r) {s : σ} (hr' : Reach S ⟨s, Function.update C₁.prog t (k r)⟩ C₂) {a : α t}
    (ha : C₂.prog t = .ret a) : ¬R a := by
  have hcall : ∀ {b : Prop} {c : ι} {k : ρ c → Prog ι ρ (α t)} (r : ρ c),
      Sat (Thread.noting (fun _ _ => True) G) (fun a b => R a → b) (.call c k) b →
        Sat (Thread.noting (fun _ _ => True) G) (fun a b => R a → b) (k r) (G c r ∧ b) :=
    fun r h => (h _ .refl r _ ⟨trivial, rfl⟩).2
  obtain ⟨b, hb⟩ := hr.program (P := fun p => ∃ b, Sat (Thread.noting (fun _ _ => True) G)
    (fun a b => R a → b) p b) (fun c k r ⟨_, h⟩ => ⟨_, hcall r h⟩) ⟨_, h⟩
  rw [hp] at hb
  obtain ⟨b', hb', hnot⟩ := hr'.program (P := fun p => ∃ b, Sat (Thread.noting (fun _ _ => True) G)
    (fun a b => R a → b) p b ∧ ¬b) (fun c k r ⟨_, h, hn⟩ => ⟨_, hcall r h, fun hb => hn hb.2⟩)
    ⟨G c r ∧ b, by simpa only [Function.update_self] using hcall r hb, fun h => hG h.1⟩
  rw [ha] at hb'
  exact fun hR => hnot (hb' hR)

/-- A program that has returned makes no call. -/
theorem Reach.of_ret [DecidableEq τ] {S : System τ σ ι ρ} {α : τ → Type}
    {C C' : Config τ (Traced τ σ ι ρ) ι ρ α} (hr : Reach S.traced C C') {t : τ} {a : α t}
    (h : C.prog t = .ret a) : C'.shared.trace.of t = C.shared.trace.of t := by
  induction hr with
  | refl => rfl
  | tail hr hs ih =>
    cases hs with
    | @call u c k r s' hp he =>
      have hu : u ≠ t := by
        rintro rfl
        cases (Reach.ret hr h).symm.trans hp
      rw [he.2, Trace.of_cons_ne hu, ih]
    | env he => rw [he.2, ih]

/-- **A thread judged by its calls**: in every run they are those its program may make, whatever else
happens to the shared state. -/
theorem Reach.judged [DecidableEq τ] {S : System τ σ ι ρ} {α : τ → Type}
    {C C' : Config τ (Traced τ σ ι ρ) ι ρ α} {G : (c : ι) → ρ c → Prop} {P : τ → ι → Prop}
    {Q : ∀ t, α t → Prop} (hr : Reach S.traced C C')
    (hS : ∀ pend t s c r s', S.exec pend t s c r s' → G c r)
    (h : ∀ t, Sat (Thread.judged G (P t)) (fun a _ => Q t a) (C.prog t) ()) :
    (∀ t, Sat (Thread.judged G (P t)) (fun a _ => Q t a) (C'.prog t) ()) ∧
      ∀ t c r, (t, ⟨c, r⟩) ∈ C'.shared.trace →
        (t, ⟨c, r⟩) ∈ C.shared.trace ∨ P t c ∧ G c r := by
  induction hr with
  | refl => exact ⟨h, fun _ _ _ => .inl⟩
  | tail _ hs ih =>
    obtain ⟨ih, hcalls⟩ := ih
    cases hs with
    | @call u c k r s' hp he =>
      have hgood := hS _ _ _ _ _ _ he.1
      have hu := ih u
      rw [hp] at hu
      obtain ⟨hc, hk⟩ := hu () .refl r () hgood
      refine ⟨fun t => ?_, fun t c' r' hm => ?_⟩
      · by_cases ht : t = u
        · subst ht
          simpa using hk
        · simpa [Function.update_of_ne ht] using ih t
      · simp only [he.2] at hm
        obtain heq | hm := List.mem_cons.1 hm
        · cases heq
          exact .inr ⟨hc, hgood⟩
        · exact hcalls t c' r' hm
    | env he =>
      refine ⟨ih, fun t c r hm => hcalls t c r ?_⟩
      rw [← he.2]
      exact hm

/-- A run of judged programs is a run in which only such calls are made. -/
theorem Reach.restrict_judged [DecidableEq τ] {S : System τ σ ι ρ} {α : τ → Type}
    {C C' : Config τ σ ι ρ α} {G : (c : ι) → ρ c → Prop} {P : τ → ι → Prop}
    (hr : Reach S C C') (hS : ∀ pend t s c r s', S.exec pend t s c r s' → G c r)
    (h : ∀ t, Sat (Thread.judged G (P t)) (fun _ _ => True) (C.prog t) ()) :
    Reach (S.restrict fun _ t _ c _ => P t c) C C' := by
  suffices hboth : (∀ t, Sat (Thread.judged G (P t)) (fun _ _ => True) (C'.prog t) ()) ∧
      Reach (S.restrict fun _ t _ c _ => P t c) C C' from hboth.2
  induction hr with
  | refl => exact ⟨h, .refl⟩
  | tail _ hs ih =>
    obtain ⟨ih, hrun⟩ := ih
    cases hs with
    | @call u c k r s' hp he =>
      have hu := ih u
      rw [hp] at hu
      obtain ⟨hc, hk⟩ := hu () .refl r () (hS _ _ _ _ _ _ he)
      refine ⟨fun t => ?_, hrun.tail (.call hp ⟨he, hc⟩)⟩
      by_cases ht : t = u
      · subst ht
        simpa using hk
      · simpa [Function.update_of_ne ht] using ih t
    | env he => exact ⟨ih, hrun.tail (.env he)⟩

/-! ## What a thread's calls say

`f` says something of some of the calls: `first f` is what it says of the oldest of these,
`latest f` of the newest. -/

variable (f : (c : ι) → ρ c → Option β)

def first : List ((c : ι) × ρ c) → Option β
  | [] => none
  | ⟨c, r⟩ :: tr => (first tr).or (f c r)

def latest : List ((c : ι) × ρ c) → Option β
  | [] => none
  | ⟨c, r⟩ :: tr => (f c r).or (latest tr)

variable {f}

@[simp] theorem first_nil : first f [] = none := rfl
@[simp] theorem latest_nil : latest f [] = none := rfl

@[simp] theorem first_cons {c : ι} {r : ρ c} {tr : List ((c : ι) × ρ c)} :
    first f (⟨c, r⟩ :: tr) = (first f tr).or (f c r) := rfl

@[simp] theorem latest_cons {c : ι} {r : ρ c} {tr : List ((c : ι) × ρ c)} :
    latest f (⟨c, r⟩ :: tr) = (f c r).or (latest f tr) := rfl

end Conc
