import Warpline.Conc.Trace

/-!
# Who holds what

A resource that threads ask for and give back. `ev` says what a call means for the caller's
standing with the resource; `standing ev` is what a thread's own calls have come to, and
`holders ev` are the threads that hold the resource after a history, each once.
-/

set_option autoImplicit false

namespace Conc

inductive Grant
  | unasked
  | refused
  | held
  | returned
  deriving DecidableEq, Repr

variable {τ ι : Type} {ρ : ι → Type} (ev : (c : ι) → ρ c → Option Grant)

def standing (h : List ((c : ι) × ρ c)) : Grant := (latest ev h).getD .unasked

@[simp] theorem standing_nil : standing ev [] = .unasked := rfl

@[simp] theorem standing_cons {c : ι} {r : ρ c} {h : List ((c : ι) × ρ c)} :
    standing ev (⟨c, r⟩ :: h) = (ev c r).getD (standing ev h) := by
  unfold standing
  rw [latest_cons]
  cases ev c r <;> rfl

/-- What may happen to a standing: a grant or a refusal comes once, a return only while held. -/
def Grant.Follows : Grant → Option Grant → Prop
  | _, none => True
  | g, some .held | g, some .refused => g = .unasked
  | g, some .returned => g = .held
  | _, some .unasked => False

def Orderly : List ((c : ι) × ρ c) → Prop
  | [] => True
  | ⟨c, r⟩ :: h => Orderly h ∧ (standing ev h).Follows (ev c r)

section
variable {ev} {h : List ((c : ι) × ρ c)}

/-- What came last. -/
theorem standing_ne_unasked (hs : standing ev h ≠ .unasked) : ∃ l₁ c r l₂,
    h = l₁ ++ ⟨c, r⟩ :: l₂ ∧ ev c r = some (standing ev h) := by
  induction h with
  | nil => exact absurd rfl hs
  | cons q h ih =>
    obtain ⟨c, r⟩ := q
    rw [standing_cons] at hs ⊢
    cases he : ev c r with
    | none =>
      rw [he] at hs
      obtain ⟨l₁, c', r', l₂, heq, he'⟩ := ih hs
      exact ⟨⟨c, r⟩ :: l₁, c', r', l₂, by rw [heq, List.cons_append], he'⟩
    | some g => exact ⟨[], c, r, h, rfl, he⟩

/-- The call an orderly thread was answered at. -/
theorem Orderly.answered (ho : Orderly ev h) (hs : standing ev h ≠ .unasked) : ∃ l₁ c r l₂,
    h = l₁ ++ ⟨c, r⟩ :: l₂ ∧ (ev c r = some .refused ∧ standing ev h = .refused ∨
      ev c r = some .held ∧ standing ev h ≠ .refused) := by
  induction h with
  | nil => exact absurd rfl hs
  | cons q h ih =>
    obtain ⟨c, r⟩ := q
    obtain ⟨ho, hf⟩ := ho
    -- the call is an earlier one
    have hold (hn : standing ev h ≠ .unasked)
        (hsame : standing ev (⟨c, r⟩ :: h) = .refused ↔ standing ev h = .refused) :
        ∃ l₁ c' r' l₂, ⟨c, r⟩ :: h = l₁ ++ ⟨c', r'⟩ :: l₂ ∧
          (ev c' r' = some .refused ∧ standing ev (⟨c, r⟩ :: h) = .refused ∨
            ev c' r' = some .held ∧ standing ev (⟨c, r⟩ :: h) ≠ .refused) := by
      obtain ⟨l₁, c', r', l₂, heq, ha⟩ := ih ho hn
      refine ⟨⟨c, r⟩ :: l₁, c', r', l₂, by rw [heq, List.cons_append], ?_⟩
      rw [Ne, hsame]
      exact ha
    rw [standing_cons] at hs hold ⊢
    cases he : ev c r with
    | none =>
      simp only [he, Option.getD_none] at hs hold ⊢
      exact hold hs trivial
    | some g =>
      simp only [he, Option.getD_some] at hs hf hold ⊢
      cases g with
      | unasked => exact hf.elim
      | refused => exact ⟨[], c, r, h, rfl, .inl ⟨he, rfl⟩⟩
      | held => exact ⟨[], c, r, h, rfl, .inr ⟨he, by decide⟩⟩
      | returned =>
        have hheld : standing ev h = .held := hf
        rw [hheld] at hold
        exact hold (by decide) (by decide)

/-- A thread that has not asked had not asked before. -/
theorem Orderly.unasked {l₁ l₂ : List ((c : ι) × ρ c)} (ho : Orderly ev (l₁ ++ l₂))
    (hs : standing ev (l₁ ++ l₂) = .unasked) : standing ev l₂ = .unasked := by
  induction l₁ with
  | nil => exact hs
  | cons q l₁ ih =>
    obtain ⟨c, r⟩ := q
    obtain ⟨ho, hf⟩ := ho
    rw [List.cons_append, standing_cons] at hs
    cases he : ev c r with
    | none =>
      rw [he] at hs
      exact ih ho hs
    | some g =>
      rw [he] at hs hf
      have hg : g = .unasked := hs
      subst hg
      exact hf.elim

end

variable [DecidableEq τ]

def holders : Trace τ ι ρ → List τ
  | [] => []
  | (t, ⟨c, r⟩) :: tr =>
    match ev c r with
    | some .held => (holders tr).insert t
    | some _ => (holders tr).erase t
    | none => holders tr

variable {ev} {t : τ} {c : ι} {r : ρ c} {tr : Trace τ ι ρ}

@[simp] theorem holders_nil : holders ev ([] : Trace τ ι ρ) = [] := rfl

theorem nodup_holders (tr : Trace τ ι ρ) : (holders ev tr).Nodup := by
  induction tr with
  | nil => exact List.nodup_nil
  | cons q tr ih =>
    unfold holders
    split
    · exact ih.insert
    · exact ih.erase _
    · exact ih

/-- The holders are the threads whose own calls have come to holding it. -/
theorem mem_holders {u : τ} : u ∈ holders ev tr ↔ standing ev (tr.of u) = .held := by
  induction tr with
  | nil => simp
  | cons q tr ih =>
    obtain ⟨t, c, r⟩ := q
    have hof : standing ev (Trace.of u ((t, ⟨c, r⟩) :: tr)) =
        if t = u then (ev c r).getD (standing ev (Trace.of u tr)) else standing ev (Trace.of u tr) := by
      split
      · rename_i h
        subst h
        rw [Trace.of_cons_self, standing_cons]
      · rename_i h
        rw [Trace.of_cons_ne h]
    rw [hof, holders]
    split
    · rename_i he
      rw [List.mem_insert_iff, ih, he, Option.getD_some]
      by_cases h : t = u
      · simp [h]
      · simp [h, Ne.symm h]
    · rename_i g hg he
      rw [(nodup_holders tr).mem_erase_iff, ih, he, Option.getD_some]
      by_cases h : t = u
      · simp only [h, ne_eq, not_true_eq_false, false_and, if_true, false_iff]
        rintro rfl
        exact hg rfl
      · simp [h, Ne.symm h]
    · rename_i he
      rw [ih, he, Option.getD_none]
      split <;> rfl

/-- A grant to a thread that does not hold the resource. -/
theorem holders_held (he : ev c r = some .held) (ht : standing ev (tr.of t) ≠ .held) :
    holders ev ((t, ⟨c, r⟩) :: tr) = t :: holders ev tr := by
  rw [holders, he]
  exact List.insert_of_not_mem (mt mem_holders.1 ht)

/-- A return by a thread that holds it. -/
theorem holders_returned (he : ev c r = some .returned) (ht : standing ev (tr.of t) = .held) :
    (holders ev tr).Perm (t :: holders ev ((t, ⟨c, r⟩) :: tr)) := by
  rw [holders, he]
  exact List.perm_cons_erase (mem_holders.2 ht)

/-- A refusal of a thread that does not hold it. -/
theorem holders_refused (he : ev c r = some .refused) (ht : standing ev (tr.of t) ≠ .held) :
    holders ev ((t, ⟨c, r⟩) :: tr) = holders ev tr := by
  rw [holders, he]
  exact List.erase_of_not_mem (mt mem_holders.1 ht)

theorem holders_none (he : ev c r = none) : holders ev ((t, ⟨c, r⟩) :: tr) = holders ev tr := by
  rw [holders, he]

/-- When no thread's calls have come to holding it, nobody holds it. -/
theorem holders_eq_nil (h : ∀ t, standing ev (tr.of t) ≠ .held) : holders ev tr = [] :=
  List.eq_nil_iff_forall_not_mem.2 fun t ht => h t (mem_holders.1 ht)

end Conc
