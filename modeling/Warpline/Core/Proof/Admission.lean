import Warpline.Core.Proof.InvokeSteps

/-!
# The memory admission is exact

`AdmissionInv`: the permits that are free and those of the calls admitted make up the budget, and
every call was admitted or turned away by what was free at that moment. `admission_exact` is the
result for every run.
-/

set_option autoImplicit false

namespace Warpline

open Conc

section
variable {W : Wasm} {τ : Type} [DecidableEq τ]

def capBytes : HostOp → Nat
  | .invoke _ _ _ limits => limits.memCapBytes.toNat
  | .stage _ => 0

/-- The cap rounded up to whole MiB. -/
def capMiB (op : HostOp) : Nat := (capBytes op + (2 ^ 20 - 1)) / 2 ^ 20

/-- The budget rounded down to whole MiB. -/
def budgetMiB (cfg : RuntimeConfig) : Nat := cfg.memoryBudgetBytes.toNat / 2 ^ 20

/-- The caps of the calls admitted after a history. -/
def admittedBytes (ops : τ → HostOp) (tr : Trace τ (HostCall W) HostRes) : Nat :=
  ((holders admissionEvent tr).map fun t => capBytes (ops t)).sum

def admittedMiB (ops : τ → HostOp) (tr : Trace τ (HostCall W) HostRes) : Nat :=
  ((holders admissionEvent tr).map fun t => capMiB (ops t)).sum

/-- A call has its slot, and has not asked for memory yet. -/
def AtAdmission (t : τ) (tr : Trace τ (HostCall W) HostRes) : Prop :=
  standing slotEvent (tr.of t) = .held ∧ standing admissionEvent (tr.of t) = .unasked

/-- The rounded cap fits in what is left of the budget. -/
def Fits (cfg : RuntimeConfig) (ops : τ → HostOp) (t : τ) (tr : Trace τ (HostCall W) HostRes) :
    Prop :=
  capMiB (ops t) ≤ budgetMiB cfg - admittedMiB ops tr

/-- A call that may come to the admission. -/
def LimitsOk : HostOp → Prop
  | .invoke _ _ _ limits => validateLimits limits = .ok ()
  | .stage _ => False

/-- The free budget and what is admitted add up to the budget, and every admission has been decided
by what was admitted then. -/
structure AdmissionInv (cfg : RuntimeConfig) (ops : τ → HostOp) (s : HostState W τ) : Prop where
  total : s.state.admission + admittedMiB ops s.trace = budgetMiB cfg
  valid : ∀ t, standing slotEvent (s.trace.of t) ≠ .unasked → LimitsOk (ops t)
  decided : ∀ t c r before, (t, ⟨c, r⟩) :: before <:+ s.trace → AtAdmission t before →
    (admissionEvent c r = some .held ↔ Fits cfg ops t before)

variable {cfg : RuntimeConfig} {meter : Bool} {threads : Nat} {ops : τ → HostOp} {s₀ : Host W τ}
  {C : HostConfig W τ} {t : τ}

/-! ## The weight -/

theorem toNat_MIB : MIB.toNat = 2 ^ 20 := rfl

theorem toNat_divCeil_MIB {a : Usize} (h : a.toNat < 2 ^ 63) :
    (divCeil a MIB).toNat = (a.toNat + (2 ^ 20 - 1)) / 2 ^ 20 := by
  have hzero : a % MIB = 0 ↔ a.toNat % 2 ^ 20 = 0 := by
    rw [← UInt64.toNat_inj, UInt64.toNat_mod, toNat_MIB]
    rfl
  unfold divCeil
  split
  · rename_i hd
    rw [hzero] at hd
    rw [UInt64.toNat_div, toNat_MIB]
    omega
  · rename_i hd
    rw [hzero] at hd
    rw [Usize.toNat_add_of_lt, UInt64.toNat_div, toNat_MIB]
    · simp only [UInt64.toNat_one]
      omega
    · rw [UInt64.toNat_div, toNat_MIB]
      simp only [UInt64.toNat_one]
      omega

theorem validateLimits_memCap {limits : Limits} (h : validateLimits limits = .ok ()) :
    2 ^ 20 ≤ limits.memCapBytes.toNat ∧ limits.memCapBytes.toNat ≤ 2 ^ 29 := by
  refine memCap_of_valid ?_
  unfold validateLimits at h
  cases hc : validateCpuBudgetMs (i64OfUsize limits.cpuBudgetMs) with
  | error e =>
    rw [hc] at h
    cases h
  | ok u =>
    rw [hc] at h
    exact h

def weightOf (cfg : RuntimeConfig) : HostOp → Option UInt32
  | .invoke _ _ _ limits => admissionWeight cfg limits
  | .stage _ => none

/-- Within the limits the weight is the rounded cap, and there is one if the budget allows. -/
theorem weightOf_spec (cfg : RuntimeConfig) {op : HostOp} (h : LimitsOk op) :
    (∃ n, weightOf cfg op = some n ∧ n.toNat = capMiB op) ∨
      (weightOf cfg op = none ∧ budgetMiB cfg < capMiB op) := by
  obtain ⟨tenant, func, input, limits⟩ | wasm := op
  case stage => exact h.elim
  show (∃ n, admissionWeight cfg limits = some n ∧ _) ∨ admissionWeight cfg limits = none ∧ _
  obtain ⟨hmin, hmax⟩ := validateLimits_memCap h
  have hceil := toNat_divCeil_MIB (a := limits.memCapBytes) (by omega)
  have hbudget : (cfg.memoryBudgetBytes / MIB).toNat = budgetMiB cfg := by
    rw [UInt64.toNat_div, toNat_MIB, budgetMiB]
  have hweight : max (divCeil limits.memCapBytes MIB) 1 = divCeil limits.memCapBytes MIB := by
    refine Usize.max_eq_left ?_
    rw [UInt64.le_iff_toNat_le, hceil]
    simp only [UInt64.toNat_one]
    omega
  have hsmall : (divCeil limits.memCapBytes MIB).toNat < 2 ^ 32 := by
    rw [hceil]
    omega
  simp only [admissionWeight, hweight, if_pos hsmall]
  by_cases hfit : divCeil limits.memCapBytes MIB ≤ cfg.memoryBudgetBytes / MIB
  · refine .inl ⟨_, if_pos hfit, ?_⟩
    rw [UInt64.toNat_toUInt32, Nat.mod_eq_of_lt hsmall, hceil]
    rfl
  · refine .inr ⟨if_neg hfit, ?_⟩
    rw [UInt64.not_le, UInt64.lt_iff_toNat_lt, hbudget, hceil] at hfit
    exact hfit

/-! ## The sums -/

section
variable {c : HostCall W} {r : HostRes c} {tr : Trace τ (HostCall W) HostRes}

theorem admittedMiB_same (he : admissionEvent c r = none) :
    admittedMiB ops ((t, ⟨c, r⟩) :: tr) = admittedMiB ops tr := by
  rw [admittedMiB, holders_none he, admittedMiB]

theorem admittedMiB_held (he : admissionEvent c r = some .held)
    (hn : standing admissionEvent (tr.of t) ≠ .held) :
    admittedMiB ops ((t, ⟨c, r⟩) :: tr) = capMiB (ops t) + admittedMiB ops tr := by
  rw [admittedMiB, holders_held he hn, List.map_cons, List.sum_cons, admittedMiB]

theorem admittedMiB_refused (he : admissionEvent c r = some .refused)
    (hn : standing admissionEvent (tr.of t) ≠ .held) :
    admittedMiB ops ((t, ⟨c, r⟩) :: tr) = admittedMiB ops tr := by
  rw [admittedMiB, holders_refused he hn, admittedMiB]

theorem admittedMiB_returned (he : admissionEvent c r = some .returned)
    (hh : standing admissionEvent (tr.of t) = .held) :
    admittedMiB ops tr = capMiB (ops t) + admittedMiB ops ((t, ⟨c, r⟩) :: tr) := by
  rw [admittedMiB, ((holders_returned he hh).map _).sum_eq, List.map_cons, List.sum_cons, admittedMiB]

/-- The caps are at most their rounded sum. -/
theorem admittedBytes_le (ops : τ → HostOp) (tr : Trace τ (HostCall W) HostRes) :
    admittedBytes ops tr ≤ 2 ^ 20 * admittedMiB ops tr := by
  unfold admittedBytes admittedMiB
  rw [← List.sum_map_mul_left]
  refine List.sum_le_sum fun t _ => ?_
  have hdiv := Nat.div_add_mod (capBytes (ops t) + (2 ^ 20 - 1)) (2 ^ 20)
  have hmod := Nat.mod_lt (capBytes (ops t) + (2 ^ 20 - 1)) (show 2 ^ 20 > 0 by decide)
  unfold capMiB
  omega

end

/-! ## Every step -/

section
variable {op : HostOp} {L : CallLedger}

theorem allows_tryAcquireMany {n : UInt32} (h : Allows cfg op L (.tryAcquireMany n : HostCall W)) :
    weightOf cfg op = some n ∧ L.slot = .held ∧ L.admission = .unasked := by
  cases op with
  | invoke => exact ⟨h.1, h.2.1, h.2.2.1⟩
  | stage => exact h.elim

theorem allows_releaseMany {n : UInt32} (h : Allows cfg op L (.releaseMany n : HostCall W)) :
    weightOf cfg op = some n ∧ L.slot = .held ∧ L.admission = .held := by
  cases op with
  | invoke => exact ⟨h.1, h.2.1, h.2.2.1⟩
  | stage => exact h.elim

/-- A call at the admission asks for memory, or gives up its slot because it never fits. -/
theorem allows_atAdmission {c : HostCall W} (hop : LimitsOk op) (h : Allows cfg op L c)
    (hs : L.slot = .held) (ha : L.admission = .unasked) :
    (∃ n, c = .tryAcquireMany n) ∨ ((∃ tenant, c = .dropSlot tenant) ∧ weightOf cfg op = none) := by
  have hne : L.admission ≠ .held := by
    rw [ha]
    decide
  obtain ⟨tenant, func, input, limits⟩ | wasm := op
  case stage => exact hop.elim
  cases c with
  | acquireSlot =>
    rw [h.2.1] at hs
    cases hs
  | tryAcquireMany n => exact .inl ⟨n, rfl⟩
  | dropSlot tenant => exact .inr ⟨⟨tenant, rfl⟩, h.2.2.2.2 ha⟩
  | releaseMany => exact absurd h.2.2.1 hne
  | acquirePermit => exact absurd h.admission hne
  | spawnBlocking => exact absurd h.2.admission hne
  | join =>
    obtain ⟨permit, h, -⟩ := h
    exact absurd h.admission hne
  | run =>
    obtain ⟨-, -, -, permit, served, -, h⟩ := h
    exact absurd h.admission hne
  | loadTicks | elapsed => exact absurd h.admission hne
  | record => exact absurd h.2.2.1.admission hne

theorem admissionEvent_answer {c : HostCall W} {r : HostRes c}
    (h : admissionEvent c r = some .refused ∨ admissionEvent c r = some .held) :
    ∃ n, c = .tryAcquireMany n := by
  cases c with
  | tryAcquireMany n => exact ⟨n, rfl⟩
  | _ => obtain h | h := h <;> cases h

theorem slotEvent_returned {c : HostCall W} {r : HostRes c} (h : slotEvent c r = some .returned) :
    ∃ tenant, c = .dropSlot tenant := by
  cases c with
  | acquireSlot => cases r <;> cases h
  | dropSlot tenant => exact ⟨tenant, rfl⟩
  | _ => cases h

theorem admission_follows (op : HostOp) (h : HostCalls W) (c : HostCall W) (r : HostRes c)
    (ha : Allows cfg op (callLedger h) c) :
    (standing admissionEvent h).Follows (admissionEvent c r) := by
  rw [← ledger_admission]
  cases c with
  | tryAcquireMany n =>
    rw [(allows_tryAcquireMany ha).2.2]
    cases r <;> rfl
  | releaseMany n => exact (allows_releaseMany ha).2.2
  | _ => trivial

/-- Only calls whose limits pass the checks get as far as the slot. -/
theorem limitsOk_step {h : HostCalls W} {c : HostCall W} {r : HostRes c}
    (ha : Allows cfg op (callLedger h) c) (hold : standing slotEvent h ≠ .unasked → LimitsOk op)
    (hn : standing slotEvent (⟨c, r⟩ :: h) ≠ .unasked) : LimitsOk op := by
  cases c with
  | acquireSlot tenant =>
    cases op with
    | invoke => exact ha.2.2
    | stage => exact ha.elim
  | dropSlot tenant =>
    apply hold
    rw [← ledger_slot, (allows_dropSlot ha).2]
    decide
  | _ => exact hold hn

end

section
variable {c : HostCall W} {r : HostRes c} {s s' : HostState W τ} {ch : HostChoice}

theorem AdmissionInv.total_step (hs : AdmissionInv cfg ops s)
    (ha : Allows cfg (ops t) (callLedger (s.trace.of t)) c)
    (hx : hostExec cfg t ch s.state c = some (r, s'.state)) (htr : s'.trace = (t, ⟨c, r⟩) :: s.trace) :
    s'.state.admission + admittedMiB ops s'.trace = budgetMiB cfg := by
  have htotal := hs.total
  -- the weight of a call is its rounded cap
  have hweight {n : UInt32} (hw : weightOf cfg (ops t) = some n)
      (hslot : (callLedger (s.trace.of t)).slot = .held) : n.toNat = capMiB (ops t) := by
    rw [ledger_slot] at hslot
    obtain ⟨n', hn', hcap⟩ | ⟨hn', -⟩ := weightOf_spec cfg (hs.valid t (by rw [hslot]; decide))
    · rw [hw] at hn'
      cases hn'
      exact hcap
    · rw [hw] at hn'
      cases hn'
  cases c with
  | tryAcquireMany n =>
    obtain ⟨hw, hslot, hadm⟩ := allows_tryAcquireMany ha
    have hn := hweight hw hslot
    have hfree : standing admissionEvent (s.trace.of t) ≠ .held := by
      rw [← ledger_admission, hadm]
      decide
    simp only [hostExec] at hx
    split at hx
    · rename_i hle
      obtain ⟨rfl, hstate⟩ := Prod.mk.inj (Option.some.inj hx)
      have hsum : admittedMiB ops s'.trace = capMiB (ops t) + admittedMiB ops s.trace :=
        (congrArg _ htr).trans (admittedMiB_held rfl hfree)
      rw [hsum, ← hstate]
      show s.state.admission - n.toNat + _ = _
      omega
    · obtain ⟨rfl, hstate⟩ := Prod.mk.inj (Option.some.inj hx)
      have hsum : admittedMiB ops s'.trace = admittedMiB ops s.trace :=
        (congrArg _ htr).trans (admittedMiB_refused rfl hfree)
      rw [hsum, ← hstate]
      exact htotal
  | releaseMany n =>
    obtain ⟨hw, hslot, hadm⟩ := allows_releaseMany ha
    have hn := hweight hw hslot
    obtain ⟨-, hstate⟩ := Prod.mk.inj (Option.some.inj hx)
    rw [ledger_admission] at hadm
    rw [admittedMiB_returned (r := r) rfl hadm] at htotal
    rw [← hstate, htr]
    show s.state.admission + n.toNat + _ = _
    omega
  | _ =>
    rw [hostExec_admission hx rfl, htr, admittedMiB_same rfl]
    exact htotal

/-- A call is admitted exactly when it fits. -/
theorem AdmissionInv.decided_step (hs : AdmissionInv cfg ops s)
    (ha : Allows cfg (ops t) (callLedger (s.trace.of t)) c)
    (hx : hostExec cfg t ch s.state c = some (r, s'.state)) (hat : AtAdmission t s.trace) :
    admissionEvent c r = some .held ↔ Fits cfg ops t s.trace := by
  obtain ⟨hslot, hadm⟩ := hat
  have hop := hs.valid t (by rw [hslot]; decide)
  have htotal := hs.total
  rw [← ledger_slot] at hslot
  rw [← ledger_admission] at hadm
  unfold Fits
  obtain ⟨n, rfl⟩ | ⟨⟨tenant, rfl⟩, hnone⟩ := allows_atAdmission hop ha hslot hadm
  · have hw := (allows_tryAcquireMany ha).1
    obtain ⟨n', hn', hcap⟩ | ⟨hn', -⟩ := weightOf_spec cfg hop
    · rw [hw] at hn'
      cases hn'
      simp only [hostExec] at hx
      split at hx
      · obtain ⟨rfl, -⟩ := Prod.mk.inj (Option.some.inj hx)
        refine iff_of_true rfl ?_
        omega
      · obtain ⟨rfl, -⟩ := Prod.mk.inj (Option.some.inj hx)
        refine iff_of_false (fun h => ?_) ?_
        · cases h
        · omega
    · rw [hw] at hn'
      cases hn'
  · obtain ⟨n', hn', -⟩ | ⟨-, hcap⟩ := weightOf_spec cfg hop
    · rw [hnone] at hn'
      cases hn'
    · refine iff_of_false (fun h => ?_) ?_
      · cases h
      · omega

theorem admissionInv_step (hs : AdmissionInv cfg ops s)
    (ha : Allows cfg (ops t) (callLedger (s.trace.of t)) c)
    (hx : hostExec cfg t ch s.state c = some (r, s'.state)) (htr : s'.trace = (t, ⟨c, r⟩) :: s.trace) :
    AdmissionInv cfg ops s' := by
  refine ⟨hs.total_step ha hx htr, fun u hu => ?_, fun u c' r' before hb hat => ?_⟩
  · rw [htr] at hu
    by_cases hut : t = u
    · subst hut
      rw [Trace.of_cons_self] at hu
      exact limitsOk_step ha (hs.valid t) hu
    · rw [Trace.of_cons_ne hut] at hu
      exact hs.valid u hu
  · rw [htr] at hb
    rcases List.suffix_cons_iff.1 hb with heq | hb
    · cases heq
      exact hs.decided_step ha hx hat
    · exact hs.decided u c' r' before hb hat

end

theorem admissionInv_reach (hb : build W τ cfg = .ok s₀)
    (hr : Reach (hostSystem W cfg threads).traced (hostStart cfg meter ops s₀) C) :
    AdmissionInv cfg ops C.shared := by
  obtain ⟨-, -, -, rfl⟩ := build_eq_ok hb
  refine host_keeps hr ⟨?_, fun _ h => absurd rfl h, fun _ _ _ _ h => ?_⟩
    (fun t c r s s' ch hs ha hx htr => admissionInv_step hs ha hx htr)
    fun pend s s' e hs _ hx htr => ?_
  · show (cfg.memoryBudgetBytes / MIB).toNat + 0 = budgetMiB cfg
    rw [UInt64.toNat_div, toNat_MIB, Nat.add_zero, budgetMiB]
  · have := h.length_le
    simp at this
  · refine ⟨?_, ?_, ?_⟩
    · rw [(hostEnv_frame hx).2, htr]
      exact hs.total
    · rw [htr]
      exact hs.valid
    · rw [htr]
      exact hs.decided

/-! ## Every run -/

/-- The memory admission over a run: what is admitted stays within the budget, and a call is refused
exactly when it does not fit. -/
structure AdmissionExact (cfg : RuntimeConfig) (ops : τ → HostOp) (C : HostConfig W τ) : Prop where
  bounded : admittedBytes ops C.shared.trace ≤ cfg.memoryBudgetBytes.toNat
  /-- A call at the admission is admitted exactly when it fits. -/
  decided : ∀ t c r before, (t, ⟨c, r⟩) :: before <:+ C.shared.trace → AtAdmission t before →
    (admissionEvent c r = some .held ↔ Fits cfg ops t before)
  /-- Every call that passes the checks on its names, its limits and its slot comes to the
  admission, and returns `Overloaded` exactly when it did not fit. -/
  overloaded : ∀ t tenant func input limits out, ops t = .invoke tenant func input limits →
    validName tenant = true → validName func = true → validateLimits limits = .ok () →
    C.prog t = .ret (.invoked out) → out ≠ .error (.error .tenantBusy) →
    ∃ c r before, (t, ⟨c, r⟩) :: before <:+ C.shared.trace ∧ AtAdmission t before ∧
      (out = .error (.error .overloaded) ↔ ¬ Fits cfg ops t before)
  idle : (∀ t, ¬ InProgress C t) → C.shared.state.admission = budgetMiB cfg

/-- A call that has had its slot has been at the admission. -/
theorem atAdmission_of_returned
    (hr : Reach (hostSystem W cfg threads).traced (hostStart cfg meter ops s₀) C)
    (hs : standing slotEvent (C.shared.trace.of t) = .returned) :
    ∃ c r before, (t, ⟨c, r⟩) :: before <:+ C.shared.trace ∧ AtAdmission t before ∧
      (admissionEvent c r = some .held ↔
        standing admissionEvent (C.shared.trace.of t) ≠ .refused ∧
        standing admissionEvent (C.shared.trace.of t) ≠ .unasked) := by
  have ho := host_orderly admission_follows hr t
  by_cases ha : standing admissionEvent (C.shared.trace.of t) = .unasked
  · -- it gave up its slot without asking
    have hne : standing slotEvent (C.shared.trace.of t) ≠ .unasked := by
      rw [hs]
      decide
    obtain ⟨l₁, c, r, l₂, hsplit, he⟩ := standing_ne_unasked hne
    rw [hs] at he
    obtain ⟨tenant, rfl⟩ := slotEvent_returned he
    have hbefore : standing admissionEvent l₂ = .unasked := by
      rw [hsplit, List.append_cons] at ho ha
      exact ho.unasked ha
    obtain ⟨before, hb, rfl⟩ := Trace.of_split hsplit
    have hslot := (allows_dropSlot (host_allowed hr hb)).2
    rw [ledger_slot] at hslot
    exact ⟨_, r, before, hb, ⟨hslot, hbefore⟩, iff_of_false (fun h => by cases h) fun h => h.2 ha⟩
  · obtain ⟨l₁, c, r, l₂, hsplit, he⟩ := ho.answered ha
    obtain ⟨before, hb, rfl⟩ := Trace.of_split hsplit
    obtain ⟨n, rfl⟩ : ∃ n, c = .tryAcquireMany n := by
      obtain ⟨he, -⟩ | ⟨he, -⟩ := he
      · exact admissionEvent_answer (.inl he)
      · exact admissionEvent_answer (.inr he)
    obtain ⟨-, hslot, hadm⟩ := allows_tryAcquireMany (host_allowed hr hb)
    rw [ledger_slot] at hslot
    rw [ledger_admission] at hadm
    refine ⟨_, r, before, hb, ⟨hslot, hadm⟩, ?_⟩
    obtain ⟨he, hr⟩ | ⟨he, hr⟩ := he
    · refine iff_of_false (fun h => ?_) fun h => h.1 hr
      rw [he] at h
      cases h
    · exact iff_of_true he ⟨hr, ha⟩

theorem admission_exact (W : Wasm) (cfg : RuntimeConfig) (meter : Bool) (threads : Nat)
    (ops : τ → HostOp) {s₀ : Host W τ} (hb : build W τ cfg = .ok s₀) {C : HostConfig W τ}
    (hr : Reach (hostSystem W cfg threads).traced (hostStart cfg meter ops s₀) C) :
    AdmissionExact cfg ops C := by
  have hinv := admissionInv_reach hb hr
  refine ⟨?_, hinv.decided, ?_, fun hidle => ?_⟩
  · have hle := admittedBytes_le ops C.shared.trace
    have hbudget := Nat.div_mul_le_self cfg.memoryBudgetBytes.toNat (2 ^ 20)
    have htotal := hinv.total
    unfold budgetMiB at htotal
    omega
  · intro t tenant func input limits out hop htenant hfunc hlimits hret hbusy
    have hf := host_final hr hret
    rw [hop] at hf
    have hslot : (callLedger (C.shared.trace.of t)).slot = .returned := by
      cases hs : (callLedger (C.shared.trace.of t)).slot with
      | unasked => exact absurd ⟨htenant, hfunc, hlimits⟩ (hf.passed hs)
      | refused => exact absurd (hf.busy.2 hs) hbusy
      | held => exact absurd hs hf.slot
      | returned => rfl
    obtain ⟨c, r, before, hmem, hat, hiff⟩ := atAdmission_of_returned hr (ledger_slot _ ▸ hslot)
    refine ⟨c, r, before, hmem, hat, ?_⟩
    rw [hf.overloaded, ← hinv.decided t c r before hmem hat, hiff, hslot, ledger_admission]
    tauto
  · have hzero : admittedMiB ops C.shared.trace = 0 := by
      rw [admittedMiB, holders_eq_nil fun t => ?_]
      · rfl
      · rw [← ledger_admission]
        exact (holds_nothing hr (hidle t)).2.1
    have htotal := hinv.total
    omega

end

def isOverloaded (C : HostConfig Wasm.plain Bool) : Bool :=
  match C.prog true with
  | .ret (.invoked (.error (.error .overloaded))) => true
  | _ => false

/-- 3 MiB do not hold two calls of 1.5 MiB each. -/
theorem admission_exact_rounded : ∃ C : HostConfig Wasm.plain Bool,
    isOverloaded C = true ∧ AdmissionExact (smallRuntime 2) twoInvokes C := by
  have hrun : (hostPlay (smallRuntime 2) 1 (hostStart (smallRuntime 2) true twoInvokes smallHost)
      [.inl (false, .go), .inl (false, .go), .inl (true, .go), .inl (true, .go), .inl (true, .go)]).any
      isOverloaded = true := by
    decide +kernel
  rw [Option.any_eq_true] at hrun
  obtain ⟨C, hplay, hC⟩ := hrun
  exact ⟨C, hC, admission_exact Wasm.plain (smallRuntime 2) true 1 twoInvokes
    (show build _ _ _ = .ok smallHost from rfl) (hostPlay_reach hplay)⟩

end Warpline
