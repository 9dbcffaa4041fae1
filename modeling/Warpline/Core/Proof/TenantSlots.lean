import Warpline.Core.Proof.InvokeSteps

/-!
# The in-flight counters are exact

`SlotInv`: the entry of every tenant in the in-flight map counts the slots its calls hold, and
every answer to a call for a slot was given by that count. `slots_exact` is the result for every
run.
-/

set_option autoImplicit false

namespace Warpline

open Conc

section
variable {W : Wasm} {τ : Type} [DecidableEq τ]

/-- The slots that calls of the tenant hold after a history. -/
def liveSlots (ops : τ → HostOp) (tenant : Str) (tr : Trace τ (HostCall W) HostRes) : Nat :=
  (holders slotEvent tr).countP fun t => tenantOf (ops t) == some tenant

/-- An entry of the map for `count` slots. -/
def SlotEntry (max : Usize) (count : Nat) : Option Usize → Prop
  | none => count = 0
  | some n => n.toNat = count ∧ n ≠ 0 ∧ n ≤ max

/-- A tenant's entry counts its live slots, and each call for a slot has been decided by that count. -/
structure SlotInv (cfg : RuntimeConfig) (ops : τ → HostOp) (s : HostState W τ) : Prop where
  entry : ∀ tenant, SlotEntry cfg.maxInFlightPerTenant (liveSlots ops tenant s.trace)
    (s.state.inFlight tenant)
  asked : ∀ t tenant b before, (t, ⟨.acquireSlot tenant, b⟩) :: before <:+ s.trace →
    tenantOf (ops t) = some tenant ∧
      (b = false ↔ liveSlots ops tenant before = cfg.maxInFlightPerTenant.toNat)

variable {cfg : RuntimeConfig} {meter : Bool} {threads : Nat} {ops : τ → HostOp} {s₀ : Host W τ}
  {C : HostConfig W τ} {tenant : Str} {t : τ}

/-! ## The counts -/

section
variable {c : HostCall W} {r : HostRes c} {tr : Trace τ (HostCall W) HostRes} {tenant' : Str}

theorem liveSlots_same (he : slotEvent c r = none) :
    liveSlots ops tenant ((t, ⟨c, r⟩) :: tr) = liveSlots ops tenant tr := by
  rw [liveSlots, holders_none he, liveSlots]

theorem liveSlots_held (he : slotEvent c r = some .held) (ht : tenantOf (ops t) = some tenant')
    (hn : standing slotEvent (tr.of t) ≠ .held) :
    liveSlots ops tenant ((t, ⟨c, r⟩) :: tr) =
      liveSlots ops tenant tr + if tenant' = tenant then 1 else 0 := by
  rw [liveSlots, holders_held he hn, List.countP_cons, liveSlots, ht]
  simp

theorem liveSlots_refused (he : slotEvent c r = some .refused)
    (hn : standing slotEvent (tr.of t) ≠ .held) :
    liveSlots ops tenant ((t, ⟨c, r⟩) :: tr) = liveSlots ops tenant tr := by
  rw [liveSlots, holders_refused he hn, liveSlots]

theorem liveSlots_returned (he : slotEvent c r = some .returned)
    (ht : tenantOf (ops t) = some tenant') (hh : standing slotEvent (tr.of t) = .held) :
    liveSlots ops tenant tr =
      liveSlots ops tenant ((t, ⟨c, r⟩) :: tr) + if tenant' = tenant then 1 else 0 := by
  rw [liveSlots, (holders_returned he hh).countP_eq, List.countP_cons, liveSlots, ht]
  simp

/-- The answer to a call for a slot. -/
theorem liveSlots_acquired {b : Bool} (ht : tenantOf (ops t) = some tenant)
    (hn : standing slotEvent (tr.of t) ≠ .held) :
    liveSlots ops tenant' ((t, ⟨(.acquireSlot tenant : HostCall W), b⟩) :: tr) =
      liveSlots ops tenant' tr + if b = true ∧ tenant = tenant' then 1 else 0 := by
  cases b with
  | false => exact (liveSlots_refused rfl hn).trans (by simp)
  | true => exact (liveSlots_held rfl ht hn).trans (by simp)

end

/-! ## The map -/

/-- `TenantSlot::acquire` refuses exactly at the maximum, and counts the slot it gives. -/
theorem acquire_spec {max : Usize} {map : Str → Option Usize} {count : Str → Nat} (tenant : Str)
    (hmax : max ≠ 0)
    (h : ∀ tenant, SlotEntry max (count tenant) (map tenant)) :
    ((TenantSlot.acquire max tenant map).1 = false ↔ count tenant = max.toNat) ∧
      ∀ tenant', SlotEntry max
        (count tenant' + if (TenantSlot.acquire max tenant map).1 = true ∧ tenant = tenant' then 1
          else 0) ((TenantSlot.acquire max tenant map).2 tenant') := by
  have ht := h tenant
  have hpos : 1 ≤ max := by
    rw [UInt64.le_iff_toNat_le]
    exact Nat.one_le_iff_ne_zero.2 fun h0 => hmax (UInt64.toNat_inj.1 h0)
  unfold TenantSlot.acquire
  cases hn : map tenant with
  | none =>
    rw [hn] at ht
    have hc : count tenant = 0 := ht
    refine ⟨⟨nofun, fun h => ?_⟩, fun tenant' => ?_⟩
    · rw [hc] at h
      exact absurd (UInt64.toNat_inj.1 h.symm) hmax
    · by_cases heq : tenant' = tenant
      · subst heq
        simp only [Function.update_self, hc, and_self, if_true]
        exact ⟨rfl, by decide, hpos⟩
      · simp only [Function.update_of_ne heq, Ne.symm heq, and_false, if_false]
        exact h tenant'
  | some n =>
    rw [hn] at ht
    obtain ⟨hc, hne, hle⟩ := ht
    by_cases hfull : max ≤ n
    · have heq : n = max := UInt64.le_antisymm hle hfull
      simp only [hfull, if_true, Bool.false_eq_true, false_and, if_false, Nat.add_zero, true_iff]
      exact ⟨by rw [← hc, heq], h⟩
    · simp only [hfull, if_false, Bool.true_eq_false, false_iff, true_and]
      have hlt : n.toNat < max.toNat := by
        rw [UInt64.le_iff_toNat_le] at hfull
        omega
      have hmaxlt := max.toNat_lt
      have hadd : (n + 1).toNat = n.toNat + 1 := Usize.toNat_add_of_lt (by simp; omega)
      refine ⟨by omega, fun tenant' => ?_⟩
      by_cases heq : tenant' = tenant
      · subst heq
        simp only [Function.update_self, if_true]
        refine ⟨by omega, fun h0 => ?_, ?_⟩
        · rw [h0] at hadd
          simp at hadd
        · rw [UInt64.le_iff_toNat_le]
          omega
      · simp only [Function.update_of_ne heq, Ne.symm heq, if_false]
        exact h tenant'

theorem acquire_other {max : Usize} {map : Str → Option Usize} {tenant' : Str}
    (h : tenant' ≠ tenant) : (TenantSlot.acquire max tenant map).2 tenant' = map tenant' := by
  unfold TenantSlot.acquire
  split
  · split
    · rfl
    · exact Function.update_of_ne h _ _
  · exact Function.update_of_ne h _ _

theorem drop_other {map : Str → Option Usize} {tenant' : Str} (h : tenant' ≠ tenant) :
    TenantSlot.drop tenant map tenant' = map tenant' := by
  unfold TenantSlot.drop
  cases map tenant with
  | some n => exact Function.update_of_ne h _ _
  | none => rfl

/-- Giving back a slot that is counted. -/
theorem drop_spec {max : Usize} {map : Str → Option Usize} {count count' : Str → Nat}
    (h : ∀ tenant, SlotEntry max (count tenant) (map tenant))
    (hcount : ∀ tenant', count tenant' = count' tenant' + if tenant = tenant' then 1 else 0)
    (tenant' : Str) : SlotEntry max (count' tenant') (TenantSlot.drop tenant map tenant') := by
  have ht := h tenant
  have hc := hcount tenant
  rw [if_pos rfl] at hc
  unfold TenantSlot.drop
  cases hn : map tenant with
  | none =>
    rw [hn] at ht
    have h0 : count tenant = 0 := ht
    omega
  | some n =>
    rw [hn] at ht
    obtain ⟨hn', hne, hle⟩ := ht
    have hsub : (n - 1).toNat = n.toNat - 1 := by
      refine UInt64.toNat_sub_of_le _ _ ?_
      rw [UInt64.le_iff_toNat_le]
      simp
      omega
    by_cases heq : tenant' = tenant
    · subst heq
      simp only [Function.update_self]
      split
      · rename_i h0
        rw [h0] at hsub
        show count' tenant' = 0
        simp at hsub
        omega
      · rename_i h0
        refine ⟨by omega, h0, ?_⟩
        rw [UInt64.le_iff_toNat_le] at hle ⊢
        omega
    · simp only [Function.update_of_ne heq]
      have := hcount tenant'
      rw [if_neg (Ne.symm heq), Nat.add_zero] at this
      rw [← this]
      exact h tenant'

/-! ## Every step -/

section
variable {c : HostCall W} {r : HostRes c}

theorem slotEvent_refused (h : slotEvent c r = some .refused) :
    ∃ tenant, (⟨c, r⟩ : (c : HostCall W) × HostRes c) = ⟨.acquireSlot tenant, false⟩ := by
  cases c with
  | acquireSlot tenant =>
    cases r with
    | false => exact ⟨tenant, rfl⟩
    | true => cases h
  | _ => cases h

theorem slotEvent_held (h : slotEvent c r = some .held) :
    ∃ tenant, (⟨c, r⟩ : (c : HostCall W) × HostRes c) = ⟨.acquireSlot tenant, true⟩ := by
  cases c with
  | acquireSlot tenant =>
    cases r with
    | false => cases h
    | true => exact ⟨tenant, rfl⟩
  | _ => cases h

end

theorem slotInv_step (hmax : cfg.maxInFlightPerTenant ≠ 0) {c : HostCall W} {r : HostRes c}
    {s s' : HostState W τ} {ch : HostChoice} (hs : SlotInv cfg ops s)
    (ha : Allows cfg (ops t) (callLedger (s.trace.of t)) c)
    (hx : hostExec cfg t ch s.state c = some (r, s'.state)) (htr : s'.trace = (t, ⟨c, r⟩) :: s.trace) :
    SlotInv cfg ops s' := by
  cases c with
  | acquireSlot tenant =>
    obtain ⟨ht, hnew⟩ := allows_acquireSlot ha
    have hn : standing slotEvent (s.trace.of t) ≠ .held := by
      rw [← ledger_slot, hnew]
      decide
    obtain ⟨hr, hstate⟩ := Prod.mk.inj (Option.some.inj hx)
    obtain ⟨hfull, hentry⟩ := acquire_spec tenant hmax hs.entry
    subst hr
    refine ⟨fun tenant' => ?_, fun u tenant' b before hb => ?_⟩
    · rw [← hstate, htr, liveSlots_acquired ht hn]
      exact hentry tenant'
    · rw [htr] at hb
      rcases List.suffix_cons_iff.1 hb with heq | hb
      · cases heq
        exact ⟨ht, hfull⟩
      · exact hs.asked u tenant' b before hb
  | dropSlot tenant =>
    obtain ⟨ht, hheld⟩ := allows_dropSlot ha
    rw [ledger_slot] at hheld
    obtain ⟨-, hstate⟩ := Prod.mk.inj (Option.some.inj hx)
    refine ⟨fun tenant' => ?_, fun u tenant' b before hb => ?_⟩
    · rw [← hstate, htr]
      exact drop_spec hs.entry (fun tenant' => liveSlots_returned rfl ht hheld) tenant'
    · rw [htr] at hb
      rcases List.suffix_cons_iff.1 hb with heq | hb
      · cases heq
      · exact hs.asked u tenant' b before hb
  | _ =>
    refine ⟨fun tenant' => ?_, fun u tenant' b before hb => ?_⟩
    · rw [hostExec_inFlight hx rfl, htr, liveSlots_same rfl]
      exact hs.entry tenant'
    · rw [htr] at hb
      rcases List.suffix_cons_iff.1 hb with heq | hb
      · cases heq
      · exact hs.asked u tenant' b before hb

theorem slotInv_reach (hb : build W τ cfg = .ok s₀)
    (hr : Reach (hostSystem W cfg threads).traced (hostStart cfg meter ops s₀) C) :
    SlotInv cfg ops C.shared := by
  obtain ⟨hmax, -, -, rfl⟩ := build_eq_ok hb
  refine host_keeps hr ⟨fun _ => rfl, fun _ _ _ _ h => ?_⟩
    (fun t c r s s' ch hs ha hx htr => slotInv_step hmax hs ha hx htr)
    fun pend s s' e hs _ hx htr => ?_
  · have := h.length_le
    simp at this
  · refine ⟨fun tenant => ?_, ?_⟩
    · rw [(hostEnv_frame hx).1, htr]
      exact hs.entry tenant
    · rw [htr]
      exact hs.asked

/-! ## Every run -/

/-- The slots of tenants over a run: the map counts live slots, and a call is refused exactly at the
maximum of its tenant. -/
structure SlotsExact (cfg : RuntimeConfig) (ops : τ → HostOp) (C : HostConfig W τ) : Prop where
  /-- The entry of a tenant is the number of its live slots, within the maximum and never zero. -/
  entry : ∀ tenant, SlotEntry cfg.maxInFlightPerTenant (liveSlots ops tenant C.shared.trace)
    (C.shared.state.inFlight tenant)
  /-- A slot that is dropped is counted. -/
  counted : ∀ t tenant, C.pending t = some (.dropSlot tenant) →
    ∃ n, C.shared.state.inFlight tenant = some n ∧ 1 ≤ n.toNat
  /-- A call for a slot is refused exactly at the maximum. -/
  asked : ∀ t tenant b before, (t, ⟨.acquireSlot tenant, b⟩) :: before <:+ C.shared.trace →
    tenantOf (ops t) = some tenant ∧
      (b = false ↔ liveSlots ops tenant before = cfg.maxInFlightPerTenant.toNat)
  /-- Every call that passes the checks on its names and limits asks, and returns `TenantBusy` when
  it is refused. -/
  refused : ∀ t tenant func input limits out, ops t = .invoke tenant func input limits →
    validName tenant = true → validName func = true → validateLimits limits = .ok () →
    C.prog t = .ret (.invoked out) →
    ∃ b before, (t, ⟨.acquireSlot tenant, b⟩) :: before <:+ C.shared.trace ∧
      (out = .error (.error .tenantBusy) ↔
        liveSlots ops tenant before = cfg.maxInFlightPerTenant.toNat)
  /-- A call changes no entry but its own tenant's. -/
  isolated : ∀ t c r ch s', C.pending t = some c →
    hostExec cfg t ch C.shared.state c = some (r, s') →
    ∀ tenant, tenantOf (ops t) ≠ some tenant → s'.inFlight tenant = C.shared.state.inFlight tenant
  idle : (∀ t, ¬ InProgress C t) → ∀ tenant, C.shared.state.inFlight tenant = none

theorem slots_exact (W : Wasm) (cfg : RuntimeConfig) (meter : Bool) (threads : Nat)
    (ops : τ → HostOp) {s₀ : Host W τ} (hb : build W τ cfg = .ok s₀) {C : HostConfig W τ}
    (hr : Reach (hostSystem W cfg threads).traced (hostStart cfg meter ops s₀) C) :
    SlotsExact cfg ops C := by
  have hinv := slotInv_reach hb hr
  refine ⟨hinv.entry, fun t tenant hc => ?_, hinv.asked,
    fun t tenant func input limits out hop htenant hfunc hlimits hret => ?_,
    fun t c r ch s' hc hx tenant hne => ?_, fun hidle tenant => ?_⟩
  · obtain ⟨ht, hheld⟩ := allows_dropSlot (host_allows hr hc)
    rw [ledger_slot, ← mem_holders] at hheld
    have hpos : 0 < liveSlots ops tenant C.shared.trace :=
      List.countP_pos_iff.2 ⟨t, hheld, by simp [ht]⟩
    have hent := hinv.entry tenant
    cases hn : C.shared.state.inFlight tenant with
    | none =>
      rw [hn] at hent
      have h0 : liveSlots ops tenant C.shared.trace = 0 := hent
      omega
    | some n =>
      rw [hn] at hent
      exact ⟨n, rfl, by have := hent.1; omega⟩
  · have hf := host_final hr hret
    rw [hop] at hf
    have hasked : standing slotEvent (C.shared.trace.of t) ≠ .unasked := by
      rw [← ledger_slot]
      exact fun h => hf.passed h ⟨htenant, hfunc, hlimits⟩
    obtain ⟨l₁, c, r, l₂, hsplit, ha⟩ := (host_orderly slot_follows hr t).answered hasked
    obtain ⟨before, hmem, -⟩ := Trace.of_split hsplit
    obtain ⟨tenant', b, heq, href⟩ : ∃ tenant', ∃ b : Bool,
        (⟨c, r⟩ : (c : HostCall W) × HostRes c) = ⟨.acquireSlot tenant', b⟩ ∧
          (b = false ↔ standing slotEvent (C.shared.trace.of t) = .refused) := by
      obtain ⟨he, hs⟩ | ⟨he, hs⟩ := ha
      · obtain ⟨tenant', heq⟩ := slotEvent_refused he
        exact ⟨tenant', false, heq, iff_of_true rfl hs⟩
      · obtain ⟨tenant', heq⟩ := slotEvent_held he
        exact ⟨tenant', true, heq, iff_of_false nofun hs⟩
    rw [heq] at hmem
    obtain ⟨ht, hb⟩ := hinv.asked t tenant' b before hmem
    rw [hop] at ht
    cases ht
    refine ⟨b, before, hmem, ?_⟩
    rw [hf.busy, ledger_slot, ← href]
    exact hb
  · cases c with
    | acquireSlot tenant' =>
      obtain ⟨ht, -⟩ := allows_acquireSlot (host_allows hr hc)
      obtain ⟨-, hstate⟩ := Prod.mk.inj (Option.some.inj hx)
      rw [← hstate]
      exact acquire_other fun h => hne (h ▸ ht)
    | dropSlot tenant' =>
      obtain ⟨ht, -⟩ := allows_dropSlot (host_allows hr hc)
      obtain ⟨-, hstate⟩ := Prod.mk.inj (Option.some.inj hx)
      rw [← hstate]
      exact drop_other fun h => hne (h ▸ ht)
    | _ => rw [hostExec_inFlight hx rfl]
  · have hzero : liveSlots ops tenant C.shared.trace = 0 := by
      rw [liveSlots, holders_eq_nil fun t => ?_]
      · rfl
      · rw [← ledger_slot]
        exact (holds_nothing hr (hidle t)).1
    have hent := hinv.entry tenant
    rw [hzero] at hent
    cases hn : C.shared.state.inFlight tenant with
    | none => rfl
    | some n =>
      rw [hn] at hent
      exact absurd (UInt64.toNat_inj.1 hent.1) hent.2.1

end

def isBusy (C : HostConfig Wasm.plain Bool) : Bool :=
  match C.prog true with
  | .ret (.invoked (.error (.error .tenantBusy))) => true
  | _ => false

theorem slots_exact_busy : ∃ C : HostConfig Wasm.plain Bool,
    isBusy C = true ∧ SlotsExact (smallRuntime 1) twoInvokes C := by
  have hrun : (hostPlay (smallRuntime 1) 1 (hostStart (smallRuntime 1) true twoInvokes smallHost)
      [.inl (false, .go), .inl (true, .go)]).any isBusy = true := by
    decide +kernel
  rw [Option.any_eq_true] at hrun
  obtain ⟨C, hplay, hC⟩ := hrun
  exact ⟨C, hC, slots_exact Wasm.plain (smallRuntime 1) true 1 twoInvokes
    (show build _ _ _ = .ok smallHost from rfl) (hostPlay_reach hplay)⟩

end Warpline
