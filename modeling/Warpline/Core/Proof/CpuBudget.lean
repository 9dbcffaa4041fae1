import Warpline.Core.Epoch

/-!
# The CPU budget is tight

`Phase.run_spec` says how a phase ends, by the ticks that are left to the limit. From it
`instantiation_spec` and `call_spec` read off the two limits, `b + 2` and `min u 2 + b`, and
`cpu_budget_tight` is the main result: where a run is cut off, and what is charged for it.
-/

set_option autoImplicit false

namespace Warpline

open Conc

namespace Sandbox

/-- The callback has cut the phase off. -/
def CutOff {α : Type} (r : Except Stop α) : Prop := r = .error (.error .cpuBudgetExceededMarker)

/-! ## One phase -/

section
variable {α : Type} {s : Epoch}

/-- A tick within the limit is counted, and the next one reaches the deadline again. -/
theorem Epoch.tick_within (hdeadline : s.deadline ≤ 1) (hlt : s.ticks.toNat < s.limit.toNat) :
    ∃ s' : Epoch, s.tick = (.ok (), s') ∧ s'.ticks.toNat = s.ticks.toNat + 1 ∧
      s'.limit = s.limit ∧ s'.deadline ≤ 1 := by
  have hlimit := s.limit.toNat_lt
  have hn : (s.ticks + 1).toNat = s.ticks.toNat + 1 := Usize.toNat_add_of_lt (by simp; omega)
  have hle : ¬s.limit < s.ticks + 1 := by
    rw [UInt64.lt_iff_toNat_lt, hn]
    omega
  refine ⟨{ s with ticks := s.ticks + 1, deadline := 1 }, ?_, hn, rfl, Nat.le_refl 1⟩
  simp only [Epoch.tick, Epoch.callback, if_neg (Nat.not_lt.2 hdeadline), if_neg hle]

/-- The tick after the limit is counted, and is the last one. -/
theorem Epoch.tick_over (hdeadline : s.deadline ≤ 1) (heq : s.ticks = s.limit)
    (hlimit : s.limit.toNat + 1 < 2 ^ 64) :
    ∃ s' : Epoch, s.tick = (.error .cpuBudgetExceededMarker, s') ∧
      s'.ticks.toNat = s.limit.toNat + 1 := by
  have hn : (s.ticks + 1).toNat = s.limit.toNat + 1 := by
    rw [heq]
    exact Usize.toNat_add_of_lt (by simpa using hlimit)
  have hlt : s.limit < s.ticks + 1 := by
    rw [UInt64.lt_iff_toNat_lt, hn]
    omega
  refine ⟨{ s with ticks := s.ticks + 1 }, ?_, hn⟩
  simp only [Epoch.tick, Epoch.callback, if_neg (Nat.not_lt.2 hdeadline), if_pos hlt]

/-- `n` ticks from a state that has not passed its limit. -/
theorem ticksThen_spec (ended : Except Stop α) {n : Nat} (hdeadline : s.deadline ≤ 1)
    (hticks : s.ticks.toNat ≤ s.limit.toNat) (hlimit : s.limit.toNat + 1 < 2 ^ 64) :
    (s.ticks.toNat + n ≤ s.limit.toNat → (ticksThen ended n s).1 = ended ∧
      (ticksThen ended n s).2.ticks.toNat = s.ticks.toNat + n ∧
        (ticksThen ended n s).2.deadline ≤ 1) ∧
      (s.limit.toNat < s.ticks.toNat + n → CutOff (ticksThen ended n s).1 ∧
        (ticksThen ended n s).2.ticks.toNat = s.limit.toNat + 1) := by
  induction n generalizing s with
  | zero => exact ⟨fun _ => ⟨rfl, rfl, hdeadline⟩, fun h => by omega⟩
  | succ n ih =>
    by_cases hlt : s.ticks.toNat < s.limit.toNat
    · obtain ⟨s', htick, hn, hl, hd⟩ := Epoch.tick_within hdeadline hlt
      have hrest := ih (s := s') hd (by rw [hl]; omega) (by rw [hl]; exact hlimit)
      simp only [ticksThen, htick]
      rw [hl, hn] at hrest
      constructor
      · intro h
        obtain ⟨hend, hcount, hd'⟩ := hrest.1 (by omega)
        exact ⟨hend, by omega, hd'⟩
      · intro h
        exact hrest.2 (by omega)
    · have heq : s.ticks = s.limit := UInt64.toNat_inj.1 (by omega)
      obtain ⟨s', htick, hn⟩ := Epoch.tick_over hdeadline heq hlimit
      simp only [ticksThen, htick]
      constructor
      · intro h
        omega
      · intro _
        exact ⟨rfl, hn⟩

/-- A phase is cut off when its ticks pass the limit, at the tick after the limit. -/
theorem Phase.run_spec (p : Phase α) (hdeadline : s.deadline ≤ 1)
    (hticks : s.ticks.toNat ≤ s.limit.toNat) (hlimit : s.limit.toNat + 1 < 2 ^ 64) :
    (CutOff (p.run s).1 ↔ s.limit.toNat < s.ticks.toNat + p.ticks) ∧
      (p.run s).2.ticks.toNat = min (s.ticks.toNat + p.ticks) (s.limit.toNat + 1) ∧
        (¬CutOff (p.run s).1 → (p.run s).1 = p.ended ∧ (p.run s).2.deadline ≤ 1) := by
  obtain ⟨hwithin, hover⟩ := ticksThen_spec p.ended (n := p.ticks) hdeadline hticks hlimit
  by_cases h : s.limit.toNat < s.ticks.toNat + p.ticks
  · obtain ⟨hcut, hcount⟩ := hover h
    refine ⟨⟨fun _ => h, fun _ => hcut⟩, ?_, fun hnot => absurd hcut hnot⟩
    rw [Phase.run, hcount]
    omega
  · obtain ⟨hend, hcount, hd⟩ := hwithin (by omega)
    have hnot : ¬CutOff (p.run s).1 := by
      rw [Phase.run, hend]
      intro hcut
      cases p.own _ hcut
    refine ⟨⟨fun hcut => absurd hcut hnot, fun hlt => absurd hlt h⟩, ?_, fun _ => ⟨hend, hd⟩⟩
    rw [Phase.run, hcount]
    omega

end

/-! ## The two limits -/

section
variable {ms : UInt64} {guest : Guest}

theorem toNat_budgetTicks (hms : 1 ≤ ms.toNat) : (budgetTicks ms).toNat = ms.toNat := by
  have hdiv : ms / EPOCH_TICK_MS = ms := by
    rw [← UInt64.toNat_inj, UInt64.toNat_div]
    exact Nat.div_one _
  have hone : (1 : UInt64) ≤ ms := by
    rw [UInt64.le_iff_toNat_le]
    exact hms
  rw [budgetTicks, hdiv, Usize.max_eq_left hone]

theorem toNat_newLimit (hms : 1 ≤ ms.toNat) (hle : ms.toNat ≤ 10000) :
    (Epoch.new ms).limit.toNat = ms.toNat + 2 := by
  have hbudget := toNat_budgetTicks hms
  have hgrace : INSTANTIATE_GRACE_TICKS.toNat = 2 := rfl
  rw [Epoch.new, Usize.toNat_saturatingAdd_of_lt (by omega), hbudget, hgrace]

theorem toNat_rebaseLimit (s : Epoch) (hms : 1 ≤ ms.toNat) (hle : ms.toNat ≤ 10000) :
    (s.rebase ms).limit.toNat = min s.ticks.toNat 2 + ms.toNat := by
  have hbudget := toNat_budgetTicks hms
  have hmin : (min s.ticks INSTANTIATE_GRACE_TICKS).toNat = min s.ticks.toNat 2 :=
    Usize.toNat_min s.ticks INSTANTIATE_GRACE_TICKS
  rw [Epoch.rebase, callLimit, Usize.toNat_saturatingAdd_of_lt (by omega), hmin, hbudget]

/-- Instantiation is cut off at tick `b + 3`. -/
theorem instantiation_spec (guest : Guest) (hms : 1 ≤ ms.toNat) (hle : ms.toNat ≤ 10000) :
    (CutOff (guest.instantiation.run (.new ms)).1 ↔ ms.toNat + 3 ≤ guest.instantiation.ticks) ∧
      (guest.instantiation.run (.new ms)).2.ticks.toNat =
        min guest.instantiation.ticks (ms.toNat + 3) ∧
      (¬CutOff (guest.instantiation.run (.new ms)).1 →
        (guest.instantiation.run (.new ms)).1 = guest.instantiation.ended ∧
          (guest.instantiation.run (.new ms)).2.deadline ≤ 1) := by
  have hlimit := toNat_newLimit hms hle
  have hzero : (Epoch.new ms).ticks.toNat = 0 := rfl
  obtain ⟨hcut, hcount, hend⟩ := guest.instantiation.run_spec (s := .new ms) (Nat.le_refl 1)
    (by omega) (by omega)
  rw [hlimit, hzero] at hcut hcount
  refine ⟨?_, ?_, hend⟩
  · rw [hcut]
    omega
  · rw [hcount]
    omega

/-- The call is cut off at the first tick over `min u 2 + b`, after an instantiation of `u`. -/
theorem call_spec (guest : Guest) (hms : 1 ≤ ms.toNat) (hle : ms.toNat ≤ 10000) {s : Epoch} {u : Nat}
    (hs : s.ticks.toNat = u) (hu : u ≤ ms.toNat + 2) (hdeadline : s.deadline ≤ 1) :
    (CutOff (guest.call.run (s.rebase ms)).1 ↔ min u 2 + ms.toNat < u + guest.call.ticks) ∧
      (guest.call.run (s.rebase ms)).2.ticks.toNat =
        min (u + guest.call.ticks) (min u 2 + ms.toNat + 1) ∧
      (¬CutOff (guest.call.run (s.rebase ms)).1 →
        (guest.call.run (s.rebase ms)).1 = guest.call.ended) := by
  have hlimit := toNat_rebaseLimit s hms hle
  have hticks : (s.rebase ms).ticks.toNat = u := hs
  rw [hs] at hlimit
  obtain ⟨hcut, hcount, hend⟩ := guest.call.run_spec (s := s.rebase ms) hdeadline
    (by omega) (by omega)
  rw [hlimit, hticks] at hcut hcount
  exact ⟨hcut, hcount, fun hnot => (hend hnot).1⟩

/-! ## The whole run -/

/-- How a run ends, by the ticks of its two phases. -/
theorem outcome_spec (guest : Guest) (hms : 1 ≤ ms.toNat) (hle : ms.toNat ≤ 10000) :
    (CutOff (outcome ms guest).1 → ms.toNat + 1 ≤ (outcome ms guest).2.ticks.toNat) ∧
      (outcome ms guest).2.ticks.toNat ≤ ms.toNat + 3 ∧
      (guest.instantiation.ticks ≤ 2 → guest.call.ticks ≤ ms.toNat →
        ¬CutOff (outcome ms guest).1) ∧
      (¬CutOff (outcome ms guest).1 → ∀ e, (outcome ms guest).1 = .error (.error e) →
        e = .other) := by
  obtain ⟨hcut, hcount, hend⟩ := instantiation_spec guest hms hle
  cases hinst : guest.instantiation.run (.new ms) with
  | mk r s =>
    rw [hinst] at hcut hcount hend
    cases r with
    | error e =>
      have houtcome : outcome ms guest = (.error e, s) := by simp only [outcome, hinst]
      rw [houtcome]
      have hcutoff : CutOff (Except.error e : Except Stop (List UInt8)) ↔
          CutOff (Except.error e : Except Stop Unit) := by
        simp only [CutOff, Except.error.injEq]
      rw [hcutoff]
      refine ⟨fun h => ?_, ?_, fun hu _ h => ?_, fun hnot e' he' => ?_⟩
      · have := hcut.1 h
        omega
      · omega
      · have := hcut.1 h
        omega
      · obtain rfl : e = .error e' := Except.error.inj he'
        exact guest.instantiation.own e' (hend hnot).1.symm
    | ok a =>
      have houtcome : outcome ms guest = guest.call.run (s.rebase ms) := by
        simp only [outcome, hinst]
      have hnot : ¬CutOff (Except.ok a : Except Stop Unit) := fun h => by cases h
      have hlt : ¬ms.toNat + 3 ≤ guest.instantiation.ticks := fun h => hnot (hcut.2 h)
      have hticks : s.ticks.toNat = guest.instantiation.ticks := by
        rw [hcount]
        omega
      obtain ⟨hcut', hcount', hend'⟩ := call_spec guest hms hle hticks (by omega)
        (hend hnot).2
      rw [houtcome]
      refine ⟨fun h => ?_, ?_, fun hu hc h => ?_, fun hnot' e he => ?_⟩
      · have := hcut'.1 h
        omega
      · omega
      · have := hcut'.1 h
        omega
      · rw [hend' hnot'] at he
        exact guest.call.own e he

end

/-! ## What the caller sees -/

section
variable {W : Wasm} {cfg : RuntimeConfig} {meter : Bool} {pre : W.HandlerPre}
  {tenant func : Str} {input : List UInt8} {limits : Limits} {guest : Guest} {wallUs : UInt64}

theorem drop_answered {answer : (c : HostCall W) → HostRes c} (done : Bool) :
    (MeterGuard.drop meter done tenant func).answered answer = () := rfl

theorem finish_answered {answer : (c : HostCall W) → HostRes c} {usage : Usage} {ok : Bool} :
    (MeterGuard.finish meter tenant func usage ok).answered answer = () := rfl

/-- What an invocation ends with, when `run` did so and left `ticks` in the counter. -/
def invoked (cfg : RuntimeConfig) (limits : Limits) (ticks wallUs : UInt64) :
    Option Run → Except (Exit InvokeError) Invocation
  | none => .error .dropped
  | some r => (runResult cfg limits ⟨ticks * (EPOCH_TICK_MS * 1000), wallUs, r.memPeak⟩
      r.result).mapError .error

theorem runGuest_answered :
    (runGuest cfg meter pre tenant func input limits).run.answered
        (answers limits.cpuBudgetMs guest wallUs) =
      invoked cfg limits (run limits.cpuBudgetMs guest).2 wallUs
        (run limits.cpuBudgetMs guest).1 := by
  cases hrun : (run limits.cpuBudgetMs guest).1 with
  | none =>
    refine (Prog.answered_bind (a := none) (by exact hrun)).trans ?_
    exact Prog.answered_bind (drop_answered false)
  | some r =>
    refine (Prog.answered_bind (a := some r) (by exact hrun)).trans ?_
    refine (Prog.answered_bind rfl).trans ((Prog.answered_bind rfl).trans ?_)
    exact (Prog.answered_bind finish_answered).trans (Prog.answered_bind (drop_answered true))

theorem classify_cpuBudget {e : WasmError} {limiter : TenantLimiter}
    (h : classify e limiter = .cpuBudget) : e ≠ .other := by
  rintro rfl
  simp only [classify] at h
  split at h <;> cases h

/-- Only the callback makes an invocation exceed its budget. -/
theorem cutOff_of_exceeded (hms : 1 ≤ limits.cpuBudgetMs.toNat)
    (hle : limits.cpuBudgetMs.toNat ≤ 10000) {usage : Usage} {budgetMs : UInt64}
    (h : (runGuest cfg meter pre tenant func input limits).run.answered
      (answers limits.cpuBudgetMs guest wallUs) =
        .error (.error (.cpuBudgetExceeded usage budgetMs))) :
    CutOff (outcome limits.cpuBudgetMs guest).1 ∧
      usage.cpuUs = (outcome limits.cpuBudgetMs guest).2.ticks * (EPOCH_TICK_MS * 1000) := by
  obtain ⟨-, -, -, hown⟩ := outcome_spec guest hms hle
  rw [runGuest_answered] at h
  simp only [run] at h
  cases hout : outcome limits.cpuBudgetMs guest with
  | mk r s =>
    rw [hout] at h hown
    cases r with
    | ok output =>
      simp only [invoked, runResult] at h
      split at h <;> cases h
    | error stop =>
      cases stop with
      | elapsed => cases h
      | dropped => cases h
      | error e =>
        simp only [invoked] at h
        cases hclass : classify e guest.limiter with
        | cpuBudget =>
          simp only [hclass, runResult, Except.mapError] at h
          obtain ⟨rfl, -⟩ := InvokeError.cpuBudgetExceeded.inj (Exit.error.inj (Except.error.inj h))
          refine ⟨?_, rfl⟩
          by_contra hnot
          exact classify_cpuBudget hclass (hown hnot e rfl)
        | memCap capBytes =>
          rw [hclass] at h
          cases h
        | wallClock =>
          rw [hclass] at h
          cases h
        | trap =>
          rw [hclass] at h
          cases h

/-- For a budget of `b` ticks, `u` ticks of instantiation and `c` of the call. -/
theorem cpu_budget_tight (W : Wasm) (cfg : RuntimeConfig) (meter : Bool) (pre : W.HandlerPre)
    (tenant func : Str) (input : List UInt8) (limits : Limits)
    (hlimits : validateCpuBudgetMs (i64OfUsize limits.cpuBudgetMs) = .ok ()) (guest : Guest)
    (wallUs : UInt64) :
    let b := limits.cpuBudgetMs.toNat
    let u := guest.instantiation.ticks
    let c := guest.call.ticks
    let instantiated := guest.instantiation.run (.new limits.cpuBudgetMs)
    let called := guest.call.run (instantiated.2.rebase limits.cpuBudgetMs)
    let invoked := (runGuest cfg meter pre tenant func input limits).run.answered
      (answers limits.cpuBudgetMs guest wallUs)
    -- where the callback traps: at the last tick counted
    (CutOff instantiated.1 ↔ b + 3 ≤ u) ∧
      instantiated.2.ticks.toNat = min u (b + 3) ∧
      (instantiated.1 = .ok () →
        (CutOff called.1 ↔ min u 2 + b < u + c) ∧
          called.2.ticks.toNat = min (u + c) (min u 2 + b + 1)) ∧
      -- what the counter holds at the end
      (run limits.cpuBudgetMs guest).2.toNat ≤ b + 3 ∧
      (∀ usage budgetMs, invoked = .error (.error (.cpuBudgetExceeded usage budgetMs)) →
        b + 1 ≤ (run limits.cpuBudgetMs guest).2.toNat ∧
          1000 * (b + 1) ≤ usage.cpuUs.toNat ∧ usage.cpuUs.toNat ≤ 1000 * (b + 3)) ∧
      (u ≤ 2 → c ≤ b →
        ∀ usage budgetMs, invoked ≠ .error (.error (.cpuBudgetExceeded usage budgetMs))) := by
  obtain ⟨hms, hle⟩ := cpuBudget_of_valid hlimits
  intro b u c instantiated called invoked
  obtain ⟨hcut, hcount, hend⟩ := instantiation_spec guest hms hle
  obtain ⟨hleast, hmost, hnever, -⟩ := outcome_spec guest hms hle
  refine ⟨hcut, hcount, ?_, hmost, ?_, ?_⟩
  · intro hok
    have hnot : ¬CutOff instantiated.1 := by
      rw [hok]
      intro h
      cases h
    have hlt : ¬b + 3 ≤ u := fun h => hnot (hcut.2 h)
    have hticks : instantiated.2.ticks.toNat = u := hcount.trans (by omega)
    obtain ⟨hcut', hcount', -⟩ := call_spec guest hms hle hticks (by omega) (hend hnot).2
    exact ⟨hcut', hcount'⟩
  · intro usage budgetMs hexceeded
    obtain ⟨hcutoff, husage⟩ := cutOff_of_exceeded hms hle hexceeded
    have hcount := hleast hcutoff
    have hus : usage.cpuUs.toNat =
        (outcome limits.cpuBudgetMs guest).2.ticks.toNat * 1000 := by
      have hthousand : (EPOCH_TICK_MS * 1000).toNat = 1000 := rfl
      rw [husage, UInt64.toNat_mul, hthousand, Nat.mod_eq_of_lt (by omega)]
    refine ⟨hcount, ?_, ?_⟩ <;> omega
  · intro hu hc usage budgetMs hexceeded
    exact hnever hu hc (cutOff_of_exceeded hms hle hexceeded).1

end

/-- One tick of instantiation and three of the call, with a budget of one: the third is the last. -/
def overrun : Guest where
  instantiation := ⟨1, .ok (), fun _ h => by cases h⟩
  call := ⟨3, .ok [], fun _ h => by cases h⟩
  limiter := .new (1024 * 1024)

theorem cpu_budget_tight_overrun :
    (runGuest (W := Wasm.plain) ⟨1024 * 1024, 1, 1, 1, 1⟩ false ([] : Bytes) ['t'] ['f'] []
      ⟨1, 1024 * 1024, []⟩).run.answered (answers 1 overrun 5) =
        .error (.error (.cpuBudgetExceeded ⟨3000, 5, 0⟩ 1)) ∧
      (run 1 overrun).2.toNat ≤ 1 + 3 := by
  have htight := cpu_budget_tight Wasm.plain ⟨1024 * 1024, 1, 1, 1, 1⟩ false ([] : Bytes) ['t'] ['f'] []
    ⟨1, 1024 * 1024, []⟩ rfl overrun 5
  exact ⟨rfl, htight.2.2.2.1⟩

end Sandbox

end Warpline
