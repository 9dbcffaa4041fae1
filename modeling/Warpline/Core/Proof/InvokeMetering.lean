import Warpline.Core.Proof.InvokeSteps

/-!
# An invocation is metered once, if its guest was started

What an invocation tells the meter is read off its own calls (`Final`). `TicksInv` adds what the
counter of its guest says: it counts while the guest runs and stands still from then on.
`metered_once` is the result for every run.
-/

set_option autoImplicit false

namespace Warpline

open Conc

section
variable {W : Wasm} {τ : Type} [DecidableEq τ]

/-- What a call has told the meter. -/
def recorded (h : HostCalls W) : List MeterRecord := h.filterMap fun q => recordEvent q.1 q.2

/-- Its guest was started. -/
def guestStarted (h : HostCalls W) : Bool := h.any fun q => startedEvent q.1 q.2

theorem ledger_records (h : HostCalls W) : (callLedger h).records = recorded h := by
  induction h with
  | nil => rfl
  | cons q h ih =>
    rw [recorded, List.filterMap_cons]
    show (recordEvent q.1 q.2).toList ++ (callLedger h).records = _
    rw [ih]
    cases recordEvent q.1 q.2 <;> rfl

theorem ledger_started (h : HostCalls W) : (callLedger h).started = guestStarted h := by
  induction h with
  | nil => rfl
  | cons q h ih =>
    rw [guestStarted, List.any_cons]
    show (startedEvent q.1 q.2 || (callLedger h).started) = _
    rw [ih]
    rfl

/-- A call's own record tells what it has metered. -/
structure TicksInv (s : HostState W τ) : Prop where
  /-- The ticks read last are those that were counted. -/
  read : ∀ t n, (callLedger (s.trace.of t)).ticks = some n →
    (callLedger (s.trace.of t)).started = true ∧ s.state.ticks t = n
  once : ∀ t, (callLedger (s.trace.of t)).records.length ≤ 1
  started : ∀ t, (callLedger (s.trace.of t)).records ≠ [] → (callLedger (s.trace.of t)).started = true

variable {cfg : RuntimeConfig} {meter : Bool} {threads : Nat} {ops : τ → HostOp} {s₀ : Host W τ}
  {C : HostConfig W τ} {t : τ}

/-! ## What calls may do -/

section
variable {op : HostOp} {L : CallLedger}

theorem allows_run {pre : W.HandlerPre} {tenant func : Str} {input : List UInt8} {limits : Limits}
    (h : Allows cfg op L (.run pre tenant func input limits)) : L.started = false := by
  cases op with
  | invoke =>
    obtain ⟨-, -, -, permit, served, -, hL⟩ := h
    exact hL.started
  | stage => exact h.elim

theorem allows_loadTicks (h : Allows cfg op L (.loadTicks : HostCall W)) : L.started = true := by
  cases op with
  | invoke => exact h.started
  | stage => exact h.elim

theorem allows_record {tenant func : Str} {usage : Usage} {ok : Bool}
    (h : Allows cfg op L (.record tenant func usage ok : HostCall W)) :
    L.started = true ∧ L.records = [] := by
  cases op with
  | invoke => exact ⟨h.2.2.1.started, h.2.2.2⟩
  | stage => exact h.elim

end

/-! ## Every step -/

omit [DecidableEq τ] in
theorem hostExec_ticks {ch : HostChoice} {s s' : Host W τ} {c : HostCall W} {r : HostRes c}
    (h : hostExec cfg t ch s c = some (r, s')) : s'.ticks = s.ticks := by
  cases c
  all_goals
    simp only [hostExec] at h
    repeat' split at h
  all_goals first | cases h; rfl | cases h

theorem hostEnv_ticks {pend : τ → Option (HostCall W)} {s s' : Host W τ} {e : HostEvent W τ}
    (h : hostEnv threads pend s e = some s') (hne : s'.ticks t ≠ s.ticks t) :
    ∃ pre tenant func input limits, pend t = some (.run pre tenant func input limits) := by
  cases e with
  | start | finish =>
    obtain ⟨q, -, rfl⟩ := Option.map_eq_some_iff.1 h
    exact absurd rfl hne
  | tick u =>
    simp only [hostEnv] at h
    split at h
    · rename_i pre tenant func input limits hu
      have hs := Option.some.inj h
      by_cases htu : t = u
      · exact ⟨pre, tenant, func, input, limits, htu ▸ hu⟩
      · rw [← hs] at hne
        exact absurd (Function.update_of_ne htu _ _) hne
    · cases h

/-- What a call of the thread itself does to its ledger. -/
theorem TicksInv.own {s s' : HostState W τ} {c : HostCall W} {r : HostRes c} {ch : HostChoice}
    (hs : TicksInv s) (ha : Allows cfg (ops t) (callLedger (s.trace.of t)) c)
    (hx : hostExec cfg t ch s.state c = some (r, s'.state)) :
    (∀ n, ((callLedger (s.trace.of t)).step c r).ticks = some n →
      ((callLedger (s.trace.of t)).step c r).started = true ∧ s'.state.ticks t = n) ∧
    ((callLedger (s.trace.of t)).step c r).records.length ≤ 1 ∧
    (((callLedger (s.trace.of t)).step c r).records ≠ [] →
      ((callLedger (s.trace.of t)).step c r).started = true) := by
  have hread := hs.read t
  have honce := hs.once t
  have hstarted := hs.started t
  rw [hostExec_ticks hx]
  cases c with
  | run => exact ⟨fun n hn => ⟨rfl, (hread n hn).2⟩, honce, fun _ => rfl⟩
  | loadTicks =>
    have hst := allows_loadTicks ha
    refine ⟨fun n hn => ⟨hst, ?_⟩, honce, hstarted⟩
    cases hn
    exact (Prod.mk.inj (Option.some.inj hx)).1
  | record =>
    obtain ⟨hst, hnil⟩ := allows_record ha
    refine ⟨hread, ?_, fun _ => hst⟩
    show ([_] ++ (callLedger (s.trace.of t)).records).length ≤ 1
    rw [hnil]
    exact Nat.le_refl 1
  | _ => exact ⟨hread, honce, hstarted⟩

theorem ticksInv_step {s s' : HostState W τ} {c : HostCall W} {r : HostRes c} {ch : HostChoice}
    (hs : TicksInv s) (ha : Allows cfg (ops t) (callLedger (s.trace.of t)) c)
    (hx : hostExec cfg t ch s.state c = some (r, s'.state)) (htr : s'.trace = (t, ⟨c, r⟩) :: s.trace) :
    TicksInv s' := by
  obtain ⟨hread, honce, hstarted⟩ := hs.own ha hx
  have hof (u : τ) : (t = u ∧ callLedger (s'.trace.of u) = (callLedger (s.trace.of t)).step c r) ∨
      callLedger (s'.trace.of u) = callLedger (s.trace.of u) := by
    rw [htr]
    by_cases hu : t = u
    · subst hu
      exact .inl ⟨rfl, by rw [Trace.of_cons_self]; rfl⟩
    · exact .inr (by rw [Trace.of_cons_ne hu])
  refine ⟨fun u n hn => ?_, fun u => ?_, fun u hu => ?_⟩
  · obtain ⟨rfl, heq⟩ | heq := hof u
    · rw [heq] at hn ⊢
      exact hread n hn
    · rw [heq] at hn ⊢
      rw [hostExec_ticks hx]
      exact hs.read u n hn
  · obtain ⟨rfl, heq⟩ | heq := hof u
    · rw [heq]
      exact honce
    · rw [heq]
      exact hs.once u
  · obtain ⟨rfl, heq⟩ | heq := hof u
    · rw [heq] at hu ⊢
      exact hstarted hu
    · rw [heq] at hu ⊢
      exact hs.started u hu

theorem ticksInv_reach
    (hr : Reach (hostSystem W cfg threads).traced (hostStart cfg meter ops s₀) C) :
    TicksInv C.shared := by
  refine host_keeps hr ⟨fun t n h => ?_, fun t => Nat.zero_le 1, fun t h => absurd rfl h⟩
    (fun t c r s s' ch hs ha hx htr => ticksInv_step hs ha hx htr)
    fun pend s s' e hs hallows hx htr => ?_
  · cases h
  · refine ⟨fun t n hn => ?_, fun t => ?_, fun t ht => ?_⟩
    · rw [htr] at hn ⊢
      obtain ⟨hst, hticks⟩ := hs.read t n hn
      refine ⟨hst, ?_⟩
      by_contra hne
      -- only the counter of a guest that has not started is changed
      obtain ⟨pre, tenant, func, input, limits, hp⟩ := hostEnv_ticks hx fun h => hne (h.trans hticks)
      rw [allows_run (hallows t _ hp)] at hst
      cases hst
    · rw [htr]
      exact hs.once t
    · rw [htr] at ht ⊢
      exact hs.started t ht

/-! ## Every run -/

/-- The usage and the flag of the record of a call that ended with `out`. -/
def Reports (usage : Usage) (ok : Bool) (ticks : UInt64) :
    Except (Exit InvokeError) Invocation → Prop
  | .ok inv => inv.usage = usage ∧ ok = true
  | .error (.error e) => e.usage = some usage ∧ ok = false
  | .error .dropped => ok = false ∧ usage.cpuUs = 1000 * ticks

/-- The metering of a run's calls: at most one record for each, none before its guest has started, and
exactly one of a call that has run and ended. -/
structure MeteredOnce (ops : τ → HostOp) (C : HostConfig W τ) : Prop where
  /-- At any time, also of calls that have not ended. -/
  atMostOnce : ∀ t, (recorded (C.shared.trace.of t)).length ≤ 1 ∧
    (recorded (C.shared.trace.of t) ≠ [] → guestStarted (C.shared.trace.of t) = true)
  unstarted : ∀ t tenant func input limits out, ops t = .invoke tenant func input limits →
    C.prog t = .ret (.invoked out) → guestStarted (C.shared.trace.of t) = false →
    recorded (C.shared.trace.of t) = [] ∧ (∀ inv, out ≠ .ok inv) ∧
      ∀ e, out = .error (.error e) → e.usage = none
  started : ∀ t tenant func input limits out, ops t = .invoke tenant func input limits →
    C.prog t = .ret (.invoked out) → guestStarted (C.shared.trace.of t) = true →
    ∃ usage ok, recorded (C.shared.trace.of t) = [⟨tenant, func, usage, ok⟩] ∧
      Reports usage ok (C.shared.state.ticks t) out

theorem metered_once (W : Wasm) (cfg : RuntimeConfig) (threads : Nat) (ops : τ → HostOp)
    (s₀ : Host W τ) {C : HostConfig W τ}
    (hr : Reach (hostSystem W cfg threads).traced (hostStart cfg true ops s₀) C) :
    MeteredOnce ops C := by
  have hinv := ticksInv_reach hr
  refine ⟨fun t => ?_, fun t tenant func input limits out hop hret hst => ?_,
    fun t tenant func input limits out hop hret hst => ?_⟩
  · rw [← ledger_records, ← ledger_started]
    exact ⟨hinv.once t, hinv.started t⟩
  · have hf := host_final hr hret
    rw [hop] at hf
    rw [← ledger_started] at hst
    rw [← ledger_records]
    exact hf.meter.before hst
  · have hf := host_final hr hret
    rw [hop] at hf
    rw [← ledger_started] at hst
    obtain ⟨usage, ok, hrec, hout⟩ := hf.meter.after hst rfl
    rw [ledger_records] at hrec
    refine ⟨usage, ok, hrec, ?_⟩
    rcases out with (e | _) | inv
    · exact hout
    · obtain ⟨hok, n, hn, hcpu⟩ := hout
      refine ⟨hok, ?_⟩
      rw [hcpu, (hinv.read t n hn).2, UInt64.mul_comm]
    · exact hout

end

/-- An invocation that is dropped after its guest has run for one tick. -/
def droppedRun : List ((Bool × HostChoice) ⊕ HostEvent Wasm.plain Bool) :=
  [.inl (false, .go), .inl (false, .go), .inl (false, .go), .inr .start, .inr (.finish 0 hitResult),
    .inl (false, .go), .inr (.tick false), .inl (false, .drop), .inl (false, .go), .inl (false, .go),
    .inl (false, .go), .inl (false, .go), .inl (false, .go)]

theorem metered_once_dropped : ∃ C : HostConfig Wasm.plain Bool,
    (recorded (C.shared.trace.of false) == [⟨['t'], ['f'], ⟨1000, 0, 0⟩, false⟩]) = true ∧
      MeteredOnce twoInvokes C := by
  have hrun : (hostPlay (smallRuntime 1) 1 (hostStart (smallRuntime 1) true twoInvokes smallHost)
      droppedRun).any (fun C => recorded (C.shared.trace.of false) ==
        [⟨['t'], ['f'], ⟨1000, 0, 0⟩, false⟩]) = true := by
    decide +kernel
  rw [Option.any_eq_true] at hrun
  obtain ⟨C, hplay, hC⟩ := hrun
  exact ⟨C, hC, metered_once Wasm.plain (smallRuntime 1) 1 twoInvokes smallHost
    (hostPlay_reach hplay)⟩

end Warpline
