import Warpline.Core.Invoke

/-!
# The CPU budget of one run (`sandbox.rs`: `run`)

A run has two phases, instantiation and the call of `handle`. While a phase runs, epoch ticks reach
the deadline of its store; each of them runs the callback that counts it and ends the phase once the
limit is passed. The guest is a black box: how many ticks each phase would take, and how it
would end by itself.
-/

set_option autoImplicit false

namespace Warpline

open Conc

namespace Sandbox

def INSTANTIATE_GRACE_TICKS : UInt64 := 2

def callLimit (ticksUsedByInstantiation budgetTicks : UInt64) : UInt64 :=
  Usize.saturatingAdd (min ticksUsedByInstantiation INSTANTIATE_GRACE_TICKS) budgetTicks

/-! ## The deadline of a store -/

/-- The errors of an instantiate or a call that `classify` tells apart. -/
inductive WasmError
  | cpuBudgetExceededMarker
  /-- `Trap::Interrupt`. -/
  | interrupt
  | other
  deriving DecidableEq, Repr

inductive UpdateDeadline
  | yield (delta : Nat)

/-- The two atomics that the callback shares with `run`, and the number of ticks until the deadline
of the store. -/
structure Epoch where
  ticks : UInt64
  limit : UInt64
  deadline : Nat
  deriving DecidableEq, Repr

namespace Epoch

/-- The closure given to `epoch_deadline_callback`. -/
def callback (s : Epoch) : Except WasmError UpdateDeadline × Epoch :=
  let n := s.ticks + 1
  (if s.limit < n then .error .cpuBudgetExceededMarker else .ok (.yield 1), { s with ticks := n })

/-- A tick of the engine while the store runs. -/
def tick (s : Epoch) : Except WasmError Unit × Epoch :=
  if 1 < s.deadline then (.ok (), { s with deadline := s.deadline - 1 })
  else match s.callback with
    | (.error e, s) => (.error e, s)
    | (.ok (.yield delta), s) => (.ok (), { s with deadline := delta })

end Epoch

/-! ## The phases -/

/-- What ends a phase early. -/
inductive Stop
  | error (e : WasmError)
  /-- The wall-clock timeout. -/
  | elapsed
  | dropped
  deriving DecidableEq, Repr

/-- A phase of the guest. Nothing but the deadline of the store interrupts it. -/
structure Phase (α : Type) where
  ticks : Nat
  ended : Except Stop α
  own : ∀ e, ended = .error (.error e) → e = .other

/-- `n` ticks, and then the end: the first error is what ends the phase. -/
def ticksThen {α : Type} (ended : Except Stop α) : Nat → Epoch → Except Stop α × Epoch
  | 0, s => (ended, s)
  | n + 1, s =>
    match s.tick with
    | (.error e, s) => (.error (.error e), s)
    | (.ok _, s) => ticksThen ended n s

def Phase.run {α : Type} (p : Phase α) (s : Epoch) : Except Stop α × Epoch :=
  ticksThen p.ended p.ticks s

structure Guest where
  instantiation : Phase Unit
  call : Phase (List UInt8)
  /-- The limiter, as the guest leaves it. -/
  limiter : TenantLimiter

def classify (e : WasmError) (limiter : TenantLimiter) : Failure :=
  match e with
  | .cpuBudgetExceededMarker | .interrupt => .cpuBudget
  | .other => if limiter.capHit then .memCap limiter.memCapBytes else .trap

/-! ## The run -/

def budgetTicks (cpuBudgetMs : UInt64) : UInt64 := max (cpuBudgetMs / EPOCH_TICK_MS) 1

/-- The store before instantiation. -/
def Epoch.new (cpuBudgetMs : UInt64) : Epoch where
  ticks := 0
  limit := Usize.saturatingAdd (budgetTicks cpuBudgetMs) INSTANTIATE_GRACE_TICKS
  deadline := 1

/-- `limit.store`, between the two phases. -/
def Epoch.rebase (s : Epoch) (cpuBudgetMs : UInt64) : Epoch :=
  { s with limit := callLimit s.ticks (budgetTicks cpuBudgetMs) }

/-- What `instantiate_async` and `call_handle` end with, and the ticks counted by then. -/
def outcome (cpuBudgetMs : UInt64) (guest : Guest) : Except Stop (List UInt8) × Epoch :=
  match guest.instantiation.run (.new cpuBudgetMs) with
  | (.error e, s) => (.error e, s)
  | (.ok _, s) => guest.call.run (s.rebase cpuBudgetMs)

/-- `run`, with the number of ticks it leaves in its caller's counter; `none` when the future is
dropped. -/
def run (cpuBudgetMs : UInt64) (guest : Guest) : Option Run × UInt64 :=
  let (outcome, s) := outcome cpuBudgetMs guest
  let run := match outcome with
    | .ok output => some ⟨.ok output, guest.limiter.peakBytes⟩
    | .error (.error e) => some ⟨.error (classify e guest.limiter), guest.limiter.peakBytes⟩
    | .error .elapsed => some ⟨.error .wallClock, 0⟩
    | .error .dropped => none
  (run, s.ticks)

/-- The answers that the caller of `run` gets from it, from the counter and from its clock. -/
def answers {W : Wasm} (cpuBudgetMs : UInt64) (guest : Guest) (wallUs : UInt64) :
    (c : HostCall W) → HostRes c
  | .run _ _ _ _ _ => (run cpuBudgetMs guest).1
  | .loadTicks => (run cpuBudgetMs guest).2
  | .elapsed => wallUs
  | .acquireSlot _ => false
  | .tryAcquireMany _ => false
  | .acquirePermit => none
  | .spawnBlocking _ _ => (0 : Nat)
  | .join _ _ => none
  | .dropSlot _ | .releaseMany _ | .record _ _ _ _ => ()

end Sandbox

end Warpline
