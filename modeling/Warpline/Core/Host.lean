import Warpline.Conc.Trace
import Warpline.Core.ComponentCache
import Warpline.Core.Runtime
import Warpline.Std.BlockingPool

/-!
# What the calls of one runtime share (`runtime.rs`: `Inner`)

The in-flight counters, the two semaphores, tokio's blocking pool and the tick counters of the
running guests. A call below is one atomic step of an `invoke` or a `stage`; those that are an
`.await` in the source are answered `none` when the future is dropped there.

The jobs of the pool are black boxes: a job may end with any result of its type. The semaphores are
never closed.
-/

set_option autoImplicit false

namespace Warpline

open Conc

def MIB : Usize := 1024 * 1024

structure RuntimeConfig where
  memoryBudgetBytes : Usize
  maxInFlightPerTenant : Usize
  maxOutputBytes : Usize
  componentCacheEntries : Usize
  compileConcurrency : Usize
  deriving DecidableEq, Repr

/-! ## The blocking pool -/

inductive Task
  | lookup (tenant func : Str)
  | loadExisting (digest : Str)
  | getOrLoad (digest : Str)
  | stage (wasm : Bytes)
  deriving DecidableEq

/-- The tasks that may compile a component. -/
def Task.compiles : Task → Bool
  | .lookup _ _ | .loadExisting _ => false
  | .getOrLoad _ | .stage _ => true

def Task.Out (W : Wasm) : Task → Type
  | .lookup _ _ => Except Error (Lookup W.HandlerPre)
  | .loadExisting _ => Except Error (Loaded W.HandlerPre)
  | .getOrLoad _ => Except Error W.HandlerPre
  | .stage _ => Except PublishError Staged

/-- A job that panicked. -/
structure JoinError where
  msg : String
  deriving DecidableEq, Repr

/-- A task on the pool, with the compile permit it has been moved, if any. -/
structure Job where
  task : Task
  permit : Bool
  deriving DecidableEq

abbrev Job.Out (W : Wasm) (j : Job) : Type := Except JoinError (j.task.Out W)

/-! ## The guest -/

namespace Sandbox

inductive Failure
  | cpuBudget
  | memCap (capBytes : Usize)
  | wallClock
  | trap
  deriving DecidableEq, Repr

/-- What `sandbox::run` returns. -/
structure Run where
  result : Except Failure (List UInt8)
  memPeak : Usize

end Sandbox

/-! ## The shared state -/

structure Host (W : Wasm) (τ : Type) where
  inFlight : Str → Option Usize
  /-- Permits are MiB of guest memory. -/
  admission : Nat
  compileSlots : Nat
  pool : BlockingPool Job (Job.Out W)
  ticks : τ → UInt64

/-- The checks of `RuntimeBuilder::build` on the config, and the state they lead to. -/
def build (W : Wasm) (τ : Type) (cfg : RuntimeConfig) : Except Error (Host W τ) :=
  if cfg.memoryBudgetBytes < MIB then
    .error (.config "memory_budget_bytes must be at least 1 MiB")
  else if cfg.maxInFlightPerTenant = 0 then
    .error (.config "max_in_flight_per_tenant must be at least 1")
  else if cfg.componentCacheEntries = 0 then
    .error (.config "component_cache_entries must be at least 1")
  else if cfg.compileConcurrency = 0 then
    .error (.config "compile_concurrency must be at least 1")
  else .ok {
    inFlight := fun _ => none
    admission := (cfg.memoryBudgetBytes / MIB).toNat
    compileSlots := cfg.compileConcurrency.toNat
    pool := .new
    ticks := fun _ => 0 }

namespace TenantSlot

/-- `TenantSlot::acquire`: whether there is a slot, and the map it leaves. -/
def acquire (max : Usize) (tenant : Str) (map : Str → Option Usize) :
    Bool × (Str → Option Usize) :=
  match map tenant with
  | some n =>
    if max ≤ n then (false, map) else (true, Function.update map tenant (some (n + 1)))
  | none => (true, Function.update map tenant (some 1))

/-- `Drop for TenantSlot`. -/
def drop (tenant : Str) (map : Str → Option Usize) : Str → Option Usize :=
  match map tenant with
  | some n => Function.update map tenant (if n - 1 = 0 then none else some (n - 1))
  | none => map

end TenantSlot

/-! ## The calls -/

inductive HostCall (W : Wasm)
  | acquireSlot (tenant : Str)
  | dropSlot (tenant : Str)
  | tryAcquireMany (n : UInt32)
  | releaseMany (n : UInt32)
  | acquirePermit
  | spawnBlocking (task : Task) (permit : Bool)
  | join (handle : Nat) (task : Task)
  | run (pre : W.HandlerPre) (tenant func : Str) (input : List UInt8) (limits : Limits)
  | loadTicks
  | elapsed
  | record (tenant func : Str) (usage : Usage) (ok : Bool)

def HostRes {W : Wasm} : HostCall W → Type
  | .acquireSlot _ => Bool
  | .dropSlot _ => Unit
  | .tryAcquireMany _ => Bool
  | .releaseMany _ => Unit
  | .acquirePermit => Option Unit
  | .spawnBlocking _ _ => Nat
  | .join _ task => Option (Except JoinError (task.Out W))
  | .run _ _ _ _ _ => Option Sandbox.Run
  | .loadTicks => UInt64
  | .elapsed => UInt64
  | .record _ _ _ _ => Unit

/-- What a step leaves open. -/
structure HostChoice where
  dropped : Bool
  run : Sandbox.Run
  elapsed : UInt64

section
variable {W : Wasm} {τ : Type} [DecidableEq τ]

/-- One call of `me`. An `.await` that has to wait has no answer yet. -/
def hostExec (cfg : RuntimeConfig) (me : τ) (ch : HostChoice) (s : Host W τ) :
    (c : HostCall W) → Option (HostRes c × Host W τ)
  | .acquireSlot tenant =>
    let q := TenantSlot.acquire cfg.maxInFlightPerTenant tenant s.inFlight
    some (q.1, { s with inFlight := q.2 })
  | .dropSlot tenant => some ((), { s with inFlight := TenantSlot.drop tenant s.inFlight })
  | .tryAcquireMany n =>
    if n.toNat ≤ s.admission then some (true, { s with admission := s.admission - n.toNat })
    else some (false, s)
  | .releaseMany n => some ((), { s with admission := s.admission + n.toNat })
  | .acquirePermit =>
    if ch.dropped then some (none, s)
    else if 0 < s.compileSlots then
      some (some (), { s with compileSlots := s.compileSlots - 1 })
    else none
  | .spawnBlocking task permit =>
    let q := s.pool.spawn ⟨task, permit⟩
    some (q.1, { s with pool := q.2 })
  | .join handle task =>
    if ch.dropped then some (none, s)
    else match s.pool.done handle with
      | some ⟨j, r⟩ => if h : j.task = task then some (some (h ▸ r), s) else none
      | none => none
  | .run _ _ _ _ _ => some (if ch.dropped then none else some ch.run, s)
  | .loadTicks => some (s.ticks me, s)
  | .elapsed => some (ch.elapsed, s)
  | .record _ _ _ _ => some ((), s)

/-- What happens beside the calls: jobs get a thread and end, and a running guest's ticks are
counted. -/
inductive HostEvent (W : Wasm) (τ : Type)
  | start
  | finish (i : Nat) (result : (j : Job) → j.Out W)
  | tick (t : τ)

def hostEnv (threads : Nat) (pend : τ → Option (HostCall W)) (s : Host W τ) :
    HostEvent W τ → Option (Host W τ)
  | .start => (s.pool.start threads).map fun pool => { s with pool }
  | .finish i result => (s.pool.finish i result).map fun q => { s with
      pool := q.2
      -- `_permit` is dropped with the closure
      compileSlots := if q.1.permit then s.compileSlots + 1 else s.compileSlots }
  | .tick t =>
    match pend t with
    | some (.run _ _ _ _ _) =>
      some { s with ticks := Function.update s.ticks t (s.ticks t + 1) }
    | _ => none

/-- The calls of one runtime over a pool of `threads` threads. -/
def hostSystem (W : Wasm) (cfg : RuntimeConfig) (threads : Nat) :
    System τ (Host W τ) (HostCall W) HostRes where
  exec := fun _ t s c r s' => ∃ ch, hostExec cfg t ch s c = some (r, s')
  env := fun pend s s' => ∃ e, hostEnv threads pend s e = some s'

end

end Warpline
