import Warpline.Core.Host

/-!
# Invoking a function (`runtime.rs`: `Runtime::invoke`, `Runtime::stage`)

An invocation as a program over the calls of `Core/Host.lean`. It ends with an output, with an
error, or, at any of its `.await`s, because its future was dropped; a guard's destructor runs on
every one of these ways (`Prog.guarded`).
-/

set_option autoImplicit false

namespace Warpline

open Conc

/-- Why a future ends without a value. -/
inductive Exit (ε : Type)
  | error (e : ε)
  | dropped
  deriving DecidableEq, Repr

structure Invocation where
  output : List UInt8
  usage : Usage
  deriving DecidableEq, Repr

section
variable {W : Wasm}

abbrev HostM (W : Wasm) := Prog (HostCall W) HostRes

/-- `call.await`. -/
def await {ε α : Type} (call : HostM W (Option α)) : ExceptT (Exit ε) (HostM W) α :=
  ExceptT.mk do
    match ← call with
    | some a => return .ok a
    | none => return .error .dropped

/-- `compile_slots.acquire_owned().await`. -/
def acquirePermit {ε : Type} : ExceptT (Exit ε) (HostM W) Unit :=
  await (Prog.perform (HostCall.acquirePermit : HostCall W))

/-- `spawn_blocking(task).await`. -/
def spawnBlocking {ε : Type} (task : Task) (permit : Bool) :
    ExceptT (Exit ε) (HostM W) (Except JoinError (task.Out W)) := do
  let handle : Nat ← (Prog.perform (HostCall.spawnBlocking task permit : HostCall W) : HostM W _)
  await (Prog.perform (HostCall.join handle task : HostCall W))

def loadTicks : HostM W UInt64 := Prog.perform (HostCall.loadTicks : HostCall W)

def elapsed : HostM W UInt64 := Prog.perform (HostCall.elapsed : HostCall W)

def record (tenant func : Str) (usage : Usage) (ok : Bool) : HostM W Unit :=
  Prog.perform (HostCall.record tenant func usage ok : HostCall W)

/-! ## The guard of the meter -/

def EPOCH_TICK_MS : UInt64 := 1

/-- `MeterGuard::finish`, and from then on the guard is done. -/
def MeterGuard.finish (meter : Bool) (tenant func : Str) (usage : Usage) (ok : Bool) :
    HostM W Unit :=
  if meter then record tenant func usage ok else pure ()

/-- `Drop for MeterGuard`. -/
def MeterGuard.drop (meter done : Bool) (tenant func : Str) : HostM W Unit :=
  if done then pure ()
  else if meter then do
    let ticks ← loadTicks
    let wallUs ← elapsed
    record tenant func ⟨ticks * (EPOCH_TICK_MS * 1000), wallUs, 0⟩ false
  else pure ()

/-! ## The steps of `invoke` -/

def validateLimits (l : Limits) : Except ConfigError Unit := do
  validateCpuBudgetMs (i64OfUsize l.cpuBudgetMs)
  validateMemCapBytes (i64OfUsize l.memCapBytes)

/-- `usize::div_ceil`. -/
def divCeil (a b : Usize) : Usize := if a % b = 0 then a / b else a / b + 1

/-- The permits an invocation needs, if the budget has as many. -/
def admissionWeight (cfg : RuntimeConfig) (limits : Limits) : Option UInt32 :=
  let weight := max (divCeil limits.memCapBytes MIB) 1
  -- `u32::try_from`
  if weight.toNat < 2 ^ 32 then
    if weight ≤ cfg.memoryBudgetBytes / MIB then some weight.toUInt32 else none
  else none

/-- The errors of a load: of the task itself, and of the blocking thread. -/
def loadResult {α : Type} (what : String) :
    Except JoinError (Except Error α) → ExceptT (Exit InvokeError) (HostM W) α
  | .error e => throw (.error (.load (.internal (what ++ e.msg))))
  | .ok (.error e) => throw (.error (.load e))
  | .ok (.ok a) => pure a

def loadPre (tenant func : Str) : ExceptT (Exit InvokeError) (HostM W) W.HandlerPre := do
  let lookup ← loadResult "resolve task failed: " (← spawnBlocking (.lookup tenant func) false)
  match lookup with
  | .notFound => throw (.error .notFound)
  | .hit pre => pure pre
  | .miss digest =>
    let loaded ← loadResult "load task failed: " (← spawnBlocking (.loadExisting digest) false)
    match loaded with
    | .ready pre => pure pre
    | .needsCompile =>
      acquirePermit
      loadResult "recompile task failed: " (← spawnBlocking (.getOrLoad digest) true)

def runResult (cfg : RuntimeConfig) (limits : Limits) (usage : Usage) :
    Except Sandbox.Failure (List UInt8) → Except InvokeError Invocation
  | .ok output =>
    if cfg.maxOutputBytes.toNat < output.length then .error (.outputTooLarge usage cfg.maxOutputBytes)
    else .ok ⟨output, usage⟩
  | .error .cpuBudget => .error (.cpuBudgetExceeded usage limits.cpuBudgetMs)
  | .error (.memCap capBytes) => .error (.memoryCapExceeded usage capBytes)
  | .error .wallClock => .error (.wallClockTimeout usage)
  | .error .trap => .error (.guestTrap usage)

/-- The guest's run, under the guard of the meter. -/
def runGuest (cfg : RuntimeConfig) (meter : Bool) (pre : W.HandlerPre) (tenant func : Str)
    (input : List UInt8) (limits : Limits) : ExceptT (Exit InvokeError) (HostM W) Invocation :=
  ExceptT.mk do
    let run : Option Sandbox.Run ← Prog.perform (HostCall.run pre tenant func input limits)
    match run with
    | none =>
      MeterGuard.drop meter false tenant func
      return .error .dropped
    | some run =>
      let ticks ← loadTicks
      let wallUs ← elapsed
      let usage : Usage := ⟨ticks * (EPOCH_TICK_MS * 1000), wallUs, run.memPeak⟩
      let result := runResult cfg limits usage run.result
      MeterGuard.finish meter tenant func usage result.toBool
      MeterGuard.drop meter true tenant func
      return result.mapError .error

def invoke (cfg : RuntimeConfig) (meter : Bool) (tenant func : Str) (input : List UInt8)
    (limits : Limits) : ExceptT (Exit InvokeError) (HostM W) Invocation :=
  if !validName tenant || !validName func then throw (.error .invalidName)
  else match validateLimits limits with
  | .error e => throw (.error (.invalidLimits e))
  | .ok _ => do
    let slot : Bool ← (Prog.perform (HostCall.acquireSlot tenant : HostCall W) : HostM W _)
    if !slot then throw (.error .tenantBusy)
    else Prog.guarded (Prog.perform (HostCall.dropSlot tenant)) do
      match admissionWeight cfg limits with
      | none => throw (.error .overloaded)
      | some weight =>
        let admission : Bool ←
          (Prog.perform (HostCall.tryAcquireMany weight : HostCall W) : HostM W _)
        if !admission then throw (.error .overloaded)
        else Prog.guarded (Prog.perform (HostCall.releaseMany weight)) do
          let pre ← loadPre tenant func
          runGuest cfg meter pre tenant func input limits

/-- `stage`, whose work is a task of the pool. -/
def stageTask (wasm : Bytes) : ExceptT (Exit PublishError) (HostM W) Staged := do
  acquirePermit
  match ← spawnBlocking (.stage wasm) true with
  | .error e => throw (.error (.registry (.internal ("stage task failed: " ++ e.msg))))
  | .ok (.error e) => throw (.error e)
  | .ok (.ok staged) => pure staged

/-! ## Any number of calls -/

inductive HostOp
  | invoke (tenant func : Str) (input : List UInt8) (limits : Limits)
  | stage (wasm : Bytes)

inductive HostOut
  | invoked (r : Except (Exit InvokeError) Invocation)
  | staged (r : Except (Exit PublishError) Staged)

def HostOp.run (cfg : RuntimeConfig) (meter : Bool) : HostOp → HostM W HostOut
  | .invoke tenant func input limits => do
    let r ← (Warpline.invoke cfg meter tenant func input limits).run
    return .invoked r
  | .stage wasm => do
    let r ← (stageTask wasm).run
    return .staged r

end

end Warpline
