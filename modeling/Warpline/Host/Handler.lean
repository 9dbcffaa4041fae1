import Warpline.Control.Gate
import Warpline.Core.Invoke

/-!
# The invocation server (`host/src/lib.rs`)

`invoke_handler` as a program over the calls of the authenticator and those of the runtime, which is
the service behind it. `Handled` is the reply, with the label under which the invocation is counted,
if it is (`warpline_invoke_total`).
-/

set_option autoImplicit false

namespace Warpline

open Conc

/-! ## Texts and labels -/

def InvokeError.httpStatus : InvokeError → UInt16
  | .invalidName | .invalidLimits _ => 400
  | .notFound => 404
  | .overloaded => 503
  | .tenantBusy => 429
  | .cpuBudgetExceeded _ _ | .wallClockTimeout _ => 408
  | .memoryCapExceeded _ _ => 507
  | .outputTooLarge _ _ => 502
  | .guestTrap _ | .load _ => 500

def outcomeLabel : Except InvokeError Invocation → Str
  | .ok _ => "ok".toList
  | .error .invalidName => "invalid_name".toList
  | .error .notFound => "not_found".toList
  | .error .overloaded => "overloaded".toList
  | .error .tenantBusy => "tenant_busy".toList
  | .error (.cpuBudgetExceeded _ _) => "cpu_budget_exceeded".toList
  | .error (.memoryCapExceeded _ _) => "memory_cap_exceeded".toList
  | .error (.wallClockTimeout _) => "wall_clock_timeout".toList
  | .error (.outputTooLarge _ _) => "output_too_large".toList
  | .error (.guestTrap _) => "guest_trap".toList
  | .error (.load _) => "load_error".toList
  | .error (.invalidLimits _) => "error".toList

/-- The body of a failed invocation's reply. -/
def InvokeError.body (tenant func : Str) : InvokeError → Str
  | .notFound => "no module for ".toList ++ tenant ++ "/".toList ++ func
  | .guestTrap _ => "guest trapped".toList
  | .load _ => "failed to load module".toList
  | .invalidName => "invalid tenant or function name".toList
  | .invalidLimits e => "invalid limits: ".toList ++ e.display
  | .overloaded => "host is at capacity".toList
  | .tenantBusy => "tenant has too many invocations in flight".toList
  | .cpuBudgetExceeded _ budgetMs =>
    "cpu budget exceeded (".toList ++ Usize.display budgetMs ++ " ms)".toList
  | .memoryCapExceeded usage capBytes =>
    "memory cap exceeded (peak ".toList ++ Usize.display usage.memPeakBytes ++ " bytes, cap ".toList ++
      Usize.display capBytes ++ " bytes)".toList
  | .wallClockTimeout _ => "wall-clock timeout".toList
  | .outputTooLarge _ limit =>
    "output exceeds the ".toList ++ Usize.display limit ++ " byte limit".toList

/-! ## The handler -/

structure InvokeRequest where
  tenant : Str
  func : Str
  headers : Headers
  body : List UInt8

/-- What the handler reads of the `AppState`; `auth` is the TTL of the authenticator, if there is
one. -/
structure AppState where
  cfg : RuntimeConfig
  meter : Bool
  auth : Option Nat

structure Handled where
  reply : HttpReply
  counted : Option Str

abbrev InvokeM (W : Wasm) := GateM (HostRes (W := W))

section
variable {W : Wasm}

/-- A reply before anything is invoked. -/
def Handled.early (status : UInt16) (text : String) : Handled := ⟨⟨status, .text text.toList⟩, none⟩

def invokeReply (req : InvokeRequest) : Except InvokeError Invocation → Handled
  | .ok outcome => ⟨⟨200, .bytes outcome.output⟩, some (outcomeLabel (.ok outcome))⟩
  | .error e =>
    ⟨⟨e.httpStatus, .text (e.body req.tenant req.func)⟩, some (outcomeLabel (.error e))⟩

/-- From the invocation on; a dropped future has no reply. -/
def invokeAs (state : AppState) (req : InvokeRequest) (limits : Limits) : InvokeM W (Option Handled) := do
  let result : Except (Exit InvokeError) Invocation ←
    (invoke state.cfg state.meter req.tenant req.func req.body limits).run.inr
  match result with
  | .ok outcome => return some (invokeReply req (.ok outcome))
  | .error (.error e) => return some (invokeReply req (.error e))
  | .error .dropped => return none

def invokeHandler (digest : Bytes → Str) (state : AppState) (req : InvokeRequest) :
    InvokeM W (Option Handled) :=
  if !validName req.tenant || !validName req.func then
    return some (.early 400 "invalid tenant or function name")
  else do
    match ← authOutcome digest state.auth req.tenant (bearerFrom req.headers) with
    | .ok (.authorized limits) => invokeAs state req limits
    | .ok .wrongTenant => return some (.early 403 "forbidden")
    | .ok .missingOrUnknownKey => return some (.early 401 "unauthorized")
    | .error _ => return some (.early 503 "auth unavailable")

/-- The runtime behind the handler. -/
def hostService (τ : Type) [DecidableEq τ] (cfg : RuntimeConfig) (threads : Nat) :
    Service τ (Host W τ) (HostRes (W := W)) HostChoice (HostEvent W τ) where
  exec := fun ch me host c => hostExec cfg me ch host c
  env := fun pend host e => hostEnv threads pend host e
  refresh := fun _ host => host

end

end Warpline
