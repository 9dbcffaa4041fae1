import Warpline.Core.Types
import Warpline.Fs.Exec

/-!
# Errors and usage (`error.rs`, `meter.rs`)
-/

set_option autoImplicit false

namespace Warpline

/-- What one invocation used. -/
structure Usage where
  cpuUs : UInt64
  wallUs : UInt64
  memPeakBytes : Usize
  deriving DecidableEq, Repr

inductive Error
  | io (e : Fs.IoError)
  | wasmtime
  | corrupt (msg : String)
  | notFound (msg : String)
  | config (msg : String)
  | internal (msg : String)
  deriving DecidableEq, Repr

inductive PublishError
  | invalidName
  | compile
  | importMismatch
  | io (e : Fs.IoError)
  | registry (e : Error)
  deriving DecidableEq, Repr

/-- The payload of a trap is left out, like that of `Error.wasmtime`. -/
inductive InvokeError
  | invalidName
  | notFound
  | invalidLimits (e : ConfigError)
  | overloaded
  | tenantBusy
  | cpuBudgetExceeded (usage : Usage) (budgetMs : UInt64)
  | memoryCapExceeded (usage : Usage) (capBytes : Usize)
  | wallClockTimeout (usage : Usage)
  | outputTooLarge (usage : Usage) (limit : Usize)
  | guestTrap (usage : Usage)
  | load (e : Error)
  deriving DecidableEq, Repr

/-- What the guest used before failing; `none` when it never ran. -/
def InvokeError.usage : InvokeError → Option Usage
  | .cpuBudgetExceeded usage _ => some usage
  | .memoryCapExceeded usage _ => some usage
  | .wallClockTimeout usage => some usage
  | .outputTooLarge usage _ => some usage
  | .guestTrap usage => some usage
  | _ => none

end Warpline
