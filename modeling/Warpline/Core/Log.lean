import Warpline.Std.Str

/-!
# The log of one invocation (`sandbox.rs`: `log`)

The fields of `HostCtx` that serve `log::emit`, and what a call sends to the subscriber of the log.
-/

set_option autoImplicit false

namespace Warpline

def MAX_LOG_MSG_BYTES : Nat := 4 * 1024
def MAX_LOG_LINES_PER_INVOCATION : Nat := 100
def MAX_LOG_BYTES_PER_INVOCATION : Nat := 64 * 1024

/-- The last character boundary of `s` at or before byte `n`. -/
def floorBoundary (s : Str) : Nat → Nat
  | 0 => 0
  | n + 1 => if Str.isCharBoundary s (n + 1) then n + 1 else floorBoundary s n

def truncateUtf8 (s : Str) (maxBytes : Nat) : Str :=
  if Str.utf8Len s ≤ maxBytes then s else Str.sliceTo s (floorBoundary s maxBytes)

inductive LogLevel
  | trace
  | debug
  | info
  | warn
  | error
  deriving DecidableEq, Repr

/-- Unknown levels are `info`. -/
def LogLevel.ofStr (level : Str) : LogLevel :=
  -- `to_ascii_lowercase`
  let level := String.ofList (level.map Char.toLower)
  if level = "trace" then .trace
  else if level = "debug" then .debug
  else if level = "warn" ∨ level = "warning" then .warn
  else if level = "error" then .error
  else .info

inductive LogEvent
  | guestLog (level : LogLevel) (tenant func msg : Str)
  /-- `log output suppressed: per-invocation limit exceeded`, a warning. -/
  | suppressed (tenant func : Str)
  deriving DecidableEq, Repr

structure HostLog where
  tenantId : Str
  fnName : Str
  logLineCount : Nat
  logBytes : Nat
  logSuppressedNotified : Bool
  deriving DecidableEq, Repr

namespace HostLog

def new (tenantId fnName : Str) : HostLog := ⟨tenantId, fnName, 0, 0, false⟩

/-- Whether a cap has been reached. -/
def exhausted (ctx : HostLog) : Bool :=
  MAX_LOG_LINES_PER_INVOCATION ≤ ctx.logLineCount || MAX_LOG_BYTES_PER_INVOCATION ≤ ctx.logBytes

/-- `emit` of the guest, with the events it sends. An error would trap the guest. -/
def emit {ε : Type} (ctx : HostLog) (level msg : Str) :
    Except ε Unit × List LogEvent × HostLog :=
  if ctx.exhausted then
    if ctx.logSuppressedNotified then (.ok (), [], ctx)
    else (.ok (), [.suppressed ctx.tenantId ctx.fnName], { ctx with logSuppressedNotified := true })
  else
    let msg := truncateUtf8 msg MAX_LOG_MSG_BYTES
    (.ok (), [.guestLog (.ofStr level) ctx.tenantId ctx.fnName msg],
      { ctx with
        logLineCount := ctx.logLineCount + 1
        logBytes := ctx.logBytes + Str.utf8Len msg })

/-- The calls of one guest, level and message: their results, and all that was sent. -/
def emits {ε : Type} (ctx : HostLog) :
    List (Str × Str) → List (Except ε Unit) × List LogEvent × HostLog
  | [] => ([], [], ctx)
  | (level, msg) :: calls =>
    let (r, events, ctx) := ctx.emit level msg
    let (rs, events', ctx) := ctx.emits calls
    (r :: rs, events ++ events', ctx)

end HostLog

end Warpline
