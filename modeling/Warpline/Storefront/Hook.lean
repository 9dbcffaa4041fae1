import Warpline.Conc.Trace
import Warpline.Core.Egress
import Warpline.Core.Sandbox
import Warpline.Std.Decimal
import Warpline.Std.Percent
import Warpline.Storefront.Checkout

/-!
# A merchant's hook (`storefront/hook/src/lib.rs`)

The guest that decides on an order: a fraud check over `http-out`, and a counter of the customer's
orders in the key-value store. A call that traps is not answered. `Serde` is what is used of
`serde_json`.
-/

set_option autoImplicit false

namespace Warpline

open Conc

namespace Hook

def MAX_RISK_SCORE : UInt64 := 80
def LOYALTY_FROM_ORDER : UInt64 := 3
def LOYALTY_PERCENT : Nat := 10

structure Input where
  customer : Str
  subtotalCents : UInt64
  fraudApi : Str
  deriving DecidableEq, Repr

abbrev Decision := Checkout.Decision

structure Serde where
  input : List UInt8 → Except Str Input
  /-- The `score` of a `Score`. -/
  score : List UInt8 → Except Str UInt64
  toVec : Decision → List UInt8

/-! ## Host calls -/

inductive HookCall
  | fetch (req : HttpOut.Request)
  | kvGet (key : Str)
  | kvPut (key : Str) (value : List UInt8)
  | emit (level message : Str)

abbrev HookRes : HookCall → Type
  | .fetch _ => Except Str HttpOut.Response
  | .kvGet _ => Option (List UInt8)
  | .kvPut _ _ => Unit
  | .emit _ _ => Unit

abbrev HookM := Prog HookCall HookRes

/-! ## The fraud check -/

/-- An RFC 3986 unreserved character. -/
def unreserved (b : UInt8) : Bool :=
  (0x30 ≤ b && b ≤ 0x39) || (0x41 ≤ b && b ≤ 0x5a) || (0x61 ≤ b && b ≤ 0x7a) ||
    b == 0x2d || b == 0x5f || b == 0x2e || b == 0x7e

def percentEncode (s : Str) : Str := Percent.encode unreserved (Str.utf8 s)

/-- `trim_end_matches('/')`. -/
def trimSlashes (s : Str) : Str := s.rdropWhile (· = '/')

def riskUrl (input : Input) : Str :=
  trimSlashes input.fraudApi ++ "/score?customer=".toList ++ percentEncode input.customer

def riskScore (serde : Serde) (input : Input) : HookM (Except Str UInt64) := do
  let resp : Except Str HttpOut.Response ←
    Prog.perform (HookCall.fetch ⟨riskUrl input, "GET".toList, []⟩)
  match resp with
  | .error e => return .error e
  | .ok resp =>
    if resp.status ≠ 200 then
      return .error ("fraud api returned ".toList ++ Nat.toDigits 10 resp.status.toNat)
    else return serde.score resp.body

/-! ## The decision -/

def orderKey (customer : Str) : Str := "orders/".toList ++ customer

/-- The counter in a stored value: `String::from_utf8(v).ok()`, then `parse::<u64>().ok()`. -/
def counterOf (value : List UInt8) : Option UInt64 := (Str.fromUtf8 value).bind Usize.parse

def discountOf (thisOrder subtotalCents : UInt64) : UInt64 :=
  if LOYALTY_FROM_ORDER ≤ thisOrder then
    UInt64.ofNat (subtotalCents.toNat * LOYALTY_PERCENT / 100)
  else 0

def messageOf (note : Option Str) (discount thisOrder : UInt64) : Str :=
  match note with
  | some n => n
  | none =>
    if discount = 0 then "approved".toList
    else "approved: ".toList ++ Nat.toDigits 10 LOYALTY_PERCENT ++ "% loyalty discount (order ".toList ++
      Usize.display thisOrder ++ ")".toList

/-- The loyalty counter; `+` wraps. -/
def approve (input : Input) (note : Option Str) : HookM Decision := do
  let stored : Option (List UInt8) ← Prog.perform (HookCall.kvGet (orderKey input.customer))
  let thisOrder := ((stored.bind counterOf).getD 0) + 1
  let _ ← Prog.perform (HookCall.kvPut (orderKey input.customer) (Str.utf8 (Usize.display thisOrder)))
  let discount := discountOf thisOrder input.subtotalCents
  return ⟨true, discount, messageOf note discount thisOrder⟩

def decide (serde : Serde) (input : Input) : HookM Decision := do
  match ← riskScore serde input with
  | .ok score =>
    if MAX_RISK_SCORE < score then
      return ⟨false, 0, "rejected: risk score ".toList ++ Usize.display score⟩
    else approve input none
  | .error _ => approve input (some "fraud check unavailable".toList)

def logLine (d : Decision) : Str :=
  (if d.approved then "approved=true discount_cents=" else "approved=false discount_cents=").toList ++
    Usize.display d.discountCents ++ " message=".toList ++ d.message

def handle (serde : Serde) (body : List UInt8) : HookM (List UInt8) := do
  let d ← match serde.input body with
    | .ok input => decide serde input
    | .error e => pure ⟨false, 0, "bad hook input: ".toList ++ e⟩
  let _ ← Prog.perform (HookCall.emit "info".toList (logLine d))
  return serde.toVec d

end Hook

/-! ## Invocations of the hook -/

open Hook in
/-- One call of invocation `me`; the fraud service answers `api`. -/
def hookExec {τ : Type} [DecidableEq τ] (me : τ) (api : Except Str HttpOut.Response) (g : Guests τ) :
    (c : HookCall) → Option (HookRes c × Guests τ)
  | .fetch _ => some (api, g)
  | .kvGet key =>
    match g.call (me, .get key) with
    | (.got (.ok value), g') => some (value, g')
    | _ => none
  | .kvPut key value =>
    match g.call (me, .put key value) with
    | (.wrote (.ok ()), g') => some ((), g')
    | _ => none
  | .emit _ _ => some ((), g)

/-- Invocations of hooks, each for its merchant, over one store; guests of other tenants may put
anything of their own. -/
def hookSystem {τ : Type} [DecidableEq τ] (shop : τ → Str) :
    System τ (Guests τ) Hook.HookCall Hook.HookRes where
  exec := fun _ me g c r g' => ∃ api, hookExec me api g c = some (r, g')
  env := fun _ g g' => ∃ tenant key value, (∀ t, shop t ≠ tenant) ∧
    g' = { g with kv := (g.kv.put tenant key value).2 }

end Warpline
