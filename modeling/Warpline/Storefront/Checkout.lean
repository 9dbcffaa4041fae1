import Warpline.Conc.Prog
import Warpline.Core.Error

/-!
# Checkout (`storefront/app/src/checkout.rs`, `lib.rs`)

The price of an order, what the app does with a hook's answer or failure, and the handler of
`POST /shops/{merchant}/checkout` over its two calls: the merchant's stored limits and the
invocation of its hook. `Serde` is what is used of `serde_json`; texts that only go to the
operator's log are as the code makes them, but for the display of an `InvokeError`.
-/

set_option autoImplicit false

namespace Warpline

open Conc

namespace Checkout

def HOOK_FN : Str := ['c', 'h', 'e', 'c', 'k', 'o', 'u', 't']
def MAX_OUTPUT_BYTES : Nat := 64 * 1024
def MAX_MESSAGE_CHARS : Nat := 200
def MAX_ITEMS : Nat := 100
def MAX_CENTS : UInt64 := 1000000000000

/-! ## Orders -/

structure Item where
  sku : Str
  qty : UInt32
  unitCents : UInt64
  deriving DecidableEq, Repr

structure Order where
  customer : Str
  items : List Item
  deriving DecidableEq, Repr

/-- One turn of the loop in `subtotal`. -/
def addItem (total : UInt64) (item : Item) : Except String UInt64 :=
  if item.sku = [] ∨ 64 < item.sku.length then throw "sku must be 1-64 characters"
  else if item.qty = 0 then throw "qty must be at least 1"
  else if MAX_CENTS < item.unitCents then throw "unit_cents is too large"
  else
    match Usize.checkedMul item.unitCents item.qty.toUInt64 with
    | none => throw "order total is too large"
    | some line =>
      match Usize.checkedAdd total line with
      | none => throw "order total is too large"
      | some total => if MAX_CENTS < total then throw "order total is too large" else pure total

def Order.subtotal (order : Order) : Except String UInt64 :=
  if order.customer = [] ∨ 100 < order.customer.length then
    throw "customer must be 1-100 characters"
  else if order.items = [] ∨ MAX_ITEMS < order.items.length then
    throw "items must have 1-100 entries"
  else order.items.foldlM addItem 0

/-! ## The hook's answer -/

structure HookInput where
  customer : Str
  items : List Item
  subtotalCents : UInt64
  fraudApi : Str
  deriving DecidableEq, Repr

structure Decision where
  approved : Bool
  discountCents : UInt64
  message : Str
  deriving DecidableEq, Repr

/-- `serde_json`, for the types of this crate. -/
structure Serde where
  toVec : HookInput → Except String (List UInt8)
  fromSlice : List UInt8 → Except String Decision

def parseDecision (serde : Serde) (output : List UInt8) (subtotalCents : UInt64) :
    Except String Decision :=
  if MAX_OUTPUT_BYTES < output.length then
    throw ("output is " ++ toString output.length ++ " bytes, max " ++ toString MAX_OUTPUT_BYTES)
  else
    match serde.fromSlice output with
    | .error e => throw ("bad shape: " ++ e)
    | .ok d =>
      if subtotalCents < d.discountCents then
        throw ("discount " ++ toString d.discountCents ++ " exceeds subtotal " ++
          toString subtotalCents)
      else if MAX_MESSAGE_CHARS < d.message.length then
        throw ("message longer than " ++ toString MAX_MESSAGE_CHARS ++ " characters")
      else pure d

/-- What the app does with the result of an invocation. -/
inductive Verdict
  | hook (d : Decision)
  | noHook
  | failOpen (why : String)
  | retry
  deriving DecidableEq, Repr

def resolve (serde : Serde) (display : InvokeError → String)
    (result : Except InvokeError (List UInt8)) (subtotalCents : UInt64) : Verdict :=
  match result with
  | .ok output =>
    match parseDecision serde output subtotalCents with
    | .ok d => .hook d
    | .error why => .failOpen ("invalid hook output: " ++ why)
  | .error .notFound => .noHook
  | .error .overloaded => .retry
  | .error .tenantBusy => .retry
  | .error e => .failOpen (display e)

/-! ## The handler -/

inductive CheckoutCall
  /-- `pg::tenant_limits`. -/
  | tenantLimits (merchant : Str)
  /-- `runtime.invoke(..).map(|inv| inv.output)`. -/
  | invoke (merchant func : Str) (input : List UInt8) (limits : Limits)

abbrev CheckoutRes : CheckoutCall → Type
  | .tenantLimits _ => Except String (Option Limits)
  | .invoke _ _ _ _ => Except InvokeError (List UInt8)

structure Outcome where
  approved : Bool
  subtotalCents : UInt64
  discountCents : UInt64
  totalCents : UInt64
  message : Str
  hook : String
  deriving DecidableEq, Repr

inductive Response
  | error (status : Nat) (text : String) (retryAfter : Option String)
  | ok (outcome : Outcome)
  deriving DecidableEq, Repr

/-- The response to a verdict; `-` wraps. -/
def respond (subtotal : UInt64) : Verdict → Response
  | .hook d => .ok ⟨d.approved, subtotal, d.discountCents, subtotal - d.discountCents, d.message, "ok"⟩
  | .noHook => .ok ⟨true, subtotal, 0, subtotal - 0, "approved".toList, "none"⟩
  | .failOpen _ => .ok ⟨true, subtotal, 0, subtotal - 0, "approved".toList, "failed"⟩
  | .retry => .error 503 "busy, retry shortly" (some "1")

/-- A failed read of the limits is treated like a failed hook. -/
def checkout (serde : Serde) (display : InvokeError → String) (fraudApi merchant : Str)
    (order : Order) : Prog CheckoutCall CheckoutRes Response :=
  match order.subtotal with
  | .error msg => return .error 400 msg none
  | .ok subtotal => do
    let limits : Except String (Option Limits) ← Prog.perform (CheckoutCall.tenantLimits merchant)
    match limits with
    | .ok none => return .error 404 "unknown merchant" none
    | .ok (some limits) =>
      match serde.toVec ⟨order.customer, order.items, subtotal, fraudApi⟩ with
      | .error e => return .error 500 e none
      | .ok input => do
        let result ← Prog.perform (CheckoutCall.invoke merchant HOOK_FN input limits)
        return respond subtotal (resolve serde display result subtotal)
    | .error e =>
      match serde.toVec ⟨order.customer, order.items, subtotal, fraudApi⟩ with
      | .error e => return .error 500 e none
      | .ok _ => return respond subtotal (.failOpen ("merchant limits unavailable: " ++ e))

end Checkout

end Warpline
