import Warpline.Storefront.Checkout

/-!
# What a checkout comes to

`Order.Acceptable`: what an order has to be, in whole numbers. `subtotal` accepts exactly these,
with the exact total (`subtotal_eq_ok`). For every answer of the database and of the runtime, the
response is then what the policy promises (`checkout_policy`): the amounts add up, only a vetted
answer of the merchant's own hook turns an order down or discounts it, and a failure of the hook
costs no sale.
-/

set_option autoImplicit false

namespace Warpline

open Conc

namespace Checkout

/-! ## The price of an order -/

/-- What the code accepts as an item. -/
structure Item.Acceptable (item : Item) : Prop where
  sku : item.sku ≠ [] ∧ item.sku.length ≤ 64
  qty : item.qty ≠ 0
  unitCents : item.unitCents ≤ MAX_CENTS

def Item.line (item : Item) : Nat := item.unitCents.toNat * item.qty.toNat

def Order.total (order : Order) : Nat := (order.items.map Item.line).sum

/-- What the code accepts as an order. -/
structure Order.Acceptable (order : Order) : Prop where
  customer : order.customer ≠ [] ∧ order.customer.length ≤ 100
  items : order.items ≠ [] ∧ order.items.length ≤ MAX_ITEMS
  item : ∀ item ∈ order.items, item.Acceptable
  total : order.total ≤ MAX_CENTS.toNat

theorem maxCents_lt : MAX_CENTS.toNat < 2 ^ 64 := MAX_CENTS.toNat_lt

/-- One item: accepted exactly if it is well formed and the new total is within bounds. -/
theorem addItem_eq_ok {total total' : UInt64} {item : Item} :
    addItem total item = .ok total' ↔
      item.Acceptable ∧ total'.toNat = total.toNat + item.line ∧ total' ≤ MAX_CENTS := by
  have hqty : item.qty.toUInt64.toNat = item.qty.toNat := rfl
  have hmax := maxCents_lt
  unfold addItem Item.line
  constructor
  · intro h
    split at h
    · cases h
    rename_i hsku
    split at h
    · cases h
    rename_i hq
    split at h
    · cases h
    rename_i hu
    split at h
    · cases h
    rename_i line hline
    split at h
    · cases h
    rename_i sum hsum
    split at h
    · cases h
    rename_i hle
    cases h
    rw [Usize.checkedMul_eq_some, hqty] at hline
    rw [Usize.checkedAdd_eq_some, hline] at hsum
    simp only [not_or, not_lt] at hsku
    exact ⟨⟨hsku, hq, UInt64.not_lt.1 hu⟩, hsum, UInt64.not_lt.1 hle⟩
  · rintro ⟨⟨hsku, hq, hu⟩, hsum, hle⟩
    have hbound : total.toNat + item.unitCents.toNat * item.qty.toNat ≤ MAX_CENTS.toNat := by
      rw [← hsum]
      exact UInt64.le_iff_toNat_le.1 hle
    have hsku' : ¬(item.sku = [] ∨ 64 < item.sku.length) := by
      rw [not_or, not_lt]
      exact hsku
    have hline : Usize.checkedMul item.unitCents item.qty.toUInt64 =
        some (item.unitCents * item.qty.toUInt64) := by
      unfold Usize.checkedMul
      rw [hqty, if_pos (by omega)]
    have hlineNat := Usize.checkedMul_eq_some.1 hline
    rw [hqty] at hlineNat
    have hadd : Usize.checkedAdd total (item.unitCents * item.qty.toUInt64) = some total' := by
      rw [Usize.checkedAdd_eq_some, hlineNat, hsum]
    rw [if_neg hsku', if_neg hq, if_neg (UInt64.not_lt.2 hu), hline]
    simp only [hadd, if_neg (UInt64.not_lt.2 hle)]
    rfl

/-- The loop: every partial total is within bounds if the last one is. -/
theorem addItems_eq_ok {items : List Item} {total total' : UInt64} (h : total ≤ MAX_CENTS) :
    items.foldlM addItem total = .ok total' ↔ (∀ item ∈ items, item.Acceptable) ∧
      total'.toNat = total.toNat + (items.map Item.line).sum ∧ total' ≤ MAX_CENTS := by
  induction items generalizing total with
  | nil =>
    simp only [List.foldlM_nil, pure, Except.pure, Except.ok.injEq, List.not_mem_nil,
      false_implies, implies_true, List.map_nil, List.sum_nil, Nat.add_zero, true_and]
    constructor
    · rintro rfl
      exact ⟨rfl, h⟩
    · rintro ⟨ht, -⟩
      exact (UInt64.toNat_inj.1 ht).symm
  | cons item items ih =>
    rw [List.foldlM_cons]
    simp only [List.forall_mem_cons, List.map_cons, List.sum_cons]
    constructor
    · intro hok
      cases hi : addItem total item with
      | error e =>
        rw [hi] at hok
        cases hok
      | ok mid =>
        rw [hi] at hok
        obtain ⟨hitem, hsum, hle⟩ := addItem_eq_ok.1 hi
        obtain ⟨hitems, hsum', hle'⟩ := (ih hle).1 hok
        exact ⟨⟨hitem, hitems⟩, by omega, hle'⟩
    · rintro ⟨⟨hitem, hitems⟩, hsum, hle⟩
      have hle' := UInt64.le_iff_toNat_le.1 hle
      have hmax := maxCents_lt
      have hmid : (UInt64.ofNat (total.toNat + item.line)).toNat = total.toNat + item.line :=
        Nat.mod_eq_of_lt (by omega)
      have hmidle : UInt64.ofNat (total.toNat + item.line) ≤ MAX_CENTS := by
        rw [UInt64.le_iff_toNat_le, hmid]
        omega
      rw [addItem_eq_ok.2 ⟨hitem, hmid, hmidle⟩]
      exact (ih hmidle).2 ⟨hitems, by omega, hle⟩

/-- **An order is accepted exactly when it is acceptable**, at its exact total. -/
theorem subtotal_eq_ok {order : Order} {subtotal : UInt64} :
    order.subtotal = .ok subtotal ↔ order.Acceptable ∧ subtotal.toNat = order.total := by
  unfold Order.subtotal
  constructor
  · intro h
    split at h
    · cases h
    rename_i hc
    split at h
    · cases h
    rename_i hi
    obtain ⟨hitems, hsum, hle⟩ := (addItems_eq_ok (by decide)).1 h
    have hsum : subtotal.toNat = order.total := by simpa [Order.total] using hsum
    simp only [not_or, not_lt] at hc hi
    refine ⟨⟨hc, hi, hitems, ?_⟩, hsum⟩
    rw [← hsum]
    exact UInt64.le_iff_toNat_le.1 hle
  · rintro ⟨⟨hc, hi, hitems, htotal⟩, hsum⟩
    have hc' : ¬(order.customer = [] ∨ 100 < order.customer.length) := by
      rw [not_or, not_lt]
      exact hc
    have hi' : ¬(order.items = [] ∨ MAX_ITEMS < order.items.length) := by
      rw [not_or, not_lt]
      exact hi
    rw [if_neg hc', if_neg hi']
    refine (addItems_eq_ok (by decide)).2 ⟨hitems, ?_, ?_⟩
    · simpa [Order.total] using hsum
    · rw [UInt64.le_iff_toNat_le, hsum]
      exact htotal

theorem acceptable_iff {order : Order} :
    order.Acceptable ↔ ∃ subtotal, order.subtotal = .ok subtotal := by
  constructor
  · intro h
    have hlt : order.total < 2 ^ 64 := Nat.lt_of_le_of_lt h.total maxCents_lt
    exact ⟨UInt64.ofNat order.total, subtotal_eq_ok.2 ⟨h, Nat.mod_eq_of_lt hlt⟩⟩
  · rintro ⟨s, hs⟩
    exact (subtotal_eq_ok.1 hs).1

/-! ## The hook's answer -/

/-- An answer the app lets through. -/
structure Vetted (serde : Serde) (output : List UInt8) (subtotal : UInt64) (d : Decision) : Prop where
  size : output.length ≤ MAX_OUTPUT_BYTES
  shape : serde.fromSlice output = .ok d
  discount : d.discountCents ≤ subtotal
  message : d.message.length ≤ MAX_MESSAGE_CHARS

theorem parseDecision_eq_ok {serde : Serde} {output : List UInt8} {subtotal : UInt64}
    {d : Decision} : parseDecision serde output subtotal = .ok d ↔ Vetted serde output subtotal d := by
  unfold parseDecision
  constructor
  · intro h
    split at h
    · cases h
    rename_i hlen
    split at h
    · cases h
    rename_i d' hd
    split at h
    · cases h
    rename_i hdisc
    split at h
    · cases h
    rename_i hmsg
    cases h
    exact ⟨Nat.not_lt.1 hlen, hd, UInt64.not_lt.1 hdisc, Nat.not_lt.1 hmsg⟩
  · rintro ⟨hlen, hd, hdisc, hmsg⟩
    rw [if_neg (Nat.not_lt.2 hlen), hd]
    simp only [if_neg (UInt64.not_lt.2 hdisc), if_neg (Nat.not_lt.2 hmsg)]
    rfl

/-- The runtime has no room for the invocation right now. -/
def Busy (result : Except InvokeError (List UInt8)) : Prop :=
  result = .error .overloaded ∨ result = .error .tenantBusy

/-- A verdict: retry when busy, a vetted answer as it is, and else no discount. -/
theorem respond_resolve (serde : Serde) (display : InvokeError → String)
    (result : Except InvokeError (List UInt8)) (subtotal : UInt64) :
    (Busy result ∧ respond subtotal (resolve serde display result subtotal) =
        .error 503 "busy, retry shortly" (some "1")) ∨
      (¬ Busy result ∧ ∃ output d, result = .ok output ∧ Vetted serde output subtotal d ∧
        respond subtotal (resolve serde display result subtotal) =
          .ok ⟨d.approved, subtotal, d.discountCents, subtotal - d.discountCents, d.message, "ok"⟩) ∨
      (¬ Busy result ∧ ∃ hook, respond subtotal (resolve serde display result subtotal) =
        .ok ⟨true, subtotal, 0, subtotal - 0, "approved".toList, hook⟩) := by
  unfold resolve Busy
  cases result with
  | ok output =>
    refine .inr ?_
    cases hp : parseDecision serde output subtotal with
    | ok d => exact .inl ⟨by simp, output, d, rfl, parseDecision_eq_ok.1 hp, by simp [respond, hp]⟩
    | error why => exact .inr ⟨by simp, "failed", by simp [respond, hp]⟩
  | error e =>
    cases e with
    | overloaded => exact .inl ⟨.inl rfl, rfl⟩
    | tenantBusy => exact .inl ⟨.inr rfl, rfl⟩
    | notFound => exact .inr (.inr ⟨by simp, "none", rfl⟩)
    | _ => exact .inr (.inr ⟨by simp, "failed", rfl⟩)

/-! ## The handler -/

section
variable (serde : Serde) (display : InvokeError → String) (fraudApi merchant : Str) (order : Order)
  (ans : (c : CheckoutCall) → CheckoutRes c)

/-- What the hook is given for an order. -/
def Order.hookInput (order : Order) (fraudApi : Str) (subtotal : UInt64) : HookInput :=
  ⟨order.customer, order.items, subtotal, fraudApi⟩

/-- The hook of the merchant is run on the order, under the merchant's stored limits. -/
def Invoked (subtotal : UInt64) (result : Except InvokeError (List UInt8)) : Prop :=
  ∃ limits input, ans (.tenantLimits merchant) = .ok (some limits) ∧
    serde.toVec (order.hookInput fraudApi subtotal) = .ok input ∧
    ans (.invoke merchant HOOK_FN input limits) = result

variable {serde display fraudApi merchant order ans}

/-- The ways a checkout can go. -/
inductive Gone (serde : Serde) (display : InvokeError → String) (fraudApi merchant : Str)
    (order : Order) (ans : (c : CheckoutCall) → CheckoutRes c) : Response → List CheckoutCall → Prop
  | unacceptable (msg : String) : ¬ order.Acceptable → Gone serde display fraudApi merchant order ans
      (.error 400 msg none) []
  | unknown : order.Acceptable → ans (.tenantLimits merchant) = .ok none →
      Gone serde display fraudApi merchant order ans (.error 404 "unknown merchant" none)
        [.tenantLimits merchant]
  | unserialised {subtotal : UInt64} (e : String) : order.Acceptable →
      subtotal.toNat = order.total → ans (.tenantLimits merchant) ≠ .ok none →
      serde.toVec (order.hookInput fraudApi subtotal) = .error e →
      Gone serde display fraudApi merchant order ans (.error 500 e none) [.tenantLimits merchant]
  | unread {subtotal : UInt64} {input : List UInt8} (e : String) : order.Acceptable →
      subtotal.toNat = order.total → ans (.tenantLimits merchant) = .error e →
      serde.toVec (order.hookInput fraudApi subtotal) = .ok input →
      Gone serde display fraudApi merchant order ans
        (.ok ⟨true, subtotal, 0, subtotal - 0, "approved".toList, "failed"⟩) [.tenantLimits merchant]
  | invoked {subtotal : UInt64} {limits : Limits} {input : List UInt8} : order.Acceptable →
      subtotal.toNat = order.total → ans (.tenantLimits merchant) = .ok (some limits) →
      serde.toVec (order.hookInput fraudApi subtotal) = .ok input →
      Gone serde display fraudApi merchant order ans
        (respond subtotal
          (resolve serde display (ans (.invoke merchant HOOK_FN input limits)) subtotal))
        [.tenantLimits merchant, .invoke merchant HOOK_FN input limits]

theorem checkout_gone : Gone serde display fraudApi merchant order ans
    ((checkout serde display fraudApi merchant order).answered ans)
    ((checkout serde display fraudApi merchant order).made ans) := by
  unfold checkout
  cases hs : order.subtotal with
  | error msg =>
    refine .unacceptable msg fun h => ?_
    obtain ⟨s, hok⟩ := acceptable_iff.1 h
    rw [hs] at hok
    cases hok
  | ok subtotal =>
    obtain ⟨hacc, htotal⟩ := subtotal_eq_ok.1 hs
    simp only [Prog.perform_bind, Prog.answered_call, Prog.made_call]
    cases hl : ans (.tenantLimits merchant) with
    | error e =>
      cases hv : serde.toVec (order.hookInput fraudApi subtotal) with
      | error e' =>
        rw [Order.hookInput] at hv
        simp only [hv]
        exact .unserialised e' hacc htotal (by simp [hl]) hv
      | ok input =>
        rw [Order.hookInput] at hv
        simp only [hv]
        exact .unread e hacc htotal hl hv
    | ok found =>
      cases found with
      | none => exact .unknown hacc hl
      | some limits =>
        cases hv : serde.toVec (order.hookInput fraudApi subtotal) with
        | error e' =>
          rw [Order.hookInput] at hv
          simp only [hv]
          exact .unserialised e' hacc htotal (by simp [hl]) hv
        | ok input =>
          rw [Order.hookInput] at hv
          simp only [hv]
          exact .invoked hacc htotal hl hv

/-- What an outcome says about the order and about the hook. -/
structure Outcome.Right (serde : Serde) (fraudApi merchant : Str) (order : Order)
    (ans : (c : CheckoutCall) → CheckoutRes c) (o : Outcome) : Prop where
  subtotal : o.subtotalCents.toNat = order.total
  total : o.totalCents.toNat + o.discountCents.toNat = order.total
  /-- Only the merchant's hook turns an order down or discounts it, by an answer that is let through. -/
  hook : o.approved = false ∨ o.discountCents ≠ 0 → ∃ output,
    Invoked serde fraudApi merchant order ans o.subtotalCents (.ok output) ∧
      Vetted serde output o.subtotalCents ⟨o.approved, o.discountCents, o.message⟩

theorem Outcome.Right.undiscounted {subtotal : UInt64} (h : subtotal.toNat = order.total)
    (message : Str) (hook : String) :
    Outcome.Right serde fraudApi merchant order ans
      ⟨true, subtotal, 0, subtotal - 0, message, hook⟩ := by
  refine ⟨h, ?_, ?_⟩
  · simp [h]
  · simp

theorem Outcome.Right.vetted {subtotal : UInt64} {output : List UInt8} {d : Decision}
    (h : subtotal.toNat = order.total)
    (hi : Invoked serde fraudApi merchant order ans subtotal (.ok output))
    (hv : Vetted serde output subtotal d) (hook : String) :
    Outcome.Right serde fraudApi merchant order ans
      ⟨d.approved, subtotal, d.discountCents, subtotal - d.discountCents, d.message, hook⟩ := by
  refine ⟨h, ?_, fun _ => ⟨output, hi, hv⟩⟩
  have hle := UInt64.le_iff_toNat_le.1 hv.discount
  simp only [UInt64.toNat_sub_of_le _ _ hv.discount]
  omega

theorem Gone.right {out : Response} {calls : List CheckoutCall}
    (h : Gone serde display fraudApi merchant order ans out calls) {o : Outcome} (ho : out = .ok o) :
    Outcome.Right serde fraudApi merchant order ans o := by
  cases h with
  | unacceptable | unknown | unserialised => cases ho
  | unread e hacc htotal hl hv =>
    cases ho
    exact .undiscounted htotal _ _
  | @invoked subtotal limits input hacc htotal hl hv =>
    obtain ⟨-, heq⟩ | ⟨-, output, d, hr, hvet, heq⟩ | ⟨-, hook, heq⟩ := respond_resolve serde display
      (ans (.invoke merchant HOOK_FN input limits)) subtotal
    · rw [heq] at ho
      cases ho
    · rw [heq] at ho
      cases ho
      exact .vetted htotal ⟨limits, input, hl, hv, hr⟩ hvet _
    · rw [heq] at ho
      cases ho
      exact .undiscounted htotal _ _

/-- An acceptable order of a known merchant that can be serialised. -/
structure Sellable (serde : Serde) (fraudApi merchant : Str) (order : Order)
    (ans : (c : CheckoutCall) → CheckoutRes c) : Prop where
  acceptable : order.Acceptable
  known : ans (.tenantLimits merchant) ≠ .ok none
  input : ∀ subtotal, ∃ input, serde.toVec (order.hookInput fraudApi subtotal) = .ok input

/-- Orders are refused as such without a call. -/
theorem Gone.refused {out : Response} {calls : List CheckoutCall}
    (h : Gone serde display fraudApi merchant order ans out calls) :
    (∃ msg, out = .error 400 msg none) ∧ calls = [] ∧ ¬ order.Acceptable ∨
      (∀ msg, out ≠ .error 400 msg none) ∧ order.Acceptable := by
  cases h with
  | unacceptable msg hn => exact .inl ⟨⟨msg, rfl⟩, rfl, hn⟩
  | unknown hacc => exact .inr ⟨by simp, hacc⟩
  | unserialised e hacc => exact .inr ⟨by simp, hacc⟩
  | unread e hacc => exact .inr ⟨by simp, hacc⟩
  | @invoked subtotal limits input hacc htotal hl hv =>
    refine .inr ⟨fun msg => ?_, hacc⟩
    obtain ⟨-, heq⟩ | ⟨-, output, d, -, -, heq⟩ | ⟨-, hook, heq⟩ := respond_resolve serde display
      (ans (.invoke merchant HOOK_FN input limits)) subtotal <;>
      simp [heq]

theorem Gone.sold {out : Response} {calls : List CheckoutCall}
    (h : Gone serde display fraudApi merchant order ans out calls)
    (hs : Sellable serde fraudApi merchant order ans) :
    (∃ o, out = .ok o) ∨ out = .error 503 "busy, retry shortly" (some "1") ∧
      ∃ subtotal result, Busy result ∧ Invoked serde fraudApi merchant order ans subtotal result := by
  cases h with
  | unacceptable msg hn => exact absurd hs.acceptable hn
  | unknown hacc hl => exact absurd hl hs.known
  | @unserialised subtotal e hacc htotal hl hv =>
    obtain ⟨input, hi⟩ := hs.input subtotal
    rw [hv] at hi
    cases hi
  | unread => exact .inl ⟨_, rfl⟩
  | @invoked subtotal limits input hacc htotal hl hv =>
    obtain ⟨hb, heq⟩ | ⟨-, output, d, -, -, heq⟩ | ⟨-, hook, heq⟩ := respond_resolve serde display
      (ans (.invoke merchant HOOK_FN input limits)) subtotal
    · exact .inr ⟨heq, subtotal, _, hb, limits, input, hl, hv, rfl⟩
    · exact .inl ⟨_, heq⟩
    · exact .inl ⟨_, heq⟩

/-- The hook runs at most once, after its merchant's limits were read, and under them. -/
theorem Gone.calls {out : Response} {calls : List CheckoutCall}
    (h : Gone serde display fraudApi merchant order ans out calls) :
    calls = [] ∧ ¬ order.Acceptable ∨ calls = [.tenantLimits merchant] ∨
      ∃ limits input, ans (.tenantLimits merchant) = .ok (some limits) ∧
        calls = [.tenantLimits merchant, .invoke merchant HOOK_FN input limits] := by
  cases h with
  | unacceptable msg hn => exact .inl ⟨rfl, hn⟩
  | unknown | unserialised | unread => exact .inr (.inl rfl)
  | @invoked subtotal limits input hacc htotal hl hv => exact .inr (.inr ⟨limits, input, hl, rfl⟩)

end

/-- **The policy of a checkout**, for every order and whatever the database and the runtime answer.
An order is refused as such, before anything is called, exactly when it is not acceptable. An
outcome has the exact total of the order, less a discount that is never more; only a vetted answer
of the merchant's own hook turns the order down or discounts it. An acceptable order of a known
merchant comes to an outcome, unless the runtime has no room for the hook. The hook runs at most
once, under the limits stored for its merchant. -/
theorem checkout_policy (serde : Serde) (display : InvokeError → String) (fraudApi merchant : Str)
    (order : Order) (ans : (c : CheckoutCall) → CheckoutRes c) :
    let out := (checkout serde display fraudApi merchant order).answered ans
    let calls := (checkout serde display fraudApi merchant order).made ans
    ((∃ msg, out = .error 400 msg none) ↔ ¬ order.Acceptable) ∧
      (¬ order.Acceptable → calls = []) ∧
      (∀ o, out = .ok o → o.Right serde fraudApi merchant order ans) ∧
      (Sellable serde fraudApi merchant order ans →
        (∃ o, out = .ok o) ∨ out = .error 503 "busy, retry shortly" (some "1") ∧
          ∃ subtotal result, Busy result ∧
            Invoked serde fraudApi merchant order ans subtotal result) ∧
      (calls = [] ∧ ¬ order.Acceptable ∨ calls = [.tenantLimits merchant] ∨
        ∃ limits input, ans (.tenantLimits merchant) = .ok (some limits) ∧
          calls = [.tenantLimits merchant, .invoke merchant HOOK_FN input limits]) := by
  intro out calls
  have h : Gone serde display fraudApi merchant order ans out calls := checkout_gone
  obtain ⟨hmsg, hcalls, hn⟩ | ⟨hmsg, hacc⟩ := h.refused
  · exact ⟨⟨fun _ => hn, fun _ => hmsg⟩, fun _ => hcalls, fun o ho => h.right ho, h.sold, h.calls⟩
  · refine ⟨⟨fun he => ?_, fun hn => absurd hacc hn⟩, fun hn => absurd hacc hn,
      fun o ho => h.right ho, h.sold, h.calls⟩
    obtain ⟨msg, he⟩ := he
    exact absurd he (hmsg msg)

end Checkout

end Warpline
