import Warpline.Storefront.Hook

/-!
# What a hook calls the host for

The calls of a hook name the customer of its order and no one else: in the URL of its fraud check,
where the name is percent-encoded, and in the key of its counter.
-/

set_option autoImplicit false

namespace Warpline

open Conc

namespace Hook

abbrev HookState (τ : Type) := Traced τ (Guests τ) HookCall HookRes

theorem counterOf_display (n : UInt64) : counterOf (Str.utf8 (Usize.display n)) = some n := by
  rw [counterOf, Str.fromUtf8_utf8, Option.bind_some, Usize.parse_display]

theorem unreserved_plain : Percent.Plain unreserved := by
  intro b h
  refine ⟨?_, ?_, ?_⟩
  · simp only [unreserved, Bool.or_eq_true, Bool.and_eq_true, decide_eq_true_eq, beq_iff_eq] at h
    obtain (((((h | h) | h) | rfl) | rfl) | rfl) | rfl := h
    · exact UInt8.lt_of_le_of_lt h.2 (by decide)
    · exact UInt8.lt_of_le_of_lt h.2 (by decide)
    · exact UInt8.lt_of_le_of_lt h.2 (by decide)
    all_goals decide
  · rintro rfl
    cases h
  · rintro rfl
    cases h

theorem notMem_trimSlashes {c : Char} {s : Str} (h : c ∉ s) : c ∉ trimSlashes s :=
  fun hc => h ((List.rdropWhile_prefix _ _).subset hc)

/-- **The risk URL names the customer**: whatever characters the name has, a server reads it back
from the query, which has no other parameter. -/
theorem riskUrl_query {input : Input} (h : '?' ∉ input.fraudApi ∧ '#' ∉ input.fraudApi) :
    ∃ query, Percent.splitQuery (riskUrl input) =
        (trimSlashes input.fraudApi ++ "/score".toList, query) ∧
      Percent.formPairs query = [(Str.utf8 "customer".toList, Str.utf8 input.customer)] := by
  have hname : Percent.encode unreserved (Str.utf8 "customer".toList) = "customer".toList := by
    decide
  have hquery : ['&'].intercalate ([(Str.utf8 "customer".toList, Str.utf8 input.customer)].map
      (Percent.encodePair unreserved)) = "customer=".toList ++ percentEncode input.customer := by
    rw [List.map_singleton, List.intercalate_singleton, Percent.encodePair, hname]
    rfl
  refine ⟨"customer=".toList ++ percentEncode input.customer, ?_, ?_⟩
  · have hsplit : riskUrl input = (trimSlashes input.fraudApi ++ "/score".toList) ++
        '?' :: ("customer=".toList ++ percentEncode input.customer) := by
      simp [riskUrl]
    rw [hsplit]
    refine Percent.splitQuery_eq ⟨?_, ?_⟩ ?_
    · rw [List.mem_append, not_or]
      exact ⟨notMem_trimSlashes h.1, by decide⟩
    · rw [List.mem_append, not_or]
      exact ⟨notMem_trimSlashes h.2, by decide⟩
    · rw [List.mem_append, not_or]
      exact ⟨by decide, Percent.notMem_encode (b := 0x23) (by decide) (by decide) (by decide) _⟩
  · rw [← hquery]
    exact Percent.formPairs_encode unreserved_plain (by decide) (by decide) (List.cons_ne_nil _ _)

/-- A call that is about an order. -/
def About (input : Input) : HookCall → Prop
  | .fetch req => req.url = riskUrl input ∧ req.method = "GET".toList ∧ req.body = [] ∧
      ('?' ∉ input.fraudApi ∧ '#' ∉ input.fraudApi →
        ∃ query, Percent.splitQuery req.url =
            (trimSlashes input.fraudApi ++ "/score".toList, query) ∧
          Percent.formPairs query = [(Str.utf8 "customer".toList, Str.utf8 input.customer)])
  | .kvGet key => key = orderKey input.customer
  | .kvPut key value => key = orderKey input.customer ∧ ∃ n, counterOf value = some n
  | .emit _ _ => True

/-- A call a hook may make. -/
def HookMay (serde : Serde) (body : List UInt8) (c : HookCall) : Prop :=
  (∃ level message, c = .emit level message) ∨ ∃ input, serde.input body = .ok input ∧ About input c

theorem calls_approve {input : Input} {note : Option Str} :
    (approve input note).Calls (About input) := by
  refine .bind (.perform rfl) fun stored => .bind (.perform ⟨rfl, ?_⟩) fun _ => trivial
  exact ⟨_, counterOf_display _⟩

theorem calls_riskScore {serde : Serde} {input : Input} :
    (riskScore serde input).Calls (About input) := by
  refine .bind (.perform ⟨rfl, rfl, rfl, riskUrl_query⟩) fun resp => ?_
  cases resp with
  | error e => trivial
  | ok resp =>
    show Prog.Calls _ (if resp.status ≠ 200 then _ else _)
    split <;> trivial

theorem calls_decide {serde : Serde} {input : Input} :
    (decide serde input).Calls (About input) := by
  refine .bind calls_riskScore fun r => ?_
  cases r with
  | error e => exact calls_approve
  | ok score =>
    show Prog.Calls _ (if MAX_RISK_SCORE < score then _ else _)
    split
    · trivial
    · exact calls_approve

theorem calls_handle {serde : Serde} {body : List UInt8} :
    (handle serde body).Calls (HookMay serde body) := by
  have hlog : ∀ d, (do
      let _ ← Prog.perform (HookCall.emit "info".toList (logLine d))
      return serde.toVec d : HookM (List UInt8)).Calls (HookMay serde body) :=
    fun d => .bind (.perform (.inl ⟨_, _, rfl⟩)) fun _ => trivial
  unfold handle
  cases hi : serde.input body with
  | error e => exact hlog _
  | ok input => exact .bind (calls_decide.mono fun c h => .inr ⟨input, hi, h⟩) hlog

/-- In every run, a hook has made calls it may make only. -/
theorem hook_may {τ : Type} [DecidableEq τ] {serde : Serde} {shop : τ → Str} {body : τ → List UInt8}
    {g : Guests τ} {C : Config τ (HookState τ) HookCall HookRes fun _ => List UInt8}
    (hr : Reach (hookSystem shop).traced ⟨⟨g, []⟩, fun t => handle serde (body t)⟩ C) {t : τ}
    {c : HookCall} {r : HookRes c} (hm : (t, ⟨c, r⟩) ∈ C.shared.trace) : HookMay serde (body t) c := by
  have hcalls : ∀ t, Sat (Thread.judged (fun _ _ => True) (HookMay serde (body t)))
      (fun _ _ => True) (handle serde (body t)) () := fun t =>
    calls_handle.sat (R := fun _ => True) (fun _ _ _ _ _ _ => trivial)
      (fun _ _ _ _ hc _ _ => ⟨hc, trivial⟩) trivial
  obtain hm | ⟨hc, -⟩ := (hr.judged (fun _ _ _ _ _ _ _ => trivial) hcalls).2 t c r hm
  · cases hm
  · exact hc

/-- Of an order of 10.00 by one customer; the answer is the discount. -/
def sampleSerde : Serde where
  input := fun _ => .ok ⟨['a'], 1000, ['f']⟩
  score := fun _ => .ok 7
  toVec := fun d => [d.discountCents.toUInt8]

/-- A store with two orders of that customer. -/
def sampleKv : MemKv :=
  ((MemKv.withCapacityBytes 1048576).put ['s'] (orderKey ['a']) (Str.utf8 (Usize.display 2))).2

/-- The fraud service's answer. -/
def sampleApi : Except Str HttpOut.Response := .ok ⟨200, []⟩

/-- Of an order by a customer with an odd name. -/
def oddSerde : Serde where
  input := fun _ => .ok ⟨"é&x=#".toList, 1000, "http://f/".toList⟩
  score := fun _ => .ok 7
  toVec := fun _ => []

end Hook

open Hook in
/-- **A hook's calls are about its order.** In every run of hooks at once, each call a hook has made
is a log line, or a `GET` of the order's risk URL, or a read or write of that customer's counter; a
hook whose input is not an order only logs. Where the address of the fraud service has neither `?`
nor `#`, the query of the risk URL names the order's customer and nothing else. -/
theorem hook_calls_about_order {τ : Type} [DecidableEq τ] (serde : Serde) (shop : τ → Str)
    (body : τ → List UInt8) (g : Guests τ)
    {C : Config τ (HookState τ) HookCall HookRes fun _ => List UInt8}
    (hr : Reach (hookSystem shop).traced ⟨⟨g, []⟩, fun t => handle serde (body t)⟩ C) :
    ∀ t c r, (t, ⟨c, r⟩) ∈ C.shared.trace →
      (∃ level message, c = .emit level message) ∨
        ∃ input, serde.input (body t) = .ok input ∧ About input c := by
  intro t c r hm
  exact hook_may hr hm

open Hook in
/-- The name has characters of two bytes, and some that would end the query. -/
theorem hook_calls_about_order_odd :
    ∃ C : Config Unit (HookState Unit) HookCall HookRes fun _ => List UInt8,
      C.shared.trace.length = 1 ∧ ∀ t c r, (t, ⟨c, r⟩) ∈ C.shared.trace →
        (∃ level message, c = .emit level message) ∨
          ∃ input, oddSerde.input [] = .ok input ∧ About input c := by
  let C₀ : Config Unit (HookState Unit) HookCall HookRes fun _ => List UInt8 :=
    ⟨⟨⟨sampleKv, fun _ => HostCtx.new ['s']⟩, []⟩, fun _ => handle oddSerde []⟩
  obtain ⟨C, hplay, htrace⟩ : ∃ C,
      C₀.play (tracing fun api _ t g c => hookExec t api g c) [((), sampleApi)] = some C ∧
      C.shared.trace.length = 1 := ⟨_, rfl, rfl⟩
  have hr : Reach (hookSystem fun _ => ['s']).traced C₀ C := by
    refine play_reach (tracing_sound (S := hookSystem fun _ => ['s']) ?_) hplay
    exact fun ch _ t g c r g' h => ⟨ch, h⟩
  exact ⟨C, htrace, hook_calls_about_order oddSerde (fun _ => ['s']) (fun _ => []) _ hr⟩

end Warpline
