import Warpline.Core.Sandbox

/-!
# The caps on the calls to the store

`KvCapped tenant calls`: calls that may reach the store in one invocation for `tenant`. While the
guest runs, the counters of its context are what has been forwarded (`Exact`), so `put` lets
exactly the calls through that keep the forwarded ones capped (`call_within`, `call_beyond`).
-/

set_option autoImplicit false

namespace Warpline

open Conc

namespace KvCall

def tenant : KvCall → Str
  | .get tenant _ | .put tenant _ _ => tenant

def key : KvCall → Str
  | .get _ key | .put _ key _ => key

/-- The value a call hands over, if it is a `put`. -/
def value? : KvCall → Option (List UInt8)
  | .get _ _ => none
  | .put _ _ value => some value

/-- What a call adds to the bytes put. -/
def putBytes : KvCall → Nat
  | .get _ _ => 0
  | .put _ key value => Str.utf8Len key + value.length

end KvCall

/-- The number of `put`s. -/
def putCount (calls : List KvCall) : Nat := calls.countP fun c => c.value?.isSome

def putBytes (calls : List KvCall) : Nat := (calls.map KvCall.putBytes).sum

/-- The calls keep all caps of one invocation for `tenant`. -/
structure KvCapped (tenant : Str) (calls : List KvCall) : Prop where
  tenant : ∀ c ∈ calls, c.tenant = tenant
  key : ∀ c ∈ calls, Str.utf8Len c.key ≤ MAX_KV_KEY_BYTES
  value : ∀ c ∈ calls, ∀ value, c.value? = some value → value.length ≤ MAX_KV_VALUE_BYTES
  count : putCount calls ≤ MAX_KV_PUTS_PER_INVOCATION
  bytes : putBytes calls ≤ MAX_KV_PUT_BYTES_PER_INVOCATION

/-- The call to the store that a guest's call asks for. -/
def GuestCall.forTenant (tenant : Str) : GuestCall → KvCall
  | .get key => .get tenant key
  | .put key value => .put tenant key value

/-- The calls to the store that a guest's calls ask for. -/
def wanted (tenant : Str) (events : List (GuestCall × KvAnswers)) : List KvCall :=
  events.map fun e => e.1.forTenant tenant

/-- The error a store answers with. -/
def storeError : (c : KvCall) → KvRes c → Option KvError
  | .get _ _, .error e | .put _ _ _, .error e => some e
  | .get _ _, .ok _ | .put _ _ _, .ok _ => none

section
variable {tenant key : Str} {value : List UInt8} {calls calls' : List KvCall} {c : KvCall}

@[simp] theorem putCount_nil : putCount [] = 0 := rfl
@[simp] theorem putBytes_nil : putBytes [] = 0 := rfl

@[simp] theorem putCount_append :
    putCount (calls ++ calls') = putCount calls + putCount calls' := List.countP_append

@[simp] theorem putBytes_append :
    putBytes (calls ++ calls') = putBytes calls + putBytes calls' := by
  simp [putBytes]

@[simp] theorem putCount_get : putCount [.get tenant key] = 0 := rfl
@[simp] theorem putCount_put : putCount [.put tenant key value] = 1 := rfl
@[simp] theorem putBytes_get : putBytes [.get tenant key] = 0 := rfl

@[simp] theorem putBytes_put :
    putBytes [.put tenant key value] = Str.utf8Len key + value.length := by
  simp [putBytes, KvCall.putBytes]

/-! ## Calls within the caps -/

theorem KvCapped.nil (tenant : Str) : KvCapped tenant [] := by
  constructor <;> simp

/-- Earlier calls are capped when all are. -/
theorem KvCapped.of_append (h : KvCapped tenant (calls ++ calls')) : KvCapped tenant calls := by
  have hcount := h.count
  have hbytes := h.bytes
  rw [putCount_append] at hcount
  rw [putBytes_append] at hbytes
  constructor
  · exact fun c hc => h.tenant c (List.mem_append_left _ hc)
  · exact fun c hc => h.key c (List.mem_append_left _ hc)
  · exact fun c hc => h.value c (List.mem_append_left _ hc)
  · omega
  · omega

/-- What a `get` adds. -/
theorem KvCapped.append_get (h : KvCapped tenant calls) :
    KvCapped tenant (calls ++ [.get tenant key]) ↔ Str.utf8Len key ≤ MAX_KV_KEY_BYTES := by
  constructor
  · intro hcall
    exact hcall.key (.get tenant key) (by simp)
  · intro hkey
    have hcount := h.count
    have hbytes := h.bytes
    constructor
    · intro c hc
      obtain hc | rfl : c ∈ calls ∨ c = .get tenant key := by simpa using hc
      · exact h.tenant c hc
      · rfl
    · intro c hc
      obtain hc | rfl : c ∈ calls ∨ c = .get tenant key := by simpa using hc
      · exact h.key c hc
      · exact hkey
    · intro c hc
      obtain hc | rfl : c ∈ calls ∨ c = .get tenant key := by simpa using hc
      · exact h.value c hc
      · intro value hv
        cases hv
    · simpa using hcount
    · simpa using hbytes

/-- What a `put` adds. -/
theorem KvCapped.append_put (h : KvCapped tenant calls) :
    KvCapped tenant (calls ++ [.put tenant key value]) ↔
      Str.utf8Len key ≤ MAX_KV_KEY_BYTES ∧ value.length ≤ MAX_KV_VALUE_BYTES ∧
        putCount calls + 1 ≤ MAX_KV_PUTS_PER_INVOCATION ∧
          putBytes calls + (Str.utf8Len key + value.length) ≤ MAX_KV_PUT_BYTES_PER_INVOCATION := by
  constructor
  · intro hcall
    have hmem : KvCall.put tenant key value ∈ calls ++ [.put tenant key value] := by simp
    refine ⟨hcall.key _ hmem, hcall.value _ hmem value rfl, ?_, ?_⟩
    · simpa using hcall.count
    · simpa using hcall.bytes
  · intro hcall
    obtain ⟨hkey, hvalue, hcount, hbytes⟩ := hcall
    constructor
    · intro c hc
      obtain hc | rfl : c ∈ calls ∨ c = .put tenant key value := by simpa using hc
      · exact h.tenant c hc
      · rfl
    · intro c hc
      obtain hc | rfl : c ∈ calls ∨ c = .put tenant key value := by simpa using hc
      · exact h.key c hc
      · exact hkey
    · intro c hc
      obtain hc | rfl : c ∈ calls ∨ c = .put tenant key value := by simpa using hc
      · exact h.value c hc
      · intro v hv
        cases hv
        exact hvalue
    · simpa using hcount
    · simpa using hbytes

end

/-! ## One call -/

namespace HostCtx

/-- The context after a `put` has been counted. -/
def charged (ctx : HostCtx) (key : Str) (value : List UInt8) : HostCtx :=
  { ctx with
    kvPutCount := ctx.kvPutCount + 1
    kvPutBytes := ctx.kvPutBytes + (Str.utf8Len key + value.length) }

/-- What `put` checks. -/
def Admits (ctx : HostCtx) (key : Str) (value : List UInt8) : Prop :=
  Str.utf8Len key ≤ MAX_KV_KEY_BYTES ∧ value.length ≤ MAX_KV_VALUE_BYTES ∧
    ctx.kvPutCount + 1 ≤ MAX_KV_PUTS_PER_INVOCATION ∧
      ctx.kvPutBytes + (Str.utf8Len key + value.length) ≤ MAX_KV_PUT_BYTES_PER_INVOCATION

/-- The call traps by itself, before the store is reached. -/
def Refuses (ctx : HostCtx) (c : GuestCall) : Prop :=
  ∃ (reply : GuestReply) (trap : KvTrap) (ctx' : HostCtx),
    ctx.serve c = .ret (reply, ctx') ∧ reply.trap = some trap ∧ (∀ e, trap ≠ .kv e) ∧
      ctx'.tenantId = ctx.tenantId

section
variable {ctx : HostCtx} {key : Str} {value : List UInt8}

theorem serve_get (h : Str.utf8Len key ≤ MAX_KV_KEY_BYTES) : ctx.serve (.get key) =
    .call (.get ctx.tenantId key) fun r => .ret (.got (Except.mapError .kv r), ctx) := by
  simp only [serve, kvGet, if_neg (Nat.not_lt.2 h)]
  rfl

theorem refuses_get (h : MAX_KV_KEY_BYTES < Str.utf8Len key) : ctx.Refuses (.get key) := by
  refine ⟨.got (.error .keyBytes), .keyBytes, ctx, ?_, rfl, by simp, rfl⟩
  simp only [serve, kvGet, if_pos h]
  rfl

theorem serve_put (h : ctx.Admits key value) : ctx.serve (.put key value) =
    .call (.put ctx.tenantId key value) fun r =>
      .ret (.wrote (Except.mapError .kv r), ctx.charged key value) := by
  obtain ⟨hkey, hvalue, hcount, hbytes⟩ := h
  simp only [serve, kvPut, if_neg (Nat.not_lt.2 hkey), if_neg (Nat.not_lt.2 hvalue),
    if_neg (Nat.not_lt.2 hcount), if_neg (Nat.not_lt.2 hbytes)]
  rfl

/-- The checks are made in sequence, and the counters are raised between them. -/
theorem refuses_put (h : ¬ctx.Admits key value) : ctx.Refuses (.put key value) := by
  by_cases hkey : MAX_KV_KEY_BYTES < Str.utf8Len key
  · refine ⟨.wrote (.error .keyBytes), .keyBytes, ctx, ?_, rfl, by simp, rfl⟩
    simp only [serve, kvPut, if_pos hkey]
    rfl
  by_cases hvalue : MAX_KV_VALUE_BYTES < value.length
  · refine ⟨.wrote (.error .valueBytes), .valueBytes, ctx, ?_, rfl, by simp, rfl⟩
    simp only [serve, kvPut, if_neg hkey, if_pos hvalue]
    rfl
  by_cases hcount : MAX_KV_PUTS_PER_INVOCATION < ctx.kvPutCount + 1
  · refine ⟨.wrote (.error .putCount), .putCount, { ctx with kvPutCount := ctx.kvPutCount + 1 },
      ?_, rfl, by simp, rfl⟩
    simp only [serve, kvPut, if_neg hkey, if_neg hvalue, if_pos hcount]
    rfl
  by_cases hbytes : MAX_KV_PUT_BYTES_PER_INVOCATION <
      ctx.kvPutBytes + (Str.utf8Len key + value.length)
  · refine ⟨.wrote (.error .putBytes), .putBytes, ctx.charged key value, ?_, rfl, by simp, rfl⟩
    simp only [serve, kvPut, if_neg hkey, if_neg hvalue, if_neg hcount, if_pos hbytes]
    rfl
  · exact absurd ⟨Nat.not_lt.1 hkey, Nat.not_lt.1 hvalue, Nat.not_lt.1 hcount,
      Nat.not_lt.1 hbytes⟩ h

end

end HostCtx

namespace KvInvocation

section
variable {tenant : Str} {s : KvInvocation} {e : GuestCall × KvAnswers}
  {events : List (GuestCall × KvAnswers)}

theorem call_trapped {t : KvTrap} (h : s.trap = some t) : s.call e = s := by
  simp [call, h]

theorem call_forwarded {c : KvCall} {reply : KvRes c → GuestReply} {ctx : HostCtx}
    (hrun : s.trap = none) (hs : s.ctx.serve e.1 = .call c fun r => .ret (reply r, ctx)) :
    s.call e = ⟨ctx, s.forwarded ++ [c], (reply (e.2 c)).trap⟩ := by
  simp [call, hrun, hs]

theorem call_refused (hrun : s.trap = none) (h : s.ctx.Refuses e.1) :
    ∃ trap ctx, s.call e = ⟨ctx, s.forwarded, some trap⟩ ∧ (∀ err, trap ≠ .kv err) ∧
      ctx.tenantId = s.ctx.tenantId := by
  obtain ⟨reply, trap, ctx, hs, htrap, hkv, htenant⟩ := h
  exact ⟨trap, ctx, by simp [call, hrun, hs, htrap], hkv, htenant⟩

/-- While the guest runs, the counters of the context are those of the forwarded calls. -/
structure Exact (tenant : Str) (s : KvInvocation) : Prop where
  own : s.ctx.tenantId = tenant
  capped : KvCapped tenant s.forwarded
  count : s.trap = none → s.ctx.kvPutCount = putCount s.forwarded
  bytes : s.trap = none → s.ctx.kvPutBytes = putBytes s.forwarded

theorem Exact.new (tenant : Str) : Exact tenant (new tenant) :=
  ⟨rfl, KvCapped.nil tenant, fun _ => rfl, fun _ => rfl⟩

/-- What `put` checks is what the caps of the forwarded calls leave. -/
theorem Exact.admits_iff (h : Exact tenant s) (hrun : s.trap = none) {key : Str}
    {value : List UInt8} : s.ctx.Admits key value ↔
      KvCapped tenant (s.forwarded ++ [.put tenant key value]) := by
  rw [h.capped.append_put, HostCtx.Admits, h.count hrun, h.bytes hrun]

/-- A call that keeps the forwarded calls capped is forwarded; only the store's error traps. -/
theorem Exact.call_within (h : Exact tenant s) (hrun : s.trap = none)
    (hcapped : KvCapped tenant (s.forwarded ++ [e.1.forTenant tenant])) :
    (s.call e).forwarded = s.forwarded ++ [e.1.forTenant tenant] ∧
      (s.call e).trap = (storeError _ (e.2 (e.1.forTenant tenant))).map .kv ∧
        Exact tenant (s.call e) := by
  obtain ⟨c, answers⟩ := e
  have htenant := h.own
  cases c with
  | get key =>
    have hcall := call_forwarded (e := (.get key, answers)) hrun
      (HostCtx.serve_get (h.capped.append_get.1 hcapped))
    rw [htenant] at hcall
    rw [hcall]
    refine ⟨rfl, ?_, htenant, hcapped, fun _ => ?_, fun _ => ?_⟩
    · simp only [GuestCall.forTenant]
      cases answers (.get tenant key) <;> rfl
    · simpa using h.count hrun
    · simpa using h.bytes hrun
  | put key value =>
    have hcall := call_forwarded (e := (.put key value, answers)) hrun
      (HostCtx.serve_put ((h.admits_iff hrun).2 hcapped))
    rw [htenant] at hcall
    rw [hcall]
    refine ⟨rfl, ?_, htenant, hcapped, fun _ => ?_, fun _ => ?_⟩
    · simp only [GuestCall.forTenant]
      cases answers (.put tenant key value) <;> rfl
    · simpa [HostCtx.charged] using h.count hrun
    · simpa [HostCtx.charged] using h.bytes hrun

/-- Any other call traps before it reaches the store. -/
theorem Exact.call_beyond (h : Exact tenant s) (hrun : s.trap = none)
    (hbeyond : ¬KvCapped tenant (s.forwarded ++ [e.1.forTenant tenant])) :
    (s.call e).forwarded = s.forwarded ∧
      (∃ trap, (s.call e).trap = some trap ∧ ∀ err, trap ≠ .kv err) ∧
        Exact tenant (s.call e) := by
  obtain ⟨c, answers⟩ := e
  have hrefuses : s.ctx.Refuses c := by
    cases c with
    | get key =>
      apply HostCtx.refuses_get
      apply Nat.not_le.1
      intro hkey
      exact hbeyond (h.capped.append_get.2 hkey)
    | put key value =>
      apply HostCtx.refuses_put
      intro hadmits
      exact hbeyond ((h.admits_iff hrun).1 hadmits)
  obtain ⟨trap, ctx, hcall, hkv, htenant⟩ := call_refused (e := (c, answers)) hrun hrefuses
  rw [hcall]
  refine ⟨rfl, ⟨trap, rfl, hkv⟩, htenant.trans h.own, h.capped, fun hn => ?_, fun hn => ?_⟩
  · cases hn
  · cases hn

theorem Exact.call (h : Exact tenant s) : Exact tenant (s.call e) := by
  cases hrun : s.trap with
  | some t =>
    rw [call_trapped hrun]
    exact h
  | none =>
    by_cases hcapped : KvCapped tenant (s.forwarded ++ [e.1.forTenant tenant])
    · exact (h.call_within hrun hcapped).2.2
    · exact (h.call_beyond hrun hcapped).2.2

/-! ## All the calls of a guest -/

theorem Exact.run (h : Exact tenant s) : Exact tenant (s.run events) := by
  induction events generalizing s with
  | nil => exact h
  | cons e events ih => exact ih h.call

theorem run_trapped {t : KvTrap} (h : s.trap = some t) : s.run events = s := by
  induction events with
  | nil => rfl
  | cons e events ih =>
    show (s.call e).run events = s
    rw [call_trapped h, ih]

/-- The store has answered the last of the calls `answered` with an error. -/
def StoreFailed (tenant : Str) (answered : List (GuestCall × KvAnswers)) (err : KvError) : Prop :=
  ∃ before e, answered = before ++ [e] ∧ storeError _ (e.2 (e.1.forTenant tenant)) = some err

/-- A guest whose calls are capped is not trapped, or by an error of the store. -/
theorem Exact.run_within (h : Exact tenant s) (hrun : s.trap = none)
    (hcapped : KvCapped tenant (s.forwarded ++ wanted tenant events)) :
    ((s.run events).trap = none ∧
        (s.run events).forwarded = s.forwarded ++ wanted tenant events) ∨
      ∃ answered rest err, events = answered ++ rest ∧ StoreFailed tenant answered err ∧
        (s.run events).trap = some (.kv err) ∧
          (s.run events).forwarded = s.forwarded ++ wanted tenant answered := by
  induction events generalizing s with
  | nil => exact .inl ⟨hrun, (List.append_nil _).symm⟩
  | cons e events ih =>
    have hwanted : s.forwarded ++ wanted tenant (e :: events) =
        s.forwarded ++ [e.1.forTenant tenant] ++ wanted tenant events := by
      simp [wanted]
    rw [hwanted] at hcapped
    obtain ⟨hforwarded, htrap, hexact⟩ := h.call_within hrun hcapped.of_append
    have hstep : s.run (e :: events) = (s.call e).run events := rfl
    rw [hstep]
    cases herr : storeError _ (e.2 (e.1.forTenant tenant)) with
    | some err =>
      rw [herr] at htrap
      rw [run_trapped htrap]
      refine .inr ⟨[e], events, err, rfl, ⟨[], e, rfl, herr⟩, htrap, ?_⟩
      rw [hforwarded]
      rfl
    | none =>
      rw [herr] at htrap
      rw [← hforwarded] at hcapped
      obtain ⟨hnone, hall⟩ | ⟨answered, rest, err, rfl, ⟨before, last, rfl, hlast⟩, hkv, hall⟩ :=
        ih hexact htrap hcapped
      · refine .inl ⟨hnone, ?_⟩
        rw [hall, hforwarded, hwanted]
      · refine .inr ⟨e :: (before ++ [last]), rest, err, rfl, ⟨e :: before, last, rfl, hlast⟩,
          hkv, ?_⟩
        rw [hall, hforwarded]
        simp [wanted]

/-- The counters fit a `usize` by far, whatever `put` adds to them after its first checks. -/
theorem Exact.counters_fit (h : Exact tenant s) (hrun : s.trap = none) {key : Str}
    {value : List UInt8} (hkey : Str.utf8Len key ≤ MAX_KV_KEY_BYTES)
    (hvalue : value.length ≤ MAX_KV_VALUE_BYTES) :
    s.ctx.kvPutCount + 1 < 2 ^ 64 ∧
      s.ctx.kvPutBytes + (Str.utf8Len key + value.length) < 2 ^ 64 := by
  have hcount := h.capped.count
  have hbytes := h.capped.bytes
  rw [← h.count hrun] at hcount
  rw [← h.bytes hrun] at hbytes
  simp only [MAX_KV_KEY_BYTES, MAX_KV_VALUE_BYTES, MAX_KV_PUTS_PER_INVOCATION,
    MAX_KV_PUT_BYTES_PER_INVOCATION] at *
  omega

end

end KvInvocation

open KvInvocation in
/-- Whatever a guest calls, and whatever the store answers: what has reached the store is capped; a
call reaches it exactly when it keeps that so, and then only an error of the store traps; any other
call traps by itself; and a guest whose calls are capped altogether is served to the end, or to an
error of the store. -/
theorem kv_caps_exact (tenant : Str) (events : List (GuestCall × KvAnswers)) :
    let s := (KvInvocation.new tenant).run events
    KvCapped tenant s.forwarded ∧
      (s.trap = none → ∀ e : GuestCall × KvAnswers,
        (KvCapped tenant (s.forwarded ++ [e.1.forTenant tenant]) →
          (s.call e).forwarded = s.forwarded ++ [e.1.forTenant tenant] ∧
            (s.call e).trap = (storeError _ (e.2 (e.1.forTenant tenant))).map .kv) ∧
        (¬KvCapped tenant (s.forwarded ++ [e.1.forTenant tenant]) →
          (s.call e).forwarded = s.forwarded ∧
            ∃ trap, (s.call e).trap = some trap ∧ ∀ err, trap ≠ .kv err)) ∧
      (KvCapped tenant (wanted tenant events) →
        (s.trap = none ∧ s.forwarded = wanted tenant events) ∨
          ∃ answered rest err, events = answered ++ rest ∧ StoreFailed tenant answered err ∧
            s.trap = some (.kv err) ∧ s.forwarded = wanted tenant answered) := by
  intro s
  have h : Exact tenant s := (Exact.new tenant).run
  refine ⟨h.capped, fun hrun e => ⟨fun hcapped => ?_, fun hbeyond => ?_⟩, fun hcapped => ?_⟩
  · obtain ⟨hforwarded, htrap, -⟩ := h.call_within hrun hcapped
    exact ⟨hforwarded, htrap⟩
  · obtain ⟨hforwarded, htrap, -⟩ := h.call_beyond hrun hbeyond
    exact ⟨hforwarded, htrap⟩
  · exact (Exact.new tenant).run_within rfl hcapped

end Warpline
