import Warpline.Conc.Prog
import Warpline.Core.Kv

/-!
# The host context of one invocation (`sandbox.rs`, `types.rs`)

`HostCtx` is built anew for every invocation. Here are the fields and functions of it that serve
the guest's calls to the key-value store: what the guest may call, and what traps it. `get` and
`put` are over the in-memory store, `kvGet` and `kvPut` over any store.
-/

set_option autoImplicit false

namespace Warpline

open Conc

def MAX_KV_KEY_BYTES : Nat := 512
def MAX_KV_VALUE_BYTES : Nat := 1024 * 1024
def MAX_KV_PUTS_PER_INVOCATION : Nat := 1000
def MAX_KV_PUT_BYTES_PER_INVOCATION : Nat := 8 * 1024 * 1024

/-- Why a call to the store traps the guest. -/
inductive KvTrap
  | keyBytes
  | valueBytes
  | putCount
  | putBytes
  | kv (e : KvError)
  deriving DecidableEq, Repr

structure HostCtx where
  tenantId : Str
  kvPutCount : Nat
  kvPutBytes : Nat
  deriving DecidableEq, Repr

namespace HostCtx

def new (tenantId : Str) : HostCtx := ⟨tenantId, 0, 0⟩

def get (ctx : HostCtx) (kv : MemKv) (key : Str) : Except KvTrap (Option (List UInt8)) :=
  if MAX_KV_KEY_BYTES < Str.utf8Len key then .error .keyBytes
  else (kv.get ctx.tenantId key).mapError .kv

/-- The counters are charged before the store is called. -/
def put (ctx : HostCtx) (kv : MemKv) (key : Str) (value : List UInt8) :
    Except KvTrap Unit × HostCtx × MemKv :=
  if MAX_KV_KEY_BYTES < Str.utf8Len key then (.error .keyBytes, ctx, kv)
  else if MAX_KV_VALUE_BYTES < value.length then (.error .valueBytes, ctx, kv)
  else
    let ctx := { ctx with kvPutCount := ctx.kvPutCount + 1 }
    if MAX_KV_PUTS_PER_INVOCATION < ctx.kvPutCount then (.error .putCount, ctx, kv)
    else
      let ctx := { ctx with kvPutBytes := ctx.kvPutBytes + (Str.utf8Len key + value.length) }
      if MAX_KV_PUT_BYTES_PER_INVOCATION < ctx.kvPutBytes then (.error .putBytes, ctx, kv)
      else
        let q := kv.put ctx.tenantId key value
        (q.1.mapError .kv, ctx, q.2)

end HostCtx

inductive GuestCall
  | get (key : Str)
  | put (key : Str) (value : List UInt8)
  deriving DecidableEq, Repr

inductive GuestReply
  | got (r : Except KvTrap (Option (List UInt8)))
  | wrote (r : Except KvTrap Unit)

/-! ## Any store -/

/-- What a `KvStore` answers. -/
abbrev KvRes : KvCall → Type
  | .get _ _ => Except KvError (Option (List UInt8))
  | .put _ _ _ => Except KvError Unit

/-- The in-memory store, as one of them. -/
def MemKv.answer (kv : MemKv) : (c : KvCall) → KvRes c × MemKv
  | .get tenant key => (kv.get tenant key, kv)
  | .put tenant key value => kv.put tenant key value

namespace HostCtx

/-- `get` of `kv::Host`. -/
def kvGet (ctx : HostCtx) (key : Str) :
    Prog KvCall KvRes (Except KvTrap (Option (List UInt8)) × HostCtx) :=
  if MAX_KV_KEY_BYTES < Str.utf8Len key then pure (.error .keyBytes, ctx)
  else do
    let r ← Prog.perform (.get ctx.tenantId key)
    pure (Except.mapError .kv r, ctx)

/-- `put` of `kv::Host`. The counters are `usize`, which they never fill (`counters_fit`). -/
def kvPut (ctx : HostCtx) (key : Str) (value : List UInt8) :
    Prog KvCall KvRes (Except KvTrap Unit × HostCtx) :=
  if MAX_KV_KEY_BYTES < Str.utf8Len key then pure (.error .keyBytes, ctx)
  else if MAX_KV_VALUE_BYTES < value.length then pure (.error .valueBytes, ctx)
  else
    let ctx := { ctx with kvPutCount := ctx.kvPutCount + 1 }
    if MAX_KV_PUTS_PER_INVOCATION < ctx.kvPutCount then pure (.error .putCount, ctx)
    else
      let ctx := { ctx with kvPutBytes := ctx.kvPutBytes + (Str.utf8Len key + value.length) }
      if MAX_KV_PUT_BYTES_PER_INVOCATION < ctx.kvPutBytes then pure (.error .putBytes, ctx)
      else do
        let r ← Prog.perform (.put ctx.tenantId key value)
        pure (Except.mapError .kv r, ctx)

def serve (ctx : HostCtx) : GuestCall → Prog KvCall KvRes (GuestReply × HostCtx)
  | .get key => do
    let (r, ctx) ← ctx.kvGet key
    pure (.got r, ctx)
  | .put key value => do
    let (r, ctx) ← ctx.kvPut key value
    pure (.wrote r, ctx)

/-- Over the in-memory store these are `get` and `put`. -/
theorem kvGet_against (ctx : HostCtx) (kv : MemKv) (key : Str) :
    (ctx.kvGet key).against MemKv.answer kv = ((ctx.get kv key, ctx), kv) := by
  unfold kvGet get
  split
  · rfl
  · rfl

theorem kvPut_against (ctx : HostCtx) (kv : MemKv) (key : Str) (value : List UInt8) :
    (ctx.kvPut key value).against MemKv.answer kv =
      (((ctx.put kv key value).1, (ctx.put kv key value).2.1), (ctx.put kv key value).2.2) := by
  unfold kvPut put
  split
  · rfl
  split
  · rfl
  simp only []
  split
  · rfl
  split
  · rfl
  · rfl

end HostCtx

/-- A reply that is an error traps the guest. -/
def GuestReply.trap : GuestReply → Option KvTrap
  | .got (.error e) | .wrote (.error e) => some e
  | .got (.ok _) | .wrote (.ok _) => none

/-- How the store would answer each call, at some moment. -/
abbrev KvAnswers := (c : KvCall) → KvRes c

/-- One invocation: its context, the calls that reached the store, what trapped the guest. -/
structure KvInvocation where
  ctx : HostCtx
  forwarded : List KvCall
  trap : Option KvTrap

namespace KvInvocation

def new (tenantId : Str) : KvInvocation := ⟨HostCtx.new tenantId, [], none⟩

/-- A call of the guest. One that has been trapped makes no more. -/
def call (s : KvInvocation) (e : GuestCall × KvAnswers) : KvInvocation :=
  if s.trap.isSome then s
  else
    let q := (s.ctx.serve e.1).answered e.2
    ⟨q.2, s.forwarded ++ (s.ctx.serve e.1).made e.2, q.1.trap⟩

/-- The calls of a guest, each with what the store would answer then. -/
def run (s : KvInvocation) (events : List (GuestCall × KvAnswers)) : KvInvocation :=
  events.foldl call s

end KvInvocation

/-! ## Invocations over one store -/

/-- The invocations that share one store, each with its own context. -/
structure Guests (ι : Type) where
  kv : MemKv
  ctx : ι → HostCtx

namespace Guests

variable {ι : Type} [DecidableEq ι]

/-- Invocation `i` runs for `tenantOf i`; nothing is stored yet. -/
def new (cap : Nat) (tenantOf : ι → Str) : Guests ι where
  kv := MemKv.withCapacityBytes cap
  ctx := fun i => HostCtx.new (tenantOf i)

def call (g : Guests ι) : ι × GuestCall → GuestReply × Guests ι
  | (i, .get key) => (.got ((g.ctx i).get g.kv key), g)
  | (i, .put key value) =>
    let q := (g.ctx i).put g.kv key value
    (.wrote q.1, { kv := q.2.2, ctx := Function.update g.ctx i q.2.1 })

end Guests

end Warpline
