import Warpline.Std.Str
import Warpline.Conc.Machine

/-!
# The in-memory key-value store (`kv.rs`)

`MemKv` keeps, beside its entries, a running total of what each tenant's entries cost. A call
takes the lock once, so `get` and `put` are atomic. Costs are numbers: what is in memory at one
time costs less than `2 ^ 64`.
-/

set_option autoImplicit false

namespace Warpline

def DEFAULT_TENANT_CAP_BYTES : Nat := 16 * 1024 * 1024
def ENTRY_OVERHEAD_BYTES : Nat := 64

inductive KvError
  | quotaExceeded (usedBytes addedBytes capBytes : Nat)
  /-- The storage behind some other store failed; `MemKv` has none. -/
  | backend (source : Str)
  deriving DecidableEq, Repr

structure MemKv where
  entries : AList fun _ : Str × Str => List UInt8
  tenantBytes : AList fun _ : Str => Nat
  tenantCapBytes : Nat

namespace MemKv

def withCapacityBytes (tenantCapBytes : Nat) : MemKv := ⟨∅, ∅, tenantCapBytes⟩

def new : MemKv := withCapacityBytes DEFAULT_TENANT_CAP_BYTES

def cost (key : Str) (value : List UInt8) : Nat :=
  ENTRY_OVERHEAD_BYTES + Str.utf8Len key + value.length

def oldCost (kv : MemKv) (tenant key : Str) : Nat :=
  ((kv.entries.lookup (tenant, key)).map (cost key)).getD 0

def used (kv : MemKv) (tenant : Str) : Nat := (kv.tenantBytes.lookup tenant).getD 0

def get (kv : MemKv) (tenant key : Str) : Except KvError (Option (List UInt8)) :=
  .ok (kv.entries.lookup (tenant, key))

def put (kv : MemKv) (tenant key : Str) (value : List UInt8) : Except KvError Unit × MemKv :=
  let newCost := cost key value
  let newUsed := kv.used tenant - kv.oldCost tenant key + newCost
  if kv.tenantCapBytes < newUsed then
    (.error (.quotaExceeded (kv.used tenant) newCost kv.tenantCapBytes), kv)
  else
    (.ok (), { kv with
      tenantBytes := kv.tenantBytes.insert tenant newUsed
      entries := kv.entries.insert (tenant, key) value })

/-- `put` refuses and changes nothing, or stores the entry and its charge. -/
theorem put_spec (kv : MemKv) (tenant key : Str) (value : List UInt8) :
    let newUsed := kv.used tenant - kv.oldCost tenant key + cost key value
    (kv.tenantCapBytes < newUsed ∧ kv.put tenant key value =
        (.error (.quotaExceeded (kv.used tenant) (cost key value) kv.tenantCapBytes), kv)) ∨
      (newUsed ≤ kv.tenantCapBytes ∧ kv.put tenant key value = (.ok (), { kv with
        tenantBytes := kv.tenantBytes.insert tenant newUsed
        entries := kv.entries.insert (tenant, key) value })) := by
  intro newUsed
  by_cases h : kv.tenantCapBytes < newUsed
  · exact .inl ⟨h, if_pos h⟩
  · exact .inr ⟨Nat.not_lt.1 h, if_neg h⟩

end MemKv

inductive KvCall
  | get (tenant key : Str)
  | put (tenant key : Str) (value : List UInt8)
  deriving DecidableEq, Repr

def MemKv.step (kv : MemKv) : KvCall → Option MemKv
  | .get _ _ => some kv
  | .put tenant key value => some (kv.put tenant key value).2

end Warpline
