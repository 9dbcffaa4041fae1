import Warpline.Core.Types
import Warpline.Std.Bytes

/-!
# Tenant administration (`pg/admin.rs`)

The rows of `tenants` with their limits, and `api_keys`. A call is one transaction, or a single
statement: it takes effect as a whole or not at all. It fails if it does not, and may be reported as
failed although it does. A tenant is named by its name, which stands for the id made for it.
`digest` is SHA-256 in hex.
-/

set_option autoImplicit false

namespace Warpline

inductive AdminError
  | invalidName
  | config (e : ConfigError)
  | noSuchTenant (name : Str)
  | rng
  | db
  deriving DecidableEq, Repr

structure IssuedKey where
  tenant : Str
  apiKey : Str
  deriving DecidableEq, Repr

/-! ## Patches -/

/-- The fields to change. -/
structure LimitsPatch where
  allowedHosts : Option (List Str)
  cpuBudgetMs : Option UInt64
  memCapBytes : Option Usize
  deriving DecidableEq, Repr

namespace LimitsPatch

/-- `LimitsPatch::default()`. -/
def default : LimitsPatch := ⟨none, none, none⟩

/-- `From<&Limits>`. -/
def ofLimits (l : Limits) : LimitsPatch :=
  ⟨some l.allowedHosts, some l.cpuBudgetMs, some l.memCapBytes⟩

end LimitsPatch

/-! ## Tables -/

/-- A row of `tenants`. -/
structure TenantRow where
  allowedHosts : List Str
  cpuBudgetMs : Int32
  memCapBytes : Int64
  deriving DecidableEq

/-- The `CHECK`s of the table. -/
def TenantRow.check (row : TenantRow) : Bool :=
  1 ≤ row.cpuBudgetMs && row.cpuBudgetMs ≤ 10000 &&
    1048576 ≤ row.memCapBytes && row.memCapBytes ≤ 536870912

def cols (l : Limits) : TenantRow where
  allowedHosts := l.allowedHosts
  cpuBudgetMs := l.cpuBudgetMs.toUInt32.toInt32
  memCapBytes := l.memCapBytes.toInt64

def TenantRow.limits (row : TenantRow) : Limits where
  cpuBudgetMs := row.cpuBudgetMs.toInt64.toUInt64
  memCapBytes := row.memCapBytes.toUInt64
  allowedHosts := row.allowedHosts

structure AdminDb where
  tenants : Str → Option TenantRow
  apiKeys : List (Str × Str)

namespace AdminDb

def new : AdminDb := ⟨fun _ => none, []⟩

/-- The new row of `INSERT .. ON CONFLICT (name) DO UPDATE`, with the flags `$5`, `$6` and `$7`. -/
def mergedRow (old : Option TenantRow) (excluded : TenantRow) (setHosts setCpu setMem : Bool) :
    TenantRow :=
  match old with
  | none => excluded
  | some old =>
    { allowedHosts := if setHosts then excluded.allowedHosts else old.allowedHosts
      cpuBudgetMs := if setCpu then excluded.cpuBudgetMs else old.cpuBudgetMs
      memCapBytes := if setMem then excluded.memCapBytes else old.memCapBytes }

/-- Store the row, unless a `CHECK` fails. -/
def putTenant (db : AdminDb) (name : Str) (row : TenantRow) : Option AdminDb :=
  if row.check then some { db with tenants := Function.update db.tenants name (some row) } else none

/-- `INSERT INTO warpline.api_keys`, whose primary key is the hash. -/
def insertKey (db : AdminDb) (keyHash tenant : Str) : Option AdminDb :=
  if keyHash ∈ db.apiKeys.map Prod.fst then none
  else some { db with apiKeys := (keyHash, tenant) :: db.apiKeys }

def tenantLimits (db : AdminDb) (name : Str) : Option Limits :=
  (db.tenants name).map TenantRow.limits

end AdminDb

/-! ## Calls -/

/-- What a call leaves open: the random bytes, if there are any, and whether the database reports an
error. -/
structure AdminChoice where
  keyBytes : Option (List UInt8)
  dbFails : Bool
  /-- The error is of a `COMMIT`, or of an `UPDATE`, that has taken effect. -/
  tookEffect : Bool
  deriving DecidableEq, Repr

namespace AdminChoice

/-- The call does not come to its last statement. -/
def stops (ch : AdminChoice) : Bool := ch.dbFails && !ch.tookEffect

/-- The result of the last statement as the caller sees it. -/
def reported {α : Type} (ch : AdminChoice) (r : Except AdminError α) : Except AdminError α :=
  if ch.dbFails then .error .db else r

/-- The call with the outcome it has in the database. -/
def settled (ch : AdminChoice) : AdminChoice := ⟨ch.keyBytes, ch.stops, false⟩

end AdminChoice

def hexChar (n : Nat) : Char := "0123456789abcdef".toList.getD n '0'

/-- `hex::encode`. -/
def hexEncode (bytes : List UInt8) : Str :=
  bytes.flatMap fun b => [hexChar (b.toNat / 16), hexChar (b.toNat % 16)]

section
variable (parseHost : Str → Option Str) (digest : Bytes → Str)

/-- The checks of `patch_tenant`, with the defaults for the fields that are missing. -/
def checkPatch (patch : LimitsPatch) : Except ConfigError Limits := do
  let cpu := patch.cpuBudgetMs.getD Limits.default.cpuBudgetMs
  let mem := patch.memCapBytes.getD Limits.default.memCapBytes
  let hosts := patch.allowedHosts.getD []
  let l ← Limits.new cpu mem
  l.withAllowedHosts parseHost hosts

def patchTenant (ch : AdminChoice) (name : Str) (patch : LimitsPatch) (db : AdminDb) :
    Except AdminError IssuedKey × AdminDb :=
  if !validName name then (.error .invalidName, db)
  else match checkPatch parseHost patch with
  | .error e => (.error (.config e), db)
  | .ok checked =>
    match ch.keyBytes with
    | none => (.error .rng, db)
    | some keyBytes =>
      let apiKey := "wl_".toList ++ hexEncode keyBytes
      let keyHash := digest (Bytes.ofStr apiKey)
      let row := AdminDb.mergedRow (db.tenants name) (cols checked) patch.allowedHosts.isSome
        patch.cpuBudgetMs.isSome patch.memCapBytes.isSome
      if ch.stops then (.error .db, db)
      else match (db.putTenant name row).bind (·.insertKey keyHash name) with
      | none => (.error .db, db)
      | some db => (ch.reported (.ok ⟨name, apiKey⟩), db)

def createTenant (ch : AdminChoice) (name : Str) (limits : Option Limits) (db : AdminDb) :
    Except AdminError IssuedKey × AdminDb :=
  patchTenant parseHost digest ch name ((limits.map LimitsPatch.ofLimits).getD .default) db

/-- The checks of `set_limits`. -/
def checkLimits (limits : Limits) : Except ConfigError Limits := do
  let l ← Limits.new limits.cpuBudgetMs limits.memCapBytes
  l.withAllowedHosts parseHost limits.allowedHosts

def setLimits (ch : AdminChoice) (name : Str) (limits : Limits) (db : AdminDb) :
    Except AdminError Unit × AdminDb :=
  match checkLimits parseHost limits with
  | .error e => (.error (.config e), db)
  | .ok l =>
    if ch.stops then (.error .db, db)
    else match db.tenants name with
    | none => (ch.reported (.error (.noSuchTenant name)), db)
    | some _ =>
      match db.putTenant name (cols l) with
      | none => (.error .db, db)
      | some db => (ch.reported (.ok ()), db)

/-! ## Any sequence of calls -/

inductive AdminOp
  | patchTenant (name : Str) (patch : LimitsPatch)
  | createTenant (name : Str) (limits : Option Limits)
  | setLimits (name : Str) (limits : Limits)
  deriving DecidableEq, Repr

/-- A call, and its error if it fails. -/
def applyAdmin (op : AdminOp) (ch : AdminChoice) (db : AdminDb) :
    Except AdminError Unit × AdminDb :=
  match op with
  | .patchTenant name patch =>
    let q := patchTenant parseHost digest ch name patch db
    (q.1.map fun _ => (), q.2)
  | .createTenant name limits =>
    let q := createTenant parseHost digest ch name limits db
    (q.1.map fun _ => (), q.2)
  | .setLimits name limits => setLimits parseHost ch name limits db

/-- The calls of a run so far, in the order they took effect, with the results they had in the
database. -/
abbrev AdminHistory := List (AdminOp × Except AdminError Unit)

def adminStep (s : AdminHistory × AdminDb) (call : AdminOp × AdminChoice) :
    AdminHistory × AdminDb :=
  (s.1 ++ [(call.1, (applyAdmin parseHost digest call.1 call.2.settled s.2).1)],
    (applyAdmin parseHost digest call.1 call.2 s.2).2)

def adminRun (calls : List (AdminOp × AdminChoice)) : AdminHistory × AdminDb :=
  calls.foldl (adminStep parseHost digest) ([], .new)

end

end Warpline
