import Warpline.Core.Bearer
import Warpline.Pg.Admin
import Warpline.Pg.Auth
import Warpline.Std.Decimal

/-!
# The admin API (`control/src/lib.rs`: `admin_create_tenant`)

`fromSlice` is `serde_json::from_slice`. `AdminApi` is the tables and what has been done to them:
by requests, and by an embedding app through the functions of `pg/admin.rs`.
-/

set_option autoImplicit false

namespace Warpline

/-! ## Texts -/

def ConfigError.display : ConfigError → Str
  | .cpuBudgetRange => "cpu_budget_ms must be between 1 and 10000".toList
  | .memCapRange => "mem_cap_bytes must be between 1048576 and 536870912".toList
  | .tooManyHosts => "allowed_hosts must have at most 64 entries".toList
  | .invalidHost host => "invalid hostname: ".toList ++ host

/-! ## The handler -/

/-- `POST /admin/tenants/{tenant}` request body. -/
structure AdminConfigBody where
  allowedHosts : Option (List Str)
  cpuBudgetMs : Option Int64
  memCapBytes : Option Int64

def AdminConfigBody.default : AdminConfigBody := ⟨none, none, none⟩

/-- What the handler reads of the `AppState`. -/
structure AdminState where
  adminToken : Option Str
  /-- There is a database. -/
  auth : Bool

structure AdminRequest where
  tenant : Str
  headers : Headers
  body : List UInt8

def constantTimeEq (a b : List UInt8) : Bool :=
  if a.length ≠ b.length then false
  else (a.zip b).foldl (fun acc q => acc ||| (q.1 ^^^ q.2)) 0 == 0

def AdminConfigBody.parse (fromSlice : List UInt8 → Except Str AdminConfigBody) (body : List UInt8) :
    Except Str AdminConfigBody :=
  if body = [] then .ok .default else fromSlice body

/-- The range checks, on the raw numbers. -/
def AdminConfigBody.patch (cfg : AdminConfigBody) : Except ConfigError LimitsPatch := do
  let cpuBudgetMs ← match cfg.cpuBudgetMs with
    | some ms => do
      validateCpuBudgetMs ms.toInt
      pure (some ms.toUInt64)
    | none => pure none
  let memCapBytes ← match cfg.memCapBytes with
    | some b => do
      validateMemCapBytes b.toInt
      pure (some b.toUInt64)
    | none => pure none
  return { allowedHosts := cfg.allowedHosts, cpuBudgetMs, memCapBytes }

def patchReply : Except AdminError IssuedKey → HttpReply
  | .ok key => ⟨201, .json [("tenant".toList, key.tenant), ("api_key".toList, key.apiKey)]⟩
  | .error (.config e) => ⟨400, .text e.display⟩
  | .error .invalidName =>
    ⟨400, .text "invalid tenant name (lowercase letters, digits, '_' and '-', max 63)".toList⟩
  | .error _ => ⟨500, .text "internal error".toList⟩

section
variable (parseHost : Str → Option Str) (digest : Bytes → Str)
  (fromSlice : List UInt8 → Except Str AdminConfigBody)

/-- The reply, and the result of `patch_tenant` if it has been called. -/
def adminCreateTenant (state : AdminState) (ch : AdminChoice) (req : AdminRequest) (db : AdminDb) :
    HttpReply × Option (Except AdminError IssuedKey) × AdminDb :=
  match state.adminToken with
  | none => (⟨404, .empty⟩, none, db)
  | some expectedToken =>
    if !(bearerFrom req.headers).any fun p => constantTimeEq (Str.utf8 p) (Str.utf8 expectedToken) then
      (⟨401, .text "unauthorized".toList⟩, none, db)
    else if !validName req.tenant then (⟨400, .text "invalid tenant name".toList⟩, none, db)
    else if !state.auth then (⟨503, .text "admin API requires DATABASE_URL".toList⟩, none, db)
    else match AdminConfigBody.parse fromSlice req.body with
    | .error e => (⟨400, .text ("invalid json body: ".toList ++ e)⟩, none, db)
    | .ok cfg =>
      match cfg.patch with
      | .error e => (⟨400, .text e.display⟩, none, db)
      | .ok patch =>
        let q := patchTenant parseHost digest ch req.tenant patch db
        (patchReply q.1, some q.1, q.2)

/-! ## Any sequence of requests and calls -/

inductive AdminEvent
  | request (req : AdminRequest)
  | call (op : AdminOp)

/-- The key an operation stores. -/
def issuedBy (op : AdminOp) (ch : AdminChoice) (db : AdminDb) : Option IssuedKey :=
  match op with
  | .patchTenant name patch =>
    (patchTenant parseHost digest ch.settled name patch db).1.toOption
  | .createTenant name limits =>
    (createTenant parseHost digest ch.settled name limits db).1.toOption
  | .setLimits _ _ => none

/-- The tables, the keys stored so far with the events that stored them (also those a caller has not
been told of, since the commit was reported as failed), and the tables there have been, newest
first. -/
structure AdminApi where
  db : AdminDb
  issued : List (AdminEvent × IssuedKey)
  past : List AdminDb

def AdminApi.new : AdminApi := ⟨.new, [], [.new]⟩

/-- The key an event stores, and the tables it leaves. -/
def adminEffect (state : AdminState) (e : AdminEvent) (ch : AdminChoice) (db : AdminDb) :
    Option IssuedKey × AdminDb :=
  match e with
  | .request req =>
    ((adminCreateTenant parseHost digest fromSlice state ch.settled req db).2.1.bind Except.toOption,
      (adminCreateTenant parseHost digest fromSlice state ch req db).2.2)
  | .call op => (issuedBy parseHost digest op ch db, (applyAdmin parseHost digest op ch db).2)

def AdminApi.serve (state : AdminState) (s : AdminApi) (call : AdminEvent × AdminChoice) : AdminApi :=
  let q := adminEffect parseHost digest fromSlice state call.1 call.2 s.db
  ⟨q.2, (q.1.map fun key => (call.1, key)).toList ++ s.issued, q.2 :: s.past⟩

def AdminApi.run (state : AdminState) (calls : List (AdminEvent × AdminChoice)) : AdminApi :=
  calls.foldl (AdminApi.serve parseHost digest fromSlice state) .new

end

/-! ## The tables as the authenticator sees them -/

/-- The tenants with keys; a tenant's id is its place among them. -/
def AdminDb.holders (db : AdminDb) : List Str := (db.apiKeys.map Prod.snd).dedup

/-- The row of tenant `name` as the authenticator's query returns it. -/
def AdminDb.authRow (db : AdminDb) (name : Str) : Option AuthRow :=
  (db.tenants name).map fun row => ⟨name, row.allowedHosts, row.cpuBudgetMs, row.memCapBytes⟩

def AdminDb.authDb (db : AdminDb) : AuthDb where
  apiKeys := fun keyHash => ((db.apiKeys.lookup keyHash).map db.holders.idxOf).filter fun id =>
    ((db.holders[id]?).bind db.authRow).isSome
  tenants := fun id => (db.holders[id]?).bind db.authRow
  fk := fun _ _ h => (Option.filter_eq_some_iff.1 h).2

end Warpline
