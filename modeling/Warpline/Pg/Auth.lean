import Warpline.Conc.System
import Warpline.Core.Types
import Warpline.Std.Bytes
import Warpline.Std.Lru

/-!
# Bearer-token authentication (`pg/auth.rs`)

`authenticate` is a program over the steps another call can come between: a `get` or `put` under
the cache's lock, a reading of the clock, the database lookup. The system of all calls on one
`Authenticator` shares a clock that only goes forward, the tables of keys and tenants, which
anyone may change, and the cache. `log` is a history of the steps, newest first.
-/

set_option autoImplicit false

namespace Warpline

open Conc

/-! ## The program -/

/-- In nanoseconds. -/
def MIN_STALE_WINDOW : Nat := 5 * 60 * 10 ^ 9
def CACHE_CAP : Nat := 10000

inductive AuthOutcome
  | authorized (limits : Limits)
  | missingOrUnknownKey
  | wrongTenant
  deriving DecidableEq, Repr

/-- `sqlx::Error`, as far as a lookup can fail. -/
inductive SqlxError
  | failed
  | poolTimedOut
  deriving DecidableEq, Repr

inductive AuthError
  | db (e : SqlxError)
  deriving DecidableEq, Repr

structure AuthRow where
  tenant : Str
  allowedHosts : List Str
  cpuBudgetMs : Int32
  memCapBytes : Int64
  deriving DecidableEq

inductive Cached
  | found (tenant : Str) (limits : Limits)
  | unknown
  deriving DecidableEq, Repr

def AuthRow.limits (row : AuthRow) : Limits where
  cpuBudgetMs := row.cpuBudgetMs.toInt64.toUInt64
  memCapBytes := row.memCapBytes.toUInt64
  allowedHosts := row.allowedHosts

def Cached.ofRow : Option AuthRow → Cached
  | none => .unknown
  | some row => .found row.tenant row.limits

def outcome (cached : Cached) (requested : Str) : AuthOutcome :=
  match cached with
  | .unknown => .missingOrUnknownKey
  | .found tenant limits => if tenant ≠ requested then .wrongTenant else .authorized limits

inductive AuthCall
  | cacheGet (keyHash : Str)
  /-- `at.elapsed()` -/
  | elapsed (since : Nat)
  | lookup (keyHash : Str)
  | cachePut (keyHash : Str) (cached : Cached)
  deriving DecidableEq, Repr

abbrev AuthRes : AuthCall → Type
  | .cacheGet _ => Option (Nat × Cached)
  | .elapsed _ => Nat
  | .lookup _ => Except SqlxError (Option AuthRow)
  | .cachePut _ _ => Unit

abbrev AuthM := Prog AuthCall AuthRes

namespace Authenticator

def cacheGet (keyHash : Str) : AuthM (Option (Nat × Cached)) := Prog.perform (AuthCall.cacheGet keyHash)
def elapsed (since : Nat) : AuthM Nat := Prog.perform (AuthCall.elapsed since)
def lookup (keyHash : Str) : AuthM (Except SqlxError (Option AuthRow)) :=
  Prog.perform (AuthCall.lookup keyHash)
def cachePut (keyHash : Str) (cached : Cached) : AuthM Unit :=
  Prog.perform (AuthCall.cachePut keyHash cached)

/-- From the database lookup on. -/
def fetch (ttl : Nat) (keyHash tenant : Str) (stale : Option Cached) :
    AuthM (Except AuthError AuthOutcome) := do
  match ← lookup keyHash with
  | .error e =>
    match stale with
    | some cached => return .ok (outcome cached tenant)
    | none => return .error (.db e)
  | .ok row =>
    let cached := Cached.ofRow row
    if ttl ≠ 0 then cachePut keyHash cached
    return .ok (outcome cached tenant)

def authenticate (digest : Bytes → Str) (ttl : Nat) (tenant : Str) (bearer : Option Str) :
    AuthM (Except AuthError AuthOutcome) :=
  match bearer with
  | none => return .ok .missingOrUnknownKey
  | some token => do
    let keyHash := digest (Bytes.ofStr token)
    if ttl = 0 then fetch ttl keyHash tenant none
    else
      match ← cacheGet keyHash with
      | none => fetch ttl keyHash tenant none
      | some (since, cached) =>
        if (← elapsed since) < ttl then return .ok (outcome cached tenant)
        else if (← elapsed since) < max (ttl * 10) MIN_STALE_WINDOW then
          fetch ttl keyHash tenant (some cached)
        else fetch ttl keyHash tenant none

end Authenticator

/-! ## The calls on one authenticator -/

/-- The tables the lookup joins; a key's tenant exists. -/
structure AuthDb where
  apiKeys : Str → Option Nat
  tenants : Nat → Option AuthRow
  fk : ∀ keyHash id, apiKeys keyHash = some id → (tenants id).isSome

/-- The lookup's query. -/
def AuthDb.select (db : AuthDb) (keyHash : Str) : Option AuthRow :=
  (db.apiKeys keyHash).bind db.tenants

abbrev AuthCrate := LruCrate Str (Nat × Cached)

structure AuthEvent (τ : Type) where
  caller : τ
  time : Nat
  call : AuthCall
  res : AuthRes call

structure AuthState (τ : Type) (L : AuthCrate) where
  clock : Nat
  db : AuthDb
  cache : L.Cache
  log : List (AuthEvent τ)

section
variable {τ : Type} {L : AuthCrate}

def AuthState.new (L : AuthCrate) (clock : Nat) (db : AuthDb) : AuthState τ L :=
  ⟨clock, db, L.new CACHE_CAP, []⟩

/-- What a step returns and leaves in the cache; `fails` is how a lookup fails, if it does. -/
def authReply (fails : Option SqlxError) (s : AuthState τ L) : (c : AuthCall) → AuthRes c × L.Cache
  | .cacheGet keyHash => L.get keyHash s.cache
  | .elapsed since => (s.clock - since, s.cache)
  | .lookup keyHash =>
    (match fails with
      | some e => .error e
      | none => .ok (s.db.select keyHash), s.cache)
  | .cachePut keyHash cached => ((), (L.put keyHash (s.clock, cached) s.cache).2)

def authExec (fails : Option SqlxError) (me : τ) (s : AuthState τ L) (c : AuthCall) :
    AuthRes c × AuthState τ L :=
  let q := authReply fails s c
  (q.1, { s with cache := q.2, log := ⟨me, s.clock, c, q.1⟩ :: s.log })

/-- Time passes and the tables change. -/
structure AuthState.Drift (s s' : AuthState τ L) : Prop where
  clock : s.clock ≤ s'.clock
  cache : s'.cache = s.cache
  log : s'.log = s.log

def authSystem (τ : Type) (L : AuthCrate) : System τ (AuthState τ L) AuthCall AuthRes where
  exec := fun _ me s c r s' => ∃ fails, authExec fails me s c = (r, s')
  env := fun _ s s' => s.Drift s'

abbrev AuthConfig (τ : Type) (L : AuthCrate) :=
  Config τ (AuthState τ L) AuthCall AuthRes fun _ => Except AuthError AuthOutcome

/-- Call `t` authenticates `(calls t).2` for the tenant `(calls t).1`. -/
def authCalls (digest : Bytes → Str) (ttl : Nat) (calls : τ → Str × Option Str)
    (s : AuthState τ L) : AuthConfig τ L :=
  ⟨s, fun t => Authenticator.authenticate digest ttl (calls t).1 (calls t).2⟩

/-! ## Schedules -/

def authStep (fails : Option SqlxError) (_ : τ → Option AuthCall) (me : τ) (s : AuthState τ L)
    (c : AuthCall) : Option (AuthRes c × AuthState τ L) :=
  some (authExec fails me s c)

theorem authStep_sound (fails : Option SqlxError) (pend : τ → Option AuthCall) (me : τ)
    (s : AuthState τ L) (c : AuthCall) (r : AuthRes c) (s' : AuthState τ L)
    (h : authStep fails pend me s c = some (r, s')) : (authSystem τ L).exec pend me s c r s' :=
  ⟨fails, Option.some.inj h⟩

end

end Warpline
