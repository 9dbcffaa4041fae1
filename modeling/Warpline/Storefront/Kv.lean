import Warpline.Conc.Trace
import Warpline.Core.Sandbox
import Warpline.Core.Types
import Warpline.Std.I64

/-!
# The Postgres key-value store (`storefront/app/src/kv.rs`)

`PgKv` answers the calls of a `KvStore` by statements against the table `storefront.hook_kv`. A
`put` is one transaction: it takes the tenant's advisory lock, adds up what the tenant's rows cost,
and writes the row if the quota allows.

A statement sees the committed rows and its own transaction's (READ COMMITTED), and may fail. A
lock is held until its transaction ends; a statement that has to wait for one has no step. The
server may end a transaction at any point (a connection lost, a task cancelled); its later
statements then fail. A commit that fails may have taken effect: so does one whose caller is gone.
-/

set_option autoImplicit false

namespace Warpline

open Conc

/-! ## The statements -/

inductive PgKvCall
  | beginTx
  /-- `SELECT pg_advisory_xact_lock(hashtextextended($1, 0))`. -/
  | lockTenant (tenant : Str)
  /-- `SELECT COALESCE(sum($3 + octet_length(key) + octet_length(value)), 0)::bigint, ..`. -/
  | sums (tenant key : Str) (overhead : Int)
  /-- `INSERT INTO storefront.hook_kv .. ON CONFLICT (tenant, key) DO UPDATE SET value = ..`. -/
  | upsert (tenant key : Str) (value : List UInt8)
  | commit
  /-- The drop of a transaction that was not committed. -/
  | rollback
  /-- `SELECT value FROM storefront.hook_kv WHERE tenant = $1 AND key = $2`, on the pool. -/
  | selectValue (tenant key : Str)
  deriving DecidableEq

def PgKvOk : PgKvCall → Type
  | .sums _ _ _ => Int × Int
  | .selectValue _ _ => Option (List UInt8)
  | _ => Unit

/-- An error of `sqlx` is its text. -/
abbrev PgKvRes (c : PgKvCall) : Type := Except Str (PgKvOk c)

/-! ## The store -/

abbrev PgKvM := Prog PgKvCall PgKvRes

structure PgKv where
  tenantCapBytes : Int
  deriving DecidableEq, Repr

def backend (e : Str) : KvError := .backend e

/-- `query.execute(..).await.map_err(backend)?`. -/
def kvQuery (c : PgKvCall) : ExceptT KvError PgKvM (PgKvOk c) :=
  Prog.mapErr backend (ExceptT.mk (Prog.perform c : PgKvM (PgKvRes c)))

def dropKvTx : PgKvM Unit := do
  let _ ← (Prog.perform PgKvCall.rollback : PgKvM (PgKvRes .rollback))
  return ()

/-- `ENTRY_OVERHEAD_BYTES` of the store is that of `MemKv`. -/
def entryCost (key : Str) (value : List UInt8) : Int :=
  I64.saturatingAdd (I64.saturatingAdd ENTRY_OVERHEAD_BYTES (I64.ofUsize (Str.utf8Len key)))
    (I64.ofUsize value.length)

namespace PgKv

def new (tenantCapBytes : Usize) : PgKv := ⟨i64OfUsize tenantCapBytes⟩

def get (tenant key : Str) : ExceptT KvError PgKvM (Option (List UInt8)) :=
  kvQuery (.selectValue tenant key)

/-- The quota check of `put`, on the two sums. -/
def overQuota (kv : PgKv) (key : Str) (value : List UInt8) (used old : Int) : Option KvError :=
  let cost := entryCost key value
  if kv.tenantCapBytes < I64.add (I64.sub used old) cost then
    some (.quotaExceeded (I64.toUsize used) (I64.toUsize cost) (I64.toUsize kv.tenantCapBytes))
  else none

/-- `put` from the first statement of the transaction to the last one before the commit. -/
def putSection (kv : PgKv) (tenant key : Str) (value : List UInt8) : ExceptT KvError PgKvM Unit := do
  kvQuery (.lockTenant tenant)
  let (used, old) : Int × Int ← kvQuery (.sums tenant key ENTRY_OVERHEAD_BYTES)
  match kv.overQuota key value used old with
  | some e => throw e
  | none => kvQuery (.upsert tenant key value)

def put (kv : PgKv) (tenant key : Str) (value : List UInt8) : ExceptT KvError PgKvM Unit := do
  kvQuery .beginTx
  Prog.onError dropKvTx (kv.putSection tenant key value)
  kvQuery .commit

def answer (kv : PgKv) : (c : KvCall) → PgKvM (KvRes c)
  | .get tenant key => (get tenant key).run
  | .put tenant key value => (kv.put tenant key value).run

end PgKv

/-! ## The table -/

/-- `hook_kv`, by its primary key `(tenant, key)`. -/
abbrev HookKv := AList fun _ : Str × Str => List UInt8

namespace HookKv

/-- `COALESCE(sum(overhead + octet_length(key) + octet_length(value)), 0)` over the rows that pass
the filter. -/
def sum (rows : HookKv) (overhead : Int) (filter : Str × Str → Bool) : Int :=
  ((rows.entries.filter fun e => filter e.1).map fun e =>
    overhead + Str.utf8Len e.1.2 + e.2.length).sum

end HookKv

structure KvRow where
  tenant : Str
  key : Str
  value : List UInt8
  deriving DecidableEq

structure KvDb (τ : Type) where
  rows : HookKv
  /-- The rows an open transaction has written, oldest first. -/
  txs : τ → Option (List KvRow)
  /-- Who holds an advisory lock. -/
  locks : Int → Option τ
  /-- Who has written a row and not ended its transaction. -/
  rowLocks : Str × Str → Option τ

/-- How a statement goes. -/
structure KvChoice where
  fail : Bool
  message : Str
  tookEffect : Bool

namespace KvDb

variable {τ : Type}

/-- The rows `rows`, and no transaction open. -/
def ofRows (rows : HookKv) : KvDb τ := ⟨rows, fun _ => none, fun _ => none, fun _ => none⟩

def visible (db : KvDb τ) (writes : List KvRow) : HookKv :=
  writes.foldl (fun rows row => rows.insert (row.tenant, row.key) row.value) db.rows

/-- `::bigint` fails out of range. -/
def sumsOf (rows : HookKv) (tenant key : Str) (overhead : Int) : Option (Int × Int) :=
  let used := rows.sum overhead fun k => k.1 = tenant
  let old := rows.sum overhead fun k => k.1 = tenant ∧ k.2 = key
  if I64.Fits used ∧ I64.Fits old then some (used, old) else none

variable [DecidableEq τ]

def openTx (db : KvDb τ) (me : τ) : KvDb τ :=
  { db with txs := Function.update db.txs me (some []) }

/-- The transaction of `me` ends, and `rows` are the committed rows from now on. -/
def endTx (db : KvDb τ) (me : τ) (rows : HookKv) : KvDb τ where
  rows
  txs := Function.update db.txs me none
  locks := fun k => if db.locks k = some me then none else db.locks k
  rowLocks := fun k => if db.rowLocks k = some me then none else db.rowLocks k

def takeLock (db : KvDb τ) (me : τ) (key : Int) : KvDb τ :=
  { db with locks := Function.update db.locks key (some me) }

def write (db : KvDb τ) (me : τ) (writes : List KvRow) (row : KvRow) : KvDb τ :=
  { db with
    txs := Function.update db.txs me (some (writes ++ [row]))
    rowLocks := Function.update db.rowLocks (row.tenant, row.key) (some me) }

/-- One statement of thread `me`. No result: it has to wait. -/
def exec (hash : Str → Int) (me : τ) (ch : KvChoice) (db : KvDb τ) :
    (c : PgKvCall) → Option (PgKvRes c × KvDb τ)
  | .beginTx =>
    match db.txs me with
    | some _ => none
    | none => some (if ch.fail then (.error ch.message, db) else (.ok (), db.openTx me))
  | .selectValue tenant key =>
    some (if ch.fail then .error ch.message else .ok (db.rows.lookup (tenant, key)), db)
  | .lockTenant tenant =>
    match db.txs me, ch.fail with
    | some _, false =>
      if db.locks (hash tenant) = none ∨ db.locks (hash tenant) = some me then
        some (.ok (), db.takeLock me (hash tenant))
      else none
    | _, _ => some (.error ch.message, db)
  | .sums tenant key overhead =>
    match db.txs me, ch.fail with
    | some writes, false =>
      match sumsOf (db.visible writes) tenant key overhead with
      | some q => some (.ok q, db)
      | none => some (.error ch.message, db)
    | _, _ => some (.error ch.message, db)
  | .upsert tenant key value =>
    match db.txs me, ch.fail with
    | some writes, false =>
      if db.rowLocks (tenant, key) = none ∨ db.rowLocks (tenant, key) = some me then
        some (.ok (), db.write me writes ⟨tenant, key, value⟩)
      else none
    | _, _ => some (.error ch.message, db)
  | .commit =>
    match db.txs me with
    | some writes =>
      if !ch.fail then some (.ok (), db.endTx me (db.visible writes))
      -- an error reported although the commit took effect, or because it did not
      else if ch.tookEffect then some (.error ch.message, db.endTx me (db.visible writes))
      else some (.error ch.message, db.endTx me db.rows)
    | none => some (.error ch.message, db)
  | .rollback => some (.ok (), db.endTx me db.rows)

end KvDb

/-- Calls of any number of processes over one database, which may end a transaction at any point. -/
def pgKvSystem {τ : Type} [DecidableEq τ] (hash : Str → Int) : System τ (KvDb τ) PgKvCall PgKvRes where
  exec := fun _ me s c r s' => ∃ ch, KvDb.exec hash me ch s c = some (r, s')
  env := fun _ s s' => ∃ t, s' = s.endTx t s.rows

end Warpline
