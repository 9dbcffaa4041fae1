import Warpline.Conc.Prog
import Warpline.Std.Str

/-!
# The publish transaction's database (`0001_warpline.sql`)

The tables `tenants` and `functions`, the open transactions with what they have written and not
committed, the advisory locks and the row locks. A statement of a transaction sees the committed
rows and its own (READ COMMITTED). A lock is held until the transaction ends; a call that has to
wait for one has no step. Each thread has at most one transaction open.

`exec` is the semantics, with the outcome of a call in a `DbChoice`: a statement may fail, and a
failed commit may have taken effect.
-/

set_option autoImplicit false

namespace Warpline

inductive DbError
  | failed
  deriving DecidableEq, Repr

structure FunctionRow where
  tenantId : Nat
  name : Str
  wasmHash : Str
  deriving DecidableEq, Repr

inductive DbCall
  | beginTx
  /-- `SET LOCAL {setting} = '5s'`. -/
  | setLocal (setting : String)
  /-- `SELECT pg_advisory_xact_lock(hashtext($1)::bigint)`. -/
  | lockTenant (tenant : Str)
  /-- `SELECT id FROM warpline.tenants WHERE name = $1`. -/
  | tenantId (tenant : Str)
  /-- `SELECT count(*) FROM warpline.functions WHERE tenant_id = $1 AND name <> $2`. -/
  | countOthers (tenantId : Nat) (func : Str)
  /-- `INSERT INTO warpline.functions .. ON CONFLICT .. DO UPDATE SET wasm_hash = ..`. -/
  | upsert (row : FunctionRow)
  /-- `SELECT f.wasm_hash FROM warpline.functions f JOIN warpline.tenants t ..`. -/
  | functionHash (tenant func : Str)
  | commit
  /-- The drop of a transaction that was not committed. -/
  | rollback
  deriving DecidableEq

def DbOk : DbCall → Type
  | .tenantId _ => Option Nat
  | .countOthers _ _ => Int
  | .functionHash _ _ => Option Str
  | _ => Unit

abbrev DbRes (c : DbCall) : Type := Except DbError (DbOk c)

/-! ## Tables -/

/-- `functions`, by its primary key `(tenant_id, name)`. -/
abbrev Functions := AList fun _ : Nat × Str => Str

def Functions.upsert (rows : Functions) (row : FunctionRow) : Functions :=
  rows.insert (row.tenantId, row.name) row.wasmHash

def Functions.hash (rows : Functions) (id : Nat) (func : Str) : Option Str := rows.lookup (id, func)

def Functions.countOthers (rows : Functions) (id : Nat) (func : Str) : Nat :=
  (rows.keys.filter fun k => k.1 = id ∧ k.2 ≠ func).length

theorem Functions.hash_upsert (rows : Functions) (row : FunctionRow) (id : Nat) (func : Str) :
    (rows.upsert row).hash id func =
      if row.tenantId = id ∧ row.name = func then some row.wasmHash else rows.hash id func := by
  unfold Functions.upsert Functions.hash
  split
  · rename_i h
    obtain ⟨rfl, rfl⟩ := h
    rw [AList.lookup_insert]
  · rename_i h
    rw [AList.lookup_insert_ne]
    rintro heq
    cases heq
    exact h ⟨rfl, rfl⟩

/-! ## The state -/

structure Db (τ : Type) where
  tenantIds : Str → Option Nat
  ids_unique : ∀ {a b i}, tenantIds a = some i → tenantIds b = some i → a = b
  functions : Functions
  /-- The rows an open transaction has written, oldest first. -/
  txs : τ → Option (List FunctionRow)
  /-- Who holds an advisory lock. -/
  locks : Int → Option τ
  /-- Who has written a row and not ended its transaction. -/
  rowLocks : Nat × Str → Option τ

/-- A tenant `t` with the functions `functions`, and no transaction open. -/
def Db.ofFunctions {τ : Type} (functions : Functions) : Db τ where
  tenantIds := fun name => if name = ['t'] then some 0 else none
  ids_unique := by
    intro a b i ha hb
    split at ha <;> split at hb <;> simp_all
  functions
  txs := fun _ => none
  locks := fun _ => none
  rowLocks := fun _ => none

structure DbChoice where
  fail : Bool
  tookEffect : Bool

namespace Db

variable {τ : Type}

/-- The committed digest of `(tenant, func)`. -/
def committed (db : Db τ) (tenant func : Str) : Option Str :=
  (db.tenantIds tenant).bind fun id => db.functions.hash id func

variable [DecidableEq τ]

def visible (db : Db τ) (writes : List FunctionRow) : Functions :=
  writes.foldl Functions.upsert db.functions

def setTx (db : Db τ) (me : τ) (tx : Option (List FunctionRow)) : Db τ :=
  { db with txs := Function.update db.txs me tx }

/-- The transaction of `me` ends, and `functions` are the committed rows from now on. -/
def endTx (db : Db τ) (me : τ) (functions : Functions) : Db τ :=
  { db with
    functions
    txs := Function.update db.txs me none
    locks := fun k => if db.locks k = some me then none else db.locks k
    rowLocks := fun k => if db.rowLocks k = some me then none else db.rowLocks k }

def takeLock (db : Db τ) (me : τ) (key : Int) : Db τ :=
  { db with locks := Function.update db.locks key (some me) }

def write (db : Db τ) (me : τ) (writes : List FunctionRow) (row : FunctionRow) : Db τ :=
  { db with
    txs := Function.update db.txs me (some (writes ++ [row]))
    rowLocks := Function.update db.rowLocks (row.tenantId, row.name) (some me) }

/-- One call of thread `me`. No result: the call has to wait, or no transaction fits it. -/
def exec (hashtext : Str → Int) (me : τ) (ch : DbChoice) (db : Db τ) :
    (c : DbCall) → Option (DbRes c × Db τ)
  | .beginTx =>
    match db.txs me with
    | some _ => none
    | none => some (if ch.fail then (.error .failed, db) else (.ok (), db.setTx me (some [])))
  | .setLocal _ => (db.txs me).map fun _ => (if ch.fail then .error .failed else .ok (), db)
  | .lockTenant tenant =>
    match db.txs me with
    | none => none
    | some _ =>
      if ch.fail then some (.error .failed, db)
      else if db.locks (hashtext tenant) = none ∨ db.locks (hashtext tenant) = some me then
        some (.ok (), db.takeLock me (hashtext tenant))
      else none
  | .tenantId tenant =>
    (db.txs me).map fun _ => (if ch.fail then .error .failed else .ok (db.tenantIds tenant), db)
  | .countOthers id func =>
    (db.txs me).map fun writes => (if ch.fail then .error .failed else
      .ok ((db.visible writes).countOthers id func : Int), db)
  | .upsert row =>
    match db.txs me with
    | none => none
    | some writes =>
      if ch.fail then some (.error .failed, db)
      else if db.rowLocks (row.tenantId, row.name) = none ∨
          db.rowLocks (row.tenantId, row.name) = some me then
        some (.ok (), db.write me writes row)
      else none
  | .functionHash tenant func =>
    (db.txs me).map fun writes => (if ch.fail then .error .failed else
      .ok ((db.tenantIds tenant).bind fun id => (db.visible writes).hash id func), db)
  | .commit =>
    (db.txs me).map fun writes =>
      if !ch.fail then (.ok (), db.endTx me (db.visible writes))
      -- an error reported although the commit took effect, or because it did not
      else if ch.tookEffect then (.error .failed, db.endTx me (db.visible writes))
      else (.error .failed, db.endTx me db.functions)
  | .rollback => (db.txs me).map fun _ => (.ok (), db.endTx me db.functions)

/-! ## The committed rows -/

theorem committed_endTx (db : Db τ) (me : τ) (tenant func : Str) :
    (db.endTx me db.functions).committed tenant func = db.committed tenant func := rfl

/-- Committing a row changes the row of its own name. -/
theorem committed_commit (db : Db τ) (me : τ) {tenant : Str} {id : Nat}
    (hid : db.tenantIds tenant = some id) (func digest tenant' func' : Str) :
    (db.endTx me (db.visible [⟨id, func, digest⟩])).committed tenant' func' =
      if tenant = tenant' ∧ func = func' then some digest else db.committed tenant' func' := by
  have hbind : (db.endTx me (db.visible [⟨id, func, digest⟩])).committed tenant' func' =
      (db.tenantIds tenant').bind fun i => (db.functions.upsert ⟨id, func, digest⟩).hash i func' := rfl
  rw [hbind]
  cases h : db.tenantIds tenant' with
  | none =>
    have hne : tenant ≠ tenant' := by
      rintro rfl
      cases hid.symm.trans h
    simp [committed, h, hne]
  | some i =>
    have hiff : id = i ↔ tenant = tenant' := by
      constructor
      · rintro rfl
        exact db.ids_unique hid h
      · rintro rfl
        exact Option.some.inj (hid.symm.trans h)
    simp [Functions.hash_upsert, committed, h, hiff]

/-! ## What a call does -/

variable {hashtext : Str → Int} {me : τ} {ch : DbChoice} {db db' : Db τ}

/-- Only the caller's own transaction and locks change, and rows only by a commit. -/
structure Frame (me : τ) (c : DbCall) (db db' : Db τ) : Prop where
  tenantIds : db'.tenantIds = db.tenantIds
  functions : c ≠ .commit → db'.functions = db.functions
  txs : ∀ u, u ≠ me → db'.txs u = db.txs u
  locks : ∀ u k, u ≠ me → (db'.locks k = some u ↔ db.locks k = some u)

omit [DecidableEq τ] in
theorem Frame.refl (me : τ) (c : DbCall) (db : Db τ) : Frame me c db db :=
  ⟨rfl, fun _ => rfl, fun _ _ => rfl, fun _ _ _ => .rfl⟩

theorem frame_endTx {c : DbCall} (me : τ) (db : Db τ) {functions : Functions}
    (h : c ≠ .commit → functions = db.functions) : Frame me c db (db.endTx me functions) := by
  refine ⟨rfl, h, fun u hu => Function.update_of_ne hu _ _, fun u k hu => ?_⟩
  simp only [endTx]
  split
  · rename_i hk
    simp [hk, Ne.symm hu]
  · rfl

theorem exec_beginTx {r : DbRes .beginTx} (h : exec hashtext me ch db .beginTx = some (r, db')) :
    (r = .ok () ∧ db' = db.setTx me (some [])) ∨ (∃ e, r = .error e) ∧ db' = db := by
  simp only [exec] at h
  split at h
  · cases h
  · split at h <;> cases h
    · exact .inr ⟨⟨_, rfl⟩, rfl⟩
    · exact .inl ⟨rfl, rfl⟩

theorem exec_setLocal {setting : String} {r : DbRes (.setLocal setting)}
    (h : exec hashtext me ch db (.setLocal setting) = some (r, db')) : db' = db := by
  simp only [exec, Option.map_eq_some_iff] at h
  obtain ⟨_, -, h⟩ := h
  cases h
  rfl

theorem exec_lockTenant {tenant : Str} {r : DbRes (.lockTenant tenant)}
    (h : exec hashtext me ch db (.lockTenant tenant) = some (r, db')) :
    (r = .ok () ∧ (db.locks (hashtext tenant) = none ∨ db.locks (hashtext tenant) = some me) ∧
        db' = db.takeLock me (hashtext tenant)) ∨ (∃ e, r = .error e) ∧ db' = db := by
  simp only [exec] at h
  split at h
  · cases h
  · split at h
    · cases h; exact .inr ⟨⟨_, rfl⟩, rfl⟩
    · split at h <;> cases h
      rename_i hfree
      exact .inl ⟨rfl, hfree, rfl⟩

theorem exec_tenantId {tenant : Str} {r : DbRes (.tenantId tenant)}
    (h : exec hashtext me ch db (.tenantId tenant) = some (r, db')) :
    db' = db ∧ (r = .ok (db.tenantIds tenant) ∨ ∃ e, r = .error e) := by
  simp only [exec, Option.map_eq_some_iff] at h
  obtain ⟨_, -, h⟩ := h
  cases h
  refine ⟨rfl, ?_⟩
  split
  · exact .inr ⟨_, rfl⟩
  · exact .inl rfl

theorem exec_countOthers {id : Nat} {func : Str} {r : DbRes (.countOthers id func)}
    (h : exec hashtext me ch db (.countOthers id func) = some (r, db')) :
    db' = db ∧ ((∃ writes, db.txs me = some writes ∧
      r = .ok ((db.visible writes).countOthers id func : Int)) ∨ ∃ e, r = .error e) := by
  simp only [exec, Option.map_eq_some_iff] at h
  obtain ⟨writes, hw, h⟩ := h
  cases h
  refine ⟨rfl, ?_⟩
  split
  · exact .inr ⟨_, rfl⟩
  · exact .inl ⟨writes, hw, rfl⟩

theorem exec_upsert {row : FunctionRow} {r : DbRes (.upsert row)}
    (h : exec hashtext me ch db (.upsert row) = some (r, db')) :
    (∃ writes, db.txs me = some writes ∧ r = .ok () ∧ db' = db.write me writes row) ∨
      (∃ e, r = .error e) ∧ db' = db := by
  simp only [exec] at h
  split at h
  · cases h
  · rename_i writes hw
    split at h
    · cases h; exact .inr ⟨⟨_, rfl⟩, rfl⟩
    · split at h <;> cases h
      exact .inl ⟨writes, hw, rfl, rfl⟩

theorem exec_functionHash {tenant func : Str} {r : DbRes (.functionHash tenant func)}
    (h : exec hashtext me ch db (.functionHash tenant func) = some (r, db')) :
    db' = db ∧ ((∃ writes, db.txs me = some writes ∧
      r = .ok ((db.tenantIds tenant).bind fun id => (db.visible writes).hash id func)) ∨
      ∃ e, r = .error e) := by
  simp only [exec, Option.map_eq_some_iff] at h
  obtain ⟨writes, hw, h⟩ := h
  cases h
  refine ⟨rfl, ?_⟩
  split
  · exact .inr ⟨_, rfl⟩
  · exact .inl ⟨writes, hw, rfl⟩

/-- A commit takes effect, reported so or not, or is rolled back. -/
theorem exec_commit {r : DbRes .commit} (h : exec hashtext me ch db .commit = some (r, db')) :
    ∃ writes, db.txs me = some writes ∧
      ((r = .ok () ∧ ch.fail = false ∨ (∃ e, r = .error e) ∧ ch.tookEffect = true) ∧
          db' = db.endTx me (db.visible writes) ∨
        (∃ e, r = .error e) ∧ ch.tookEffect = false ∧ db' = db.endTx me db.functions) := by
  simp only [exec, Option.map_eq_some_iff] at h
  obtain ⟨writes, hw, h⟩ := h
  refine ⟨writes, hw, ?_⟩
  split at h
  · rename_i hf
    cases h; exact .inl ⟨.inl ⟨rfl, by simpa using hf⟩, rfl⟩
  · split at h <;> cases h
    · rename_i ht
      exact .inl ⟨.inr ⟨⟨_, rfl⟩, ht⟩, rfl⟩
    · rename_i ht
      exact .inr ⟨⟨_, rfl⟩, by simpa using ht, rfl⟩

theorem exec_rollback {r : DbRes .rollback} (h : exec hashtext me ch db .rollback = some (r, db')) :
    db' = db.endTx me db.functions := by
  simp only [exec, Option.map_eq_some_iff] at h
  obtain ⟨_, -, h⟩ := h
  cases h
  rfl

omit [DecidableEq τ] in
theorem frame_takeLock {c : DbCall} {key : Int}
    (h : db.locks key = none ∨ db.locks key = some me) : Frame me c db (db.takeLock me key) := by
  refine ⟨rfl, fun _ => rfl, fun _ _ => rfl, fun u k hu => ?_⟩
  simp only [takeLock]
  by_cases hk : k = key
  · subst hk
    rcases h with h | h <;> simp [h, Ne.symm hu]
  · rw [Function.update_of_ne hk]

theorem exec_frame {c : DbCall} {r : DbRes c} (h : exec hashtext me ch db c = some (r, db')) :
    Frame me c db db' := by
  cases c with
  | beginTx =>
    obtain ⟨-, rfl⟩ | ⟨-, rfl⟩ := exec_beginTx h
    · exact ⟨rfl, fun _ => rfl, fun u hu => Function.update_of_ne hu _ _, fun _ _ _ => .rfl⟩
    · exact .refl ..
  | setLocal => exact exec_setLocal h ▸ .refl ..
  | lockTenant tenant =>
    obtain ⟨-, hfree, rfl⟩ | ⟨-, rfl⟩ := exec_lockTenant h
    · exact frame_takeLock hfree
    · exact .refl ..
  | tenantId => exact (exec_tenantId h).1 ▸ .refl ..
  | countOthers => exact (exec_countOthers h).1 ▸ .refl ..
  | upsert row =>
    obtain ⟨writes, -, -, rfl⟩ | ⟨-, rfl⟩ := exec_upsert h
    · exact ⟨rfl, fun _ => rfl, fun u hu => Function.update_of_ne hu _ _, fun _ _ _ => .rfl⟩
    · exact .refl ..
  | functionHash => exact (exec_functionHash h).1 ▸ .refl ..
  | commit =>
    obtain ⟨writes, -, ⟨-, rfl⟩ | ⟨-, -, rfl⟩⟩ := exec_commit h <;>
      exact frame_endTx me db fun hc => absurd rfl hc
  | rollback => exact exec_rollback h ▸ frame_endTx me db fun _ => rfl

/-- A call that is not made to fail succeeds. -/
theorem exec_ok {c : DbCall} {r : DbRes c} (h : exec hashtext me ch db c = some (r, db'))
    (hf : ch.fail = false) : ∃ a, r = .ok a := by
  cases c <;> simp only [exec, hf, Option.map_eq_some_iff, Bool.false_eq_true, if_false] at h
  case beginTx =>
    split at h <;> cases h
    exact ⟨_, rfl⟩
  case lockTenant | upsert =>
    split at h
    · cases h
    · split at h <;> cases h
      exact ⟨_, rfl⟩
  all_goals
    obtain ⟨_, -, h⟩ := h
    cases h
    exact ⟨_, rfl⟩

/-- Within a transaction a lock once taken is held. -/
theorem exec_locks {c : DbCall} {r : DbRes c} (h : exec hashtext me ch db c = some (r, db'))
    (hc : c ≠ .commit) (hr : c ≠ .rollback) {k : Int} (hk : db.locks k = some me) :
    db'.locks k = some me := by
  cases c with
  | beginTx => obtain ⟨-, rfl⟩ | ⟨-, rfl⟩ := exec_beginTx h <;> exact hk
  | setLocal => exact exec_setLocal h ▸ hk
  | lockTenant tenant =>
    obtain ⟨-, hfree, rfl⟩ | ⟨-, rfl⟩ := exec_lockTenant h
    · by_cases hkey : k = hashtext tenant
      · subst hkey
        exact Function.update_self ..
      · exact (Function.update_of_ne hkey _ _).trans hk
    · exact hk
  | tenantId => exact (exec_tenantId h).1 ▸ hk
  | countOthers => exact (exec_countOthers h).1 ▸ hk
  | upsert row => obtain ⟨_, -, -, rfl⟩ | ⟨-, rfl⟩ := exec_upsert h <;> exact hk
  | functionHash => exact (exec_functionHash h).1 ▸ hk
  | commit => exact absurd rfl hc
  | rollback => exact absurd rfl hr

end Db

end Warpline
