import Warpline.Core.Proof.KvRun
import Warpline.Storefront.Kv

/-!
# The transactions of the Postgres store

What the two sums of a `put` are, what each statement may do to the database (`KvDb.Change`), and
what a transaction keeps of the rows it has read while others run.

`KvGuarded`: what a transaction has written is of a tenant whose lock it holds. So a tenant's rows
stay as they are while a transaction has its lock (`KvTxKept`).
-/

set_option autoImplicit false

namespace Warpline

open Conc

/-! ## What the sums are -/

theorem sum_filter {α : Type} (p : α → Bool) (w : α → Nat) (l : List α) :
    ((l.filter p).map fun a => (w a : Int)).sum = ((l.map fun a => if p a then w a else 0).sum : Nat) := by
  induction l with
  | nil => rfl
  | cons a l ih =>
    by_cases h : p a
    · simp [h, ih]
    · simp [h, ih]

namespace HookKv

theorem sum_eq (rows : HookKv) (filter : Str × Str → Bool) :
    rows.sum ENTRY_OVERHEAD_BYTES filter =
      ((rows.entries.map fun e => if filter e.1 then MemKv.cost e.1.2 e.2 else 0).sum : Nat) := by
  rw [← sum_filter (fun e : (_ : Str × Str) × List UInt8 => filter e.1)
    (fun e => MemKv.cost e.1.2 e.2)]
  simp [sum, MemKv.cost]

/-- What a tenant's rows cost. -/
theorem sum_tenant (rows : HookKv) (tenant : Str) :
    rows.sum ENTRY_OVERHEAD_BYTES (fun k => k.1 = tenant) = MemKv.storedBytes rows tenant := by
  rw [sum_eq]
  unfold MemKv.storedBytes
  congr 3
  funext e
  simp [MemKv.charge]

/-- What the row of a key costs. -/
def costOf (rows : HookKv) (tenant key : Str) : Nat :=
  ((rows.lookup (tenant, key)).map (MemKv.cost key)).getD 0

theorem sum_key (rows : HookKv) (tenant key : Str) :
    rows.sum ENTRY_OVERHEAD_BYTES (fun k => k.1 = tenant ∧ k.2 = key) = costOf rows tenant key := by
  rw [sum_eq, MemKv.sum_kerase _ rows (tenant, key)]
  have hrest : ((rows.entries.kerase (tenant, key)).map fun e : (_ : Str × Str) × List UInt8 =>
      if decide (e.1.1 = tenant ∧ e.1.2 = key) then MemKv.cost e.1.2 e.2 else 0).sum = 0 := by
    refine List.sum_eq_zero fun n hn => ?_
    obtain ⟨e, he, rfl⟩ := List.mem_map.1 hn
    have hne : e.1 ≠ (tenant, key) := by
      intro heq
      have hk := List.mem_keys_of_mem he
      rw [heq] at hk
      exact List.notMem_keys_kerase (tenant, key) rows.nodupKeys hk
    have : ¬(e.1.1 = tenant ∧ e.1.2 = key) := fun h => hne (Prod.ext h.1 h.2)
    simp [this]
  rw [hrest, Nat.add_zero]
  simp [costOf]

end HookKv

/-! ## What a statement does -/

namespace KvDb

variable {τ : Type} [DecidableEq τ] {hash : Str → Int} {me : τ} {ch : KvChoice} {db db' : KvDb τ}

/-- What a statement of `me` may do to the database. -/
inductive Change (hash : Str → Int) (me : τ) (db : KvDb τ) : PgKvCall → KvDb τ → Prop
  | none {c : PgKvCall} : Change hash me db c db
  | openTx : db.txs me = none → Change hash me db .beginTx (db.openTx me)
  | takeLock {tenant : Str} :
      db.locks (hash tenant) = none ∨ db.locks (hash tenant) = some me →
      Change hash me db (.lockTenant tenant) (db.takeLock me (hash tenant))
  | write {tenant key : Str} {value : List UInt8} {writes : List KvRow} : db.txs me = some writes →
      Change hash me db (.upsert tenant key value) (db.write me writes ⟨tenant, key, value⟩)
  | commit {writes : List KvRow} : db.txs me = some writes →
      Change hash me db .commit (db.endTx me (db.visible writes))
  | endTx {c : PgKvCall} : Change hash me db c (db.endTx me db.rows)

theorem exec_beginTx {r : PgKvRes .beginTx} (h : exec hash me ch db .beginTx = some (r, db')) :
    db.txs me = none ∧ r = .ok () ∧ db' = db.openTx me ∨ (∃ e, r = .error e) ∧ db' = db := by
  simp only [exec] at h
  split at h
  · cases h
  · rename_i htx
    split at h <;> cases h
    · exact .inr ⟨⟨_, rfl⟩, rfl⟩
    · exact .inl ⟨htx, rfl, rfl⟩

theorem exec_selectValue {tenant key : Str} {r : PgKvRes (.selectValue tenant key)}
    (h : exec hash me ch db (.selectValue tenant key) = some (r, db')) :
    (r = .ok (db.rows.lookup (tenant, key)) ∨ ∃ e, r = .error e) ∧ db' = db := by
  simp only [exec, Option.some.injEq, Prod.mk.injEq] at h
  obtain ⟨rfl, rfl⟩ := h
  refine ⟨?_, rfl⟩
  split
  · exact .inr ⟨_, rfl⟩
  · exact .inl rfl

theorem exec_lockTenant {tenant : Str} {r : PgKvRes (.lockTenant tenant)}
    (h : exec hash me ch db (.lockTenant tenant) = some (r, db')) :
    (db.locks (hash tenant) = none ∨ db.locks (hash tenant) = some me) ∧ r = .ok () ∧
      db' = db.takeLock me (hash tenant) ∨ (∃ e, r = .error e) ∧ db' = db := by
  simp only [exec] at h
  split at h
  · split at h <;> cases h
    rename_i hfree
    exact .inl ⟨hfree, rfl, rfl⟩
  · cases h
    exact .inr ⟨⟨_, rfl⟩, rfl⟩

theorem exec_sums {tenant key : Str} {overhead : Int} {r : PgKvRes (.sums tenant key overhead)}
    (h : exec hash me ch db (.sums tenant key overhead) = some (r, db')) :
    ((∃ writes q, db.txs me = some writes ∧
      sumsOf (db.visible writes) tenant key overhead = some q ∧ r = .ok q) ∨
      ∃ e, r = .error e) ∧ db' = db := by
  simp only [exec] at h
  split at h
  · rename_i writes hw hf
    split at h
    · rename_i q hq
      cases h
      exact ⟨.inl ⟨writes, q, hw, hq, rfl⟩, rfl⟩
    · cases h
      exact ⟨.inr ⟨_, rfl⟩, rfl⟩
  · cases h
    exact ⟨.inr ⟨_, rfl⟩, rfl⟩

theorem exec_upsert {tenant key : Str} {value : List UInt8} {r : PgKvRes (.upsert tenant key value)}
    (h : exec hash me ch db (.upsert tenant key value) = some (r, db')) :
    (∃ writes, db.txs me = some writes ∧ r = .ok () ∧
      db' = db.write me writes ⟨tenant, key, value⟩) ∨ (∃ e, r = .error e) ∧ db' = db := by
  simp only [exec] at h
  split at h
  · rename_i writes hw hf
    split at h <;> cases h
    exact .inl ⟨writes, hw, rfl, rfl⟩
  · cases h
    exact .inr ⟨⟨_, rfl⟩, rfl⟩

/-- A commit takes effect, reported so or not, or its writes are gone. -/
theorem exec_commit {r : PgKvRes .commit} (h : exec hash me ch db .commit = some (r, db')) :
    (∃ writes, db.txs me = some writes ∧ db' = db.endTx me (db.visible writes)) ∨
      (∃ e, r = .error e) ∧ (db' = db.endTx me db.rows ∨ db' = db) := by
  simp only [exec] at h
  split at h
  · rename_i writes hw
    split at h
    · cases h
      exact .inl ⟨writes, hw, rfl⟩
    · split at h <;> cases h
      · exact .inl ⟨writes, hw, rfl⟩
      · exact .inr ⟨⟨_, rfl⟩, .inl rfl⟩
  · cases h
    exact .inr ⟨⟨_, rfl⟩, .inr rfl⟩

theorem exec_rollback {r : PgKvRes .rollback} (h : exec hash me ch db .rollback = some (r, db')) :
    db' = db.endTx me db.rows := by
  simp only [exec, Option.some.injEq, Prod.mk.injEq] at h
  exact h.2.symm

theorem exec_change {c : PgKvCall} {r : PgKvRes c} (h : exec hash me ch db c = some (r, db')) :
    Change hash me db c db' := by
  cases c with
  | beginTx =>
    obtain ⟨htx, -, rfl⟩ | ⟨-, rfl⟩ := exec_beginTx h
    · exact .openTx htx
    · exact .none
  | lockTenant tenant =>
    obtain ⟨hfree, -, rfl⟩ | ⟨-, rfl⟩ := exec_lockTenant h
    · exact .takeLock hfree
    · exact .none
  | sums => exact (exec_sums h).2 ▸ .none
  | upsert =>
    obtain ⟨writes, hw, -, rfl⟩ | ⟨-, rfl⟩ := exec_upsert h
    · exact .write hw
    · exact .none
  | commit =>
    obtain ⟨writes, hw, rfl⟩ | ⟨-, rfl | rfl⟩ := exec_commit h
    · exact .commit hw
    · exact .endTx
    · exact .none
  | rollback => exact exec_rollback h ▸ .endTx
  | selectValue => exact (exec_selectValue h).2 ▸ .none

end KvDb

/-! ## Transactions do not disturb each other -/

section
variable {τ : Type} [DecidableEq τ] {hash : Str → Int} {db db' : KvDb τ} {me v : τ} {k : Int}
  {c : PgKvCall}

/-- What a transaction has written is of a tenant whose lock it holds. -/
def KvGuarded (hash : Str → Int) (db : KvDb τ) : Prop :=
  ∀ u writes, db.txs u = some writes → ∀ row ∈ writes, db.locks (hash row.tenant) = some u

/-- The rows of one tenant are the same. -/
structure SameRows (tenant : Str) (rows rows' : HookKv) : Prop where
  stored : MemKv.storedBytes rows' tenant = MemKv.storedBytes rows tenant
  value : ∀ key, rows'.lookup (tenant, key) = rows.lookup (tenant, key)

/-- A step of the others, seen by `v`: its transaction is gone, or it has its locks, and the rows of
the tenants it has locked are the same. -/
def KvTxKept (hash : Str → Int) (v : τ) (db db' : KvDb τ) : Prop :=
  ∀ writes, db'.txs v = some writes → db.txs v = some writes ∧
    ∀ tenant, db.locks (hash tenant) = some v →
      db'.locks (hash tenant) = some v ∧ SameRows tenant db.rows db'.rows

theorem SameRows.refl (tenant : Str) (rows : HookKv) : SameRows tenant rows rows :=
  ⟨rfl, fun _ => rfl⟩

omit [DecidableEq τ] in
/-- Rows of other tenants leave a tenant's rows the same. -/
theorem SameRows.visible {tenant : Str} {writes : List KvRow} (db : KvDb τ)
    (h : ∀ row ∈ writes, row.tenant ≠ tenant) : SameRows tenant db.rows (db.visible writes) := by
  unfold KvDb.visible
  generalize db.rows = rows
  induction writes generalizing rows with
  | nil => exact .refl tenant rows
  | cons row writes ih =>
    have hne := h row (.head _)
    obtain ⟨hs, hv⟩ := ih (fun r hr => h r (.tail _ hr)) (rows.insert (row.tenant, row.key) row.value)
    refine ⟨hs.trans (MemKv.storedBytes_insert_ne _ _ _ hne), fun key => (hv key).trans ?_⟩
    exact AList.lookup_insert_ne fun heq => hne (congrArg Prod.fst heq).symm

theorem endTx_locks (h : db.locks k = some v) (hv : v ≠ me) (rows : HookKv) :
    (db.endTx me rows).locks k = some v := by
  show (if db.locks k = some me then none else db.locks k) = some v
  rw [h, if_neg (by simpa using hv)]

theorem endTx_txs (hv : v ≠ me) (rows : HookKv) : (db.endTx me rows).txs v = db.txs v :=
  Function.update_of_ne hv _ _

theorem KvGuarded.endTx (h : KvGuarded hash db) (me : τ) (rows : HookKv) :
    KvGuarded hash (db.endTx me rows) := by
  intro u writes hu row hrow
  have hne : u ≠ me := by
    rintro rfl
    simp [KvDb.endTx] at hu
  rw [endTx_txs hne] at hu
  exact endTx_locks (h u writes hu row hrow) hne rows

/-- The end of a transaction, with rows the others have not locked. -/
theorem kvTxKept_endTx {rows : HookKv}
    (h : ∀ tenant, db.locks (hash tenant) = some v → SameRows tenant db.rows rows) (me : τ) :
    KvTxKept hash v db (db.endTx me rows) := by
  intro writes hw
  have hne : v ≠ me := by
    rintro rfl
    simp [KvDb.endTx] at hw
  rw [endTx_txs hne] at hw
  exact ⟨hw, fun tenant hl => ⟨endTx_locks hl hne rows, h tenant hl⟩⟩

namespace KvDb.Change

/-- A row is written under the lock of its tenant. -/
theorem guarded (hc : Change hash me db c db') (h : KvGuarded hash db)
    (hw : ∀ tenant key value writes, c = .upsert tenant key value → db.txs me = some writes →
      db.locks (hash tenant) = some me) : KvGuarded hash db' := by
  cases hc with
  | none => exact h
  | openTx =>
    intro u writes hu row hrow
    by_cases hne : u = me
    · subst hne
      simp only [KvDb.openTx, Function.update_self, Option.some.injEq] at hu
      subst hu
      cases hrow
    · exact h u writes (by simpa [KvDb.openTx, hne] using hu) row hrow
  | @takeLock tenant hfree =>
    intro u writes hu row hrow
    have hl := h u writes hu row hrow
    by_cases hk : hash row.tenant = hash tenant
    · rw [← hk, hl] at hfree
      have hme : u = me := by simpa using hfree
      simp [KvDb.takeLock, hk, hme]
    · simpa [KvDb.takeLock, hk] using hl
  | @write tenant key value ws hws =>
    intro u writes hu row hrow
    by_cases hne : u = me
    · subst hne
      simp only [KvDb.write, Function.update_self, Option.some.injEq] at hu
      subst hu
      obtain hrow | hrow := List.mem_append.1 hrow
      · exact h u ws hws row hrow
      · cases List.mem_singleton.1 hrow
        exact hw tenant key value ws rfl hws
    · exact h u writes (by simpa [KvDb.write, hne] using hu) row hrow
  | commit => exact h.endTx me _
  | endTx => exact h.endTx me _

theorem txKept (hc : Change hash me db c db') (h : KvGuarded hash db) (hv : v ≠ me) :
    KvTxKept hash v db db' := by
  cases hc with
  | none => exact fun writes hw => ⟨hw, fun tenant hl => ⟨hl, .refl _ _⟩⟩
  | openTx =>
    exact fun writes hw => ⟨by simpa [KvDb.openTx, hv] using hw, fun tenant hl => ⟨hl, .refl _ _⟩⟩
  | @takeLock tenant hfree =>
    refine fun writes hw => ⟨hw, fun other hl => ⟨?_, .refl _ _⟩⟩
    have hk : hash other ≠ hash tenant := by
      intro hk
      rw [← hk, hl] at hfree
      exact hv (by simpa using hfree)
    simpa [KvDb.takeLock, hk] using hl
  | write =>
    exact fun writes hw => ⟨by simpa [KvDb.write, hv] using hw, fun tenant hl => ⟨hl, .refl _ _⟩⟩
  | @commit writes hw =>
    -- `v` holds the lock of the tenant, so none of the rows is the tenant's
    refine kvTxKept_endTx (fun tenant hl => .visible db fun row hrow heq => ?_) me
    have hme := h me writes hw row hrow
    rw [heq, hl] at hme
    exact hv (Option.some.inj hme)
  | endTx => exact kvTxKept_endTx (fun tenant _ => .refl tenant _) me

end KvDb.Change

end

end Warpline
