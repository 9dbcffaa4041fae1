import Warpline.Conc.Linear
import Warpline.Control.Proof.QuotaRun

/-!
# Uploads are linearizable

`Upload.decide` is what an upload should come to: one decision on the table of functions, taken at
once. The uploads of any number of processes, whatever statements and file-system calls fail and
whatever processes crash, agree with such decisions taken one at a time: a refused upload decides
where it reads the tenant or counts its functions, any other one at its commit.

`UpGuarded`: what a transaction has written is of a tenant whose lock it holds, so what it has
counted stays as it is until it ends (`UpKept`).
-/

set_option autoImplicit false

namespace Warpline

open Conc Fs

/-! ## The decision -/

section
variable {W : Wasm}

/-- Too many other functions. -/
def Upload.full (u : Upload W) (others : Int) : Bool := u.maxFunctions ≤ others

def Upload.quotaExceeded (u : Upload W) : HttpError :=
  (403, "tenant function quota exceeded (" ++ toString u.maxFunctions ++ " max)")

def Upload.decide (u : Upload W) (tenantIds : Str → Option Nat) (rows : Functions) :
    Except HttpError Str × Functions :=
  match tenantIds u.tenant with
  | none => (.error (401, "unauthorized"), rows)
  | some id =>
    if u.full (rows.countOthers id u.func) then (.error u.quotaExceeded, rows)
    else (.ok (W.digest u.wasm), rows.upsert ⟨id, u.func, W.digest u.wasm⟩)

/-- The service has failed. -/
def ServerError (g : Except HttpError Str) : Prop := ∃ text, g = .error (500, text)

/-- The answer is that of `decide` on the rows, or an error of the server's. -/
abbrev UpAnswered (tenantIds : Str → Option Nat) (u : Upload W) :
    Functions → Except HttpError Str → Functions → Prop :=
  AnsweredBy (u.decide tenantIds) ServerError

/-- What an upload comes to, once one of its calls is answered. A rollback settles one that could
not write its pointer. -/
def Upload.settles (u : Upload W) : (c : UploadCall) → UploadRes c → Option (Except HttpError Str)
  | .inr .beginTx, .error e => some (.error (internalError e))
  | .inr (.setLocal _), .error e => some (.error (internalError e))
  | .inr (.lockTenant _), .error e => some (.error (internalError e))
  | .inr (.tenantId _), .error e => some (.error (internalError e))
  | .inr (.tenantId _), .ok none => some (.error (401, "unauthorized"))
  | .inr (.countOthers _ _), .error e => some (.error (internalError e))
  | .inr (.countOthers _ _), .ok n => if u.full n then some (.error u.quotaExceeded) else none
  | .inr (.upsert _), .error e => some (.error (internalError e))
  | .inr .commit, .ok _ => some (.ok (W.digest u.wasm))
  | .inr .commit, .error e => some (.error (internalError e))
  | .inr .rollback, _ => some (.error (500, "failed to publish module"))
  | _, _ => none

/-- Results of uploads that never reach the database. -/
def NotStaged (g : Except HttpError Str) : Prop :=
  ∃ e, g = .error e ∧ (e.1 = 400 ∨ e.1 = 422 ∨ e.1 = 500)

end

/-! ## What a statement does -/

section
variable {τ : Type} [DecidableEq τ] {hashtext : Str → Int} {me v : τ} {db db' : Db τ} {c : DbCall}

/-- A statement of a transaction that may have been ended. -/
def DbStep (hashtext : Str → Int) (me : τ) (db : Db τ) (c : DbCall) (r : DbRes c) (db' : Db τ) :
    Prop :=
  (∃ ch, Db.exec hashtext me ch db c = some (r, db')) ∨
    db.txs me = none ∧ (∃ e, r = .error e) ∧ db' = db

/-- What a statement of `me` may do to the database. -/
inductive Db.Change (hashtext : Str → Int) (me : τ) (db : Db τ) : DbCall → Db τ → Prop
  | none {c : DbCall} : Db.Change hashtext me db c db
  | openTx : Db.Change hashtext me db .beginTx (db.setTx me (some []))
  | takeLock {tenant : Str} :
      db.locks (hashtext tenant) = none ∨ db.locks (hashtext tenant) = some me →
      Db.Change hashtext me db (.lockTenant tenant) (db.takeLock me (hashtext tenant))
  | write {row : FunctionRow} {writes : List FunctionRow} : db.txs me = some writes →
      Db.Change hashtext me db (.upsert row) (db.write me writes row)
  | commit {writes : List FunctionRow} : db.txs me = some writes →
      Db.Change hashtext me db .commit (db.endTx me (db.visible writes))
  | endTx {c : DbCall} : Db.Change hashtext me db c (db.endTx me db.functions)

theorem DbStep.change {r : DbRes c} (h : DbStep hashtext me db c r db') :
    Db.Change hashtext me db c db' := by
  obtain ⟨ch, hx⟩ | ⟨-, -, rfl⟩ := h
  swap
  · exact .none
  cases c with
  | beginTx =>
    obtain ⟨-, rfl⟩ | ⟨-, rfl⟩ := Db.exec_beginTx hx
    · exact .openTx
    · exact .none
  | setLocal => exact Db.exec_setLocal hx ▸ .none
  | lockTenant tenant =>
    obtain ⟨-, hfree, rfl⟩ | ⟨-, rfl⟩ := Db.exec_lockTenant hx
    · exact .takeLock hfree
    · exact .none
  | tenantId => exact (Db.exec_tenantId hx).1 ▸ .none
  | countOthers => exact (Db.exec_countOthers hx).1 ▸ .none
  | upsert row =>
    obtain ⟨writes, hw, -, rfl⟩ | ⟨-, rfl⟩ := Db.exec_upsert hx
    · exact .write hw
    · exact .none
  | functionHash => exact (Db.exec_functionHash hx).1 ▸ .none
  | commit =>
    obtain ⟨writes, hw, ⟨-, rfl⟩ | ⟨-, -, rfl⟩⟩ := Db.exec_commit hx
    · exact .commit hw
    · exact .endTx
  | rollback => exact Db.exec_rollback hx ▸ .endTx

/-- What a transaction has written is of a tenant whose lock it holds. -/
def UpGuarded (hashtext : Str → Int) (db : Db τ) : Prop :=
  ∀ t writes, db.txs t = some writes → ∀ row ∈ writes,
    ∃ name, db.tenantIds name = some row.tenantId ∧ db.locks (hashtext name) = some t

/-- A step of the others, seen by `v`: its transaction is gone, or it has its locks, and the
functions of the tenants it has locked count the same. -/
structure UpKept (hashtext : Str → Int) (v : τ) (db db' : Db τ) : Prop where
  tenantIds : db'.tenantIds = db.tenantIds
  tx : ∀ writes, db'.txs v = some writes → db.txs v = some writes ∧
    (∀ k, db.locks k = some v → db'.locks k = some v) ∧
    ∀ name id, db.tenantIds name = some id → db.locks (hashtext name) = some v →
      ∀ f, db'.functions.countOthers id f = db.functions.countOthers id f

omit [DecidableEq τ] in
theorem UpKept.refl (v : τ) (db : Db τ) : UpKept hashtext v db db :=
  ⟨rfl, fun _ h => ⟨h, fun _ hk => hk, fun _ _ _ _ _ => rfl⟩⟩

theorem endTx_lock {k : Int} (h : db.locks k = some v) (hv : v ≠ me) (rows : Functions) :
    (db.endTx me rows).locks k = some v := by
  show (if db.locks k = some me then none else db.locks k) = some v
  rw [h, if_neg (by simpa using hv)]

theorem endTx_tx {rows : Functions} {writes : List FunctionRow}
    (h : (db.endTx me rows).txs v = some writes) : v ≠ me ∧ db.txs v = some writes := by
  have hne : v ≠ me := by
    rintro rfl
    simp [Db.endTx] at h
  exact ⟨hne, by simpa [Db.endTx, hne] using h⟩

theorem UpGuarded.endTx (h : UpGuarded hashtext db) (me : τ) (rows : Functions) :
    UpGuarded hashtext (db.endTx me rows) := by
  intro u writes hu row hrow
  obtain ⟨hne, hu⟩ := endTx_tx hu
  obtain ⟨name, hid, hl⟩ := h u writes hu row hrow
  exact ⟨name, hid, endTx_lock hl hne rows⟩

namespace Db.Change

theorem tenantIds (hc : Db.Change hashtext me db c db') : db'.tenantIds = db.tenantIds := by
  cases hc <;> rfl

/-- A row is written under the lock of its tenant. -/
theorem upGuarded (hc : Db.Change hashtext me db c db') (h : UpGuarded hashtext db)
    (hw : ∀ row, c = .upsert row → ∀ writes, db.txs me = some writes →
      ∃ name, db.tenantIds name = some row.tenantId ∧ db.locks (hashtext name) = some me) :
    UpGuarded hashtext db' := by
  cases hc with
  | none => exact h
  | openTx =>
    intro u writes hu row hrow
    by_cases hne : u = me
    · subst hne
      simp only [Db.setTx, Function.update_self, Option.some.injEq] at hu
      subst hu
      cases hrow
    · exact h u writes (by simpa [Db.setTx, hne] using hu) row hrow
  | @takeLock tenant hfree =>
    intro u writes hu row hrow
    obtain ⟨name, hid, hl⟩ := h u writes hu row hrow
    refine ⟨name, hid, ?_⟩
    by_cases hk : hashtext name = hashtext tenant
    · rw [← hk, hl] at hfree
      have hme : u = me := by simpa using hfree
      simp [Db.takeLock, hk, hme]
    · simpa [Db.takeLock, hk] using hl
  | @write row' ws hws =>
    intro u writes hu row hrow
    by_cases hne : u = me
    · subst hne
      simp only [Db.write, Function.update_self, Option.some.injEq] at hu
      subst hu
      obtain hrow | hrow := List.mem_append.1 hrow
      · exact h u ws hws row hrow
      · cases List.mem_singleton.1 hrow
        exact hw row' rfl ws hws
    · exact h u writes (by simpa [Db.write, hne] using hu) row hrow
  | commit => exact h.endTx me _
  | endTx => exact h.endTx me _

theorem upKept (hc : Db.Change hashtext me db c db') (h : UpGuarded hashtext db) (hv : v ≠ me) :
    UpKept hashtext v db db' := by
  refine ⟨hc.tenantIds, fun ws hw => ?_⟩
  cases hc with
  | none => exact ⟨hw, fun k hk => hk, fun _ _ _ _ _ => rfl⟩
  | openTx =>
    exact ⟨by simpa [Db.setTx, hv] using hw, fun k hk => hk, fun _ _ _ _ _ => rfl⟩
  | @takeLock tenant hfree =>
    refine ⟨hw, fun k hk => ?_, fun _ _ _ _ _ => rfl⟩
    have hne : k ≠ hashtext tenant := by
      rintro rfl
      rw [hk] at hfree
      exact hv (by simpa using hfree)
    simpa [Db.takeLock, hne] using hk
  | write => exact ⟨by simpa [Db.write, hv] using hw, fun k hk => hk, fun _ _ _ _ _ => rfl⟩
  | @commit writes hws =>
    obtain ⟨hne, hw⟩ := endTx_tx hw
    refine ⟨hw, fun k hk => endTx_lock hk hne _, fun name id hid hl f => ?_⟩
    -- `v` holds the lock of the tenant, so none of the rows is the tenant's
    have hno : ∀ row ∈ writes, row.tenantId ≠ id := by
      rintro row hrow rfl
      obtain ⟨other, hother, hlo⟩ := h me writes hws row hrow
      rw [db.ids_unique hother hid, hl] at hlo
      exact hv (Option.some.inj hlo)
    exact Nat.le_antisymm
      (Functions.countOthers_mono _ _ _ _ fun k hk hid => .inl ((visible_others hno hid).1 hk))
      (Functions.countOthers_mono _ _ _ _ fun k hk hid => .inl ((visible_others hno hid).2 hk))
  | endTx =>
    obtain ⟨hne, hw⟩ := endTx_tx hw
    exact ⟨hw, fun k hk => endTx_lock hk hne _, fun _ _ _ _ _ => rfl⟩

end Db.Change

/-! ## The invariant -/

variable {W : Wasm} {u : τ → Upload W} {tenantIds : Str → Option Nat} {rows₀ : Functions}

/-- The committed rows are those of the uploads that have settled, in their order. -/
structure UpInv (hashtext : Str → Int) (u : τ → Upload W) (tenantIds : Str → Option Nat)
    (rows₀ : Functions) (s : UploadState τ) : Prop where
  guarded : UpGuarded hashtext s.state.db
  ids : s.state.db.tenantIds = tenantIds
  linear : Linear (fun t => (u t).settles) (fun rows t => UpAnswered tenantIds (u t) rows) rows₀
    (fun rows s => rows = s.db.functions) s

def upThread (hashtext : Str → Int) (u : τ → Upload W) (tenantIds : Str → Option Nat)
    (rows₀ : Functions) (t : τ) : Thread (UploadState τ) UploadCall UploadRes where
  exec := fun s c r s' => UpInv hashtext u tenantIds rows₀ s ∧
    (crashSystem hashtext).exec (fun _ => none) t s.state c r s'.state ∧
    s'.trace = (t, ⟨c, r⟩) :: s.trace
  rely := fun _ s s' => Trace.of t s'.trace = Trace.of t s.trace ∧
    UpKept hashtext t s.state.db s'.state.db
  guar := fun _ s s' => UpInv hashtext u tenantIds rows₀ s' ∧ ∀ v, v ≠ t →
    Trace.of v s'.trace = Trace.of v s.trace ∧ UpKept hashtext v s.state.db s'.state.db

variable {t : τ} {s s' : UploadState τ}

/-- What thread `t`'s calls say of its upload. -/
def UpSettled (u : τ → Upload W) (t : τ) (g : Option (Except HttpError Str)) (s : UploadState τ) :
    Prop :=
  first (u t).settles (Trace.of t s.trace) = g

theorem dbStep {r : DbRes c} (he : (upThread hashtext u tenantIds rows₀ t).exec s (.inr c) r s') :
    DbStep hashtext t s.state.db c r s'.state.db := by
  obtain ⟨-, ⟨ch, hx⟩ | ⟨⟨-, htx, hr⟩, hs⟩, -⟩ := he
  · exact .inl ⟨_, (uploadExec_db hx).1⟩
  · exact .inr ⟨htx, ⟨_, hr⟩, by rw [hs]⟩

theorem upSettled_cons {c : UploadCall} {r : UploadRes c}
    (he : (upThread hashtext u tenantIds rows₀ t).exec s c r s') (hu : UpSettled u t none s) :
    UpSettled u t ((u t).settles c r) s' := by
  unfold UpSettled at hu ⊢
  rw [he.2.2, Trace.of_cons_self, first_cons, hu, Option.none_or]

theorem upSettled_keep {c : UploadCall} {r : UploadRes c} {g : Except HttpError Str}
    (he : (upThread hashtext u tenantIds rows₀ t).exec s c r s') (hs : UpSettled u t (some g) s) :
    UpSettled u t (some g) s' := by
  unfold UpSettled at hs ⊢
  rw [he.2.2, Trace.of_cons_self, first_cons, hs, Option.some_or]

/-- What is to be shown of a statement: that the order still leads to the rows. -/
theorem up_step {r : DbRes c} (he : (upThread hashtext u tenantIds rows₀ t).exec s (.inr c) r s')
    (hw : ∀ row, c = .upsert row → ∀ writes, s.state.db.txs t = some writes →
      ∃ name, s.state.db.tenantIds name = some row.tenantId ∧
        s.state.db.locks (hashtext name) = some t)
    (hl : Linear (fun t => (u t).settles) (fun rows t => UpAnswered tenantIds (u t) rows) rows₀
      (fun rows s => rows = s.db.functions) s') :
    (upThread hashtext u tenantIds rows₀ t).guar (.inr c) s s' := by
  have hc := (dbStep he).change
  refine ⟨⟨hc.upGuarded he.1.guarded hw, hc.tenantIds.trans he.1.ids, hl⟩, fun v hv => ⟨?_, ?_⟩⟩
  · rw [he.2.2, Trace.of_cons_ne (Ne.symm hv)]
  · exact hc.upKept he.1.guarded hv

/-- A statement that settles nothing, or nothing new, leaves the rows. -/
theorem up_quiet {r : DbRes c} (he : (upThread hashtext u tenantIds rows₀ t).exec s (.inr c) r s')
    (hw : ∀ row, c = .upsert row → ∀ writes, s.state.db.txs t = some writes →
      ∃ name, s.state.db.tenantIds name = some row.tenantId ∧
        s.state.db.locks (hashtext name) = some t)
    (hs : (u t).settles (.inr c) r = none ∨ ∃ g, UpSettled u t (some g) s)
    (hrows : s'.state.db.functions = s.state.db.functions) :
    (upThread hashtext u tenantIds rows₀ t).guar (.inr c) s s' := by
  refine up_step he hw (he.1.linear.keep ?_ fun rows hr => hr.trans hrows.symm)
  rw [he.2.2]
  obtain hs | ⟨g, hg⟩ := hs
  · exact effects_none hs
  · exact effects_done _ hg

/-- The statement that settles the upload. -/
theorem up_point {r : DbRes c} (he : (upThread hashtext u tenantIds rows₀ t).exec s (.inr c) r s')
    (hw : ∀ row, c = .upsert row → ∀ writes, s.state.db.txs t = some writes →
      ∃ name, s.state.db.tenantIds name = some row.tenantId ∧
        s.state.db.locks (hashtext name) = some t)
    (hu : UpSettled u t none s) {g : Except HttpError Str}
    (hs : (u t).settles (.inr c) r = some g)
    (hstep : UpAnswered tenantIds (u t) s.state.db.functions g s'.state.db.functions) :
    (upThread hashtext u tenantIds rows₀ t).guar (.inr c) s s' ∧ UpSettled u t (some g) s' := by
  refine ⟨up_step he hw (he.1.linear.point he.2.2 hu hs fun rows hr => ⟨_, ?_, rfl⟩), ?_⟩
  · rw [hr]
    exact hstep
  · rw [← hs]
    exact upSettled_cons he hu

/-- A statement whose failure ends the upload. -/
theorem up_failed {e : DbError}
    (he : (upThread hashtext u tenantIds rows₀ t).exec s (.inr c) (.error e) s')
    (hw : ∀ row, c = .upsert row → ∀ writes, s.state.db.txs t = some writes →
      ∃ name, s.state.db.tenantIds name = some row.tenantId ∧
        s.state.db.locks (hashtext name) = some t)
    (hu : UpSettled u t none s) (hs : (u t).settles (.inr c) (.error e) = some (.error (internalError e)))
    (hrows : s'.state.db.functions = s.state.db.functions) :
    (upThread hashtext u tenantIds rows₀ t).guar (.inr c) s s' ∧
      UpSettled u t (some (.error (internalError e))) s' := by
  refine up_point he hw hu hs ?_
  rw [hrows]
  exact .failed ⟨_, rfl⟩

/-! ## What stays between two calls -/

/-- Nothing is written in `t`'s transaction, if it is open. -/
structure UpClean (u : τ → Upload W) (t : τ) (g : Option (Except HttpError Str)) (s : UploadState τ) :
    Prop where
  settled : UpSettled u t g s
  tx : ∀ writes, s.state.db.txs t = some writes → writes = []

/-- `t`'s transaction, if it is still open, has written `writes`, has its tenant's lock and finds
`F`. -/
structure UpTx (hashtext : Str → Int) (u : τ → Upload W) (t : τ) (writes : List FunctionRow)
    (F : Db τ → Prop) (s : UploadState τ) : Prop where
  unsettled : UpSettled u t none s
  tx : ∀ ws, s.state.db.txs t = some ws →
    ws = writes ∧ s.state.db.locks (hashtext (u t).tenant) = some t ∧ F s.state.db

variable {writes : List FunctionRow} {F : Db τ → Prop} {g : Option (Except HttpError Str)}

theorem upSettled_stable {c : Option UploadCall} :
    (upThread hashtext u tenantIds rows₀ t).Stable c (UpSettled u t g) := by
  intro s s' h hr
  unfold UpSettled
  rw [hr.1]
  exact h

theorem upClean_stable {c : Option UploadCall} :
    (upThread hashtext u tenantIds rows₀ t).Stable c (UpClean u t g) :=
  fun _ _ h hr => ⟨upSettled_stable _ _ h.settled hr, fun ws hw => h.tx ws (hr.2.tx ws hw).1⟩

/-- The tenant has the id `id`, and few enough other functions. -/
def HasRoom (u : Upload W) (id : Nat) (db : Db τ) : Prop :=
  db.tenantIds u.tenant = some id ∧ u.full (db.functions.countOthers id u.func) = false

theorem upTx_stable {c : Option UploadCall} (hF : ∀ db db', db'.tenantIds = db.tenantIds →
      (∀ id f, db.tenantIds (u t).tenant = some id →
        db'.functions.countOthers id f = db.functions.countOthers id f) → F db → F db') :
    (upThread hashtext u tenantIds rows₀ t).Stable c (UpTx hashtext u t writes F) := by
  intro s s' h hr
  refine ⟨upSettled_stable _ _ h.unsettled hr, fun ws hws => ?_⟩
  obtain ⟨hws', hlocks, hcount⟩ := hr.2.tx ws hws
  obtain ⟨hw, hl, hf⟩ := h.tx ws hws'
  exact ⟨hw, hlocks _ hl, hF _ _ hr.2.tenantIds (fun id f hid => hcount _ id hid hl f) hf⟩

omit [DecidableEq τ] in
theorem hasRoom_same {id : Nat} (db db' : Db τ) (hids : db'.tenantIds = db.tenantIds)
    (hcount : ∀ id f, db.tenantIds (u t).tenant = some id →
      db'.functions.countOthers id f = db.functions.countOthers id f)
    (h : HasRoom (u t) id db) : HasRoom (u t) id db' :=
  ⟨hids ▸ h.1, by rw [hcount id _ h.1]; exact h.2⟩

/-! ## Calls that write no row -/

theorem up_file {c : FsCall} {r : FsRes c}
    (he : (upThread hashtext u tenantIds rows₀ t).exec s (.inl c) r s') :
    (upThread hashtext u tenantIds rows₀ t).guar (.inl c) s s' ∧ s'.state.db = s.state.db := by
  obtain ⟨hinv, ⟨ch, hx⟩ | ⟨hfalse, -⟩, htr⟩ := he
  · obtain ⟨-, hdb⟩ := uploadExec_file hx
    refine ⟨⟨⟨?_, ?_, hinv.linear.keep ?_ ?_⟩, fun v hv => ⟨?_, ?_⟩⟩, hdb⟩
    · rw [hdb]
      exact hinv.guarded
    · rw [hdb]
      exact hinv.ids
    · rw [htr]
      exact effects_none rfl
    · intro rows hr
      rw [hdb]
      exact hr
    · rw [htr, Trace.of_cons_ne (Ne.symm hv)]
    · rw [hdb]
      exact .refl v _
  · exact hfalse.elim

/-- A program that makes only file-system calls. -/
def IsFile : UploadCall → Prop := Sum.elim (fun _ => True) fun _ => False

theorem up_noStatement {c : UploadCall} {r : UploadRes c} (hc : IsFile c)
    (he : (upThread hashtext u tenantIds rows₀ t).exec s c r s') (hu : UpSettled u t none s) :
    (upThread hashtext u tenantIds rows₀ t).guar c s s' ∧ UpSettled u t none s' ∧
      s'.state.db = s.state.db := by
  cases c with
  | inl c => exact ⟨(up_file he).1, upSettled_cons he hu, (up_file he).2⟩
  | inr c => exact hc.elim

theorem sat_upFiles_tx {α : Type} {p : UploadM α} (hp : p.Calls IsFile)
    (hF : ∀ db db', db'.tenantIds = db.tenantIds →
      (∀ id f, db.tenantIds (u t).tenant = some id →
        db'.functions.countOthers id f = db.functions.countOthers id f) → F db → F db')
    (h : UpTx hashtext u t writes F s) :
    Sat (upThread hashtext u tenantIds rows₀ t) (fun _ => UpTx hashtext u t writes F) p s := by
  refine hp.sat (fun _ _ => upTx_stable hF) (fun c s r s' hc h he => ?_) h
  obtain ⟨hg, hu, hdb⟩ := up_noStatement hc he h.unsettled
  refine ⟨hg, hu, ?_⟩
  rw [hdb]
  exact h.tx

theorem sat_upFiles_clean {α : Type} {p : UploadM α} (hp : p.Calls IsFile)
    (h : UpClean u t none s) :
    Sat (upThread hashtext u tenantIds rows₀ t) (fun _ => UpClean u t none) p s := by
  refine hp.sat (fun _ _ => upClean_stable) (fun c s r s' hc h he => ?_) h
  obtain ⟨hg, hu, hdb⟩ := up_noStatement hc he h.settled
  refine ⟨hg, hu, ?_⟩
  rw [hdb]
  exact h.tx

/-- Without a row written, no statement changes the rows. -/
theorem Db.Change.clean (hc : Db.Change hashtext me db c db') (hn : ∀ row, c ≠ .upsert row)
    (h : ∀ writes, db.txs me = some writes → writes = []) :
    db'.functions = db.functions ∧ ∀ writes, db'.txs me = some writes → writes = [] := by
  cases hc with
  | none => exact ⟨rfl, h⟩
  | openTx => exact ⟨rfl, fun ws hw => by simpa [Db.setTx, eq_comm] using hw⟩
  | takeLock => exact ⟨rfl, h⟩
  | @write row => exact absurd rfl (hn row)
  | @commit writes hw =>
    cases h writes hw
    exact ⟨rfl, fun ws hws => absurd rfl (endTx_tx hws).1⟩
  | endTx => exact ⟨rfl, fun ws hws => absurd rfl (endTx_tx hws).1⟩

/-- What an upload does once it has come to something. -/
theorem sat_upAfter {α : Type} {p : UploadM α} (hp : p.Calls NoUpsert) {g : Except HttpError Str}
    (h : UpClean u t (some g) s) :
    Sat (upThread hashtext u tenantIds rows₀ t) (fun _ => UpClean u t (some g)) p s := by
  refine hp.sat (fun _ _ => upClean_stable) (fun c s r s' hc h he => ?_) h
  have hg := upSettled_keep he h.settled
  cases c with
  | inl c =>
    obtain ⟨hguar, hdb⟩ := up_file he
    refine ⟨hguar, hg, ?_⟩
    rw [hdb]
    exact h.tx
  | inr c =>
    have hn : ∀ row, c ≠ .upsert row := fun row hrow => hc row (by rw [hrow])
    obtain ⟨hrows, htx⟩ := (dbStep he).change.clean hn h.tx
    refine ⟨up_quiet he (fun row hrow => absurd hrow (hn row)) (.inr ⟨g, h.settled⟩) hrows, hg, htx⟩

/-! ## The section inside the transaction -/

theorem sat_upQuery {ε : Type} {err : DbError → ε} {Q : Except ε (DbOk c) → UploadState τ → Prop}
    (P : UploadState τ → Prop) (hst : (upThread hashtext u tenantIds rows₀ t).Stable (some (.inr c)) P)
    (hP : P s) (h : ∀ s₁ (r : DbRes c) s₂, P s₁ →
      (upThread hashtext u tenantIds rows₀ t).exec s₁ (.inr c) r s₂ →
      (upThread hashtext u tenantIds rows₀ t).guar (.inr c) s₁ s₂ ∧ Q (r.mapError err) s₂) :
    Sat (upThread hashtext u tenantIds rows₀ t) Q (query err c).run s :=
  .mapErr (.perform P hst hP h)

/-- What a statement comes to that reads or writes nothing of the tables. -/
theorem sat_upClean (hn : ∀ row, c ≠ .upsert row)
    (hok : ∀ a : DbOk c, (u t).settles (.inr c) (.ok a) = none)
    (herr : ∀ e, (u t).settles (.inr c) (.error e) = some (.error (internalError e)))
    (h : UpClean u t none s) :
    Sat (upThread hashtext u tenantIds rows₀ t) (fun r s => match r with
      | .ok _ => UpClean u t none s
      | .error e => UpSettled u t (some (.error e)) s) (query internalError c).run s := by
  refine sat_upQuery _ upClean_stable h fun s₁ r s₂ h he => ?_
  obtain ⟨hrows, htx⟩ := (dbStep he).change.clean hn h.tx
  cases r with
  | ok a =>
    refine ⟨up_quiet he (fun row hrow => absurd hrow (hn row)) (.inl (hok a)) hrows, ?_, htx⟩
    have hu := upSettled_cons he h.settled
    rwa [hok a] at hu
  | error e => exact up_failed he (fun row hrow => absurd hrow (hn row)) h.settled (herr e) hrows

theorem sat_upLock (h : UpClean u t none s) :
    Sat (upThread hashtext u tenantIds rows₀ t) (fun r s => match r with
      | .ok _ => UpTx hashtext u t [] (fun _ => True) s
      | .error e => UpSettled u t (some (.error e)) s)
      (lockTenant internalError (u t).tenant).run s := by
  refine .bindE ((sat_upClean (by simp) (fun _ => rfl) (fun _ => rfl) h).mono fun r s h => ?_)
  cases r with
  | error e => exact h
  | ok _ =>
  refine .bindE ((sat_upClean (by simp) (fun _ => rfl) (fun _ => rfl) h).mono fun r s h => ?_)
  cases r with
  | error e => exact h
  | ok _ =>
  refine sat_upQuery _ upClean_stable h fun s₁ r s₂ h he => ?_
  obtain ⟨hrows, htx⟩ := (dbStep he).change.clean (by simp) h.tx
  cases r with
  | error e => exact up_failed he (by simp) h.settled rfl hrows
  | ok a =>
    refine ⟨up_quiet he (by simp) (.inl rfl) hrows, upSettled_cons he h.settled, fun ws hws => ?_⟩
    refine ⟨htx ws hws, ?_, trivial⟩
    obtain ⟨ch, hx⟩ | ⟨-, ⟨e, hr⟩, -⟩ := dbStep he
    · obtain ⟨-, -, hdb⟩ | ⟨⟨e, hr⟩, -⟩ := Db.exec_lockTenant hx
      · rw [hdb]
        exact Function.update_self _ _ _
      · cases hr
    · cases hr

/-- The tenant's row tells its id, or that there is no such tenant. -/
theorem sat_upTenantId (h : UpTx hashtext u t [] (fun _ => True) s) :
    Sat (upThread hashtext u tenantIds rows₀ t) (fun r s => match r with
      | .ok none => UpSettled u t (some (.error (401, "unauthorized"))) s
      | .ok (some id) => UpTx hashtext u t [] (fun db => db.tenantIds (u t).tenant = some id) s
      | .error e => UpSettled u t (some (.error e)) s)
      (query internalError (.tenantId (u t).tenant)).run s := by
  refine sat_upQuery _ (upTx_stable fun _ _ _ _ h => h) h fun s₁ r s₂ h he => ?_
  have hd := dbStep he
  have hdb : s₂.state.db = s₁.state.db := by
    obtain ⟨ch, hx⟩ | ⟨-, -, hdb⟩ := hd
    · exact (Db.exec_tenantId hx).1
    · exact hdb
  rcases r with e | id
  · exact up_failed he (by simp) h.unsettled rfl (by rw [hdb])
  have hid : id = s₁.state.db.tenantIds (u t).tenant := by
    obtain ⟨ch, hx⟩ | ⟨-, ⟨e, hr⟩, -⟩ := hd
    · obtain ⟨-, hr | ⟨e, hr⟩⟩ := Db.exec_tenantId hx
      · exact Except.ok.inj hr
      · cases hr
    · cases hr
  cases id with
  | none =>
    refine up_point he (by simp) h.unsettled rfl ?_
    have ha : UpAnswered tenantIds (u t) s₁.state.db.functions _ _ := .answered _
    have hdec : (u t).decide tenantIds s₁.state.db.functions =
        (.error (401, "unauthorized"), s₁.state.db.functions) := by
      unfold Upload.decide
      rw [← he.1.ids, ← hid]
    rw [hdec] at ha
    rw [hdb]
    exact ha
  | some id =>
    refine ⟨up_quiet he (by simp) (.inl rfl) (by rw [hdb]), upSettled_cons he h.unsettled, ?_⟩
    intro ws hws
    rw [hdb] at hws ⊢
    obtain ⟨hw, hl, -⟩ := h.tx ws hws
    exact ⟨hw, hl, hid.symm⟩

/-- The count decides as `Upload.decide` does. -/
theorem sat_upCount {id : Nat}
    (h : UpTx hashtext u t [] (fun db => db.tenantIds (u t).tenant = some id) s) :
    Sat (upThread hashtext u tenantIds rows₀ t) (fun r s => match r with
      | .ok n => if (u t).full n then UpSettled u t (some (.error (u t).quotaExceeded)) s
          else UpTx hashtext u t [] (HasRoom (u t) id) s
      | .error e => UpSettled u t (some (.error e)) s)
      (query internalError (.countOthers id (u t).func)).run s := by
  refine sat_upQuery _ (upTx_stable fun _ _ hids _ h => hids ▸ h) h fun s₁ r s₂ h he => ?_
  have hd := dbStep he
  have hdb : s₂.state.db = s₁.state.db := by
    obtain ⟨ch, hx⟩ | ⟨-, -, hdb⟩ := hd
    · exact (Db.exec_countOthers hx).1
    · exact hdb
  rcases r with e | n
  · exact up_failed he (by simp) h.unsettled rfl (by rw [hdb])
  obtain ⟨ws, hws, hn⟩ : ∃ ws, s₁.state.db.txs t = some ws ∧
      n = ((s₁.state.db.visible ws).countOthers id (u t).func : Int) := by
    obtain ⟨ch, hx⟩ | ⟨-, ⟨e, hr⟩, -⟩ := hd
    · obtain ⟨-, ⟨ws, hws, hr⟩ | ⟨e, hr⟩⟩ := Db.exec_countOthers hx
      · exact ⟨ws, hws, Except.ok.inj hr⟩
      · cases hr
    · cases hr
  obtain ⟨rfl, hl, hid⟩ := h.tx ws hws
  have hn' : n = (s₁.state.db.functions.countOthers id (u t).func : Int) := hn
  show _ ∧ if (u t).full n then _ else _
  cases hfull : (u t).full n with
  | true =>
    refine up_point he (by simp) h.unsettled (if_pos hfull) ?_
    have ha : UpAnswered tenantIds (u t) s₁.state.db.functions _ _ := .answered _
    have hdec : (u t).decide tenantIds s₁.state.db.functions =
        (.error (u t).quotaExceeded, s₁.state.db.functions) := by
      unfold Upload.decide
      rw [← he.1.ids, hid]
      exact if_pos (hn' ▸ hfull)
    rw [hdec] at ha
    rw [hdb]
    exact ha
  | false =>
    have hs : (u t).settles (.inr (.countOthers id (u t).func)) (.ok n) = none :=
      if_neg (by rw [hfull]; decide)
    have hu := upSettled_cons he h.unsettled
    rw [hs] at hu
    refine ⟨up_quiet he (by simp) (.inl hs) (by rw [hdb]), ?_⟩
    simp only [Bool.false_eq_true, if_false]
    refine ⟨hu, fun ws hws' => ?_⟩
    rw [hdb] at hws' ⊢
    rw [hws] at hws'
    exact ⟨(Option.some.inj hws').symm, hl, hid, hn' ▸ hfull⟩

theorem sat_upInsert {id : Nat} {digest : Str} (h : UpTx hashtext u t [] (HasRoom (u t) id) s) :
    Sat (upThread hashtext u tenantIds rows₀ t) (fun r s => match r with
      | .ok _ => UpTx hashtext u t [⟨id, (u t).func, digest⟩] (HasRoom (u t) id) s
      | .error e => UpSettled u t (some (.error e)) s)
      (query internalError (.upsert ⟨id, (u t).func, digest⟩)).run s := by
  refine sat_upQuery _ (upTx_stable hasRoom_same) h fun s₁ r s₂ h he => ?_
  have hw : ∀ row, DbCall.upsert ⟨id, (u t).func, digest⟩ = .upsert row → ∀ ws,
      s₁.state.db.txs t = some ws → ∃ name, s₁.state.db.tenantIds name = some row.tenantId ∧
        s₁.state.db.locks (hashtext name) = some t := by
    intro row hrow ws hws
    cases hrow
    obtain ⟨-, hl, hid, -⟩ := h.tx ws hws
    exact ⟨(u t).tenant, hid, hl⟩
  have hd := dbStep he
  rcases r with e | _
  · refine up_failed he hw h.unsettled rfl ?_
    obtain ⟨ch, hx⟩ | ⟨-, -, hdb⟩ := hd
    · obtain ⟨-, -, hr, -⟩ | ⟨-, hdb⟩ := Db.exec_upsert hx
      · cases hr
      · rw [hdb]
    · rw [hdb]
  · obtain ⟨ws, hws, hdb⟩ : ∃ ws, s₁.state.db.txs t = some ws ∧
        s₂.state.db = s₁.state.db.write t ws ⟨id, (u t).func, digest⟩ := by
      obtain ⟨ch, hx⟩ | ⟨-, ⟨e, hr⟩, -⟩ := hd
      · obtain ⟨ws, hws, -, hdb⟩ | ⟨⟨e, hr⟩, -⟩ := Db.exec_upsert hx
        · exact ⟨ws, hws, hdb⟩
        · cases hr
      · cases hr
    refine ⟨up_quiet he hw (.inl rfl) (by rw [hdb]; rfl), upSettled_cons he h.unsettled, ?_⟩
    intro ws' hws'
    obtain ⟨rfl, hl, hroom⟩ := h.tx ws hws
    rw [hdb] at hws' ⊢
    simp only [Db.write, Function.update_self, Option.some.injEq, List.nil_append] at hws'
    exact ⟨hws'.symm, hl, hroom⟩

/-- The pointer could not be written; nothing has been said yet. -/
def PointerFailed (u : τ → Upload W) (t : τ) (e : HttpError) (s : UploadState τ) : Prop :=
  e = (500, "failed to publish module") ∧ UpSettled u t none s

theorem sat_upSection {staged : Staged} (h : UpClean u t none s) :
    Sat (upThread hashtext u tenantIds rows₀ t) (fun r s => match r with
      | .ok _ => ∃ id, UpTx hashtext u t [⟨id, (u t).func, staged.digest⟩] (HasRoom (u t) id) s
      | .error e => UpSettled u t (some (.error e)) s ∨ PointerFailed u t e s)
      (publishSection (u t).maxFunctions (u t).tenant (u t).func staged).run s := by
  refine .bindE ((sat_upLock h).mono fun r s h => ?_)
  rcases r with e | _
  · exact .inl h
  refine .bindE ((sat_upTenantId h).mono fun r s h => ?_)
  rcases r with e | (_ | id)
  · exact .inl h
  · exact .inl h
  refine .bindE ((sat_upCount h).mono fun r s h => ?_)
  rcases r with e | (n : Int)
  · exact .inl h
  show Sat _ _ (ExceptT.run (if (u t).maxFunctions ≤ n then _ else _)) s
  simp only at h
  split
  · rename_i hle
    have hfull : (u t).full n = true := decide_eq_true hle
    rw [if_pos hfull] at h
    exact .inl h
  rename_i hlt
  have hfull : ¬ (u t).full n = true := fun hf => hlt (of_decide_eq_true hf)
  rw [if_neg hfull] at h
  refine .bindE ((sat_upInsert h).mono fun r s h => ?_)
  rcases r with e | _
  · exact .inl h
  refine .mapErr ((sat_upFiles_tx (.inl (fun _ => trivial) _) hasRoom_same h).mono fun r s h => ?_)
  cases r with
  | ok _ => exact ⟨id, h⟩
  | error e => exact .inr ⟨rfl, h.unsettled⟩

/-- The drop of the transaction settles an upload that could not write its pointer. -/
theorem sat_upDrop {e : HttpError} (h : UpSettled u t (some (.error e)) s ∨ PointerFailed u t e s) :
    Sat (upThread hashtext u tenantIds rows₀ t) (fun _ => UpSettled u t (some (.error e)))
      dropTx s := by
  have hst : (upThread hashtext u tenantIds rows₀ t).Stable (some (.inr .rollback))
      fun s => UpSettled u t (some (.error e)) s ∨ PointerFailed u t e s := by
    intro s s' h hr
    refine h.imp (fun h => upSettled_stable _ _ h hr) fun h => ⟨h.1, upSettled_stable _ _ h.2 hr⟩
  refine .bind (.perform _ hst h fun s₁ r s₂ h he => ?_)
  have hrows : s₂.state.db.functions = s₁.state.db.functions := by
    obtain ⟨ch, hx⟩ | ⟨-, -, hdb⟩ := dbStep he
    · rw [Db.exec_rollback hx]
      rfl
    · rw [hdb]
  obtain h | ⟨rfl, hu⟩ := h
  · exact ⟨up_quiet he (by simp) (.inr ⟨_, h⟩) hrows, upSettled_keep he h⟩
  · refine up_point he (by simp) hu rfl ?_
    rw [hrows]
    exact .failed ⟨_, rfl⟩

/-- A commit takes effect, reported so or not, or its writes are gone. -/
theorem upCommit_cases {r : DbRes .commit} (h : DbStep hashtext me db .commit r db') :
    (∃ writes, db.txs me = some writes ∧ db' = db.endTx me (db.visible writes)) ∨
      (∃ e, r = .error e) ∧ db'.functions = db.functions ∧ db'.txs me = none := by
  obtain ⟨ch, hx⟩ | ⟨htx, he, rfl⟩ := h
  · obtain ⟨writes, hw, ⟨-, rfl⟩ | ⟨he, -, rfl⟩⟩ := Db.exec_commit hx
    · exact .inl ⟨writes, hw, rfl⟩
    · exact .inr ⟨he, rfl, Function.update_self _ _ _⟩
  · exact .inr ⟨he, rfl, htx⟩

theorem sat_upCommit {id : Nat}
    (h : UpTx hashtext u t [⟨id, (u t).func, W.digest (u t).wasm⟩] (HasRoom (u t) id) s) :
    Sat (upThread hashtext u tenantIds rows₀ t) (fun r s => match r with
      | .ok _ => UpSettled u t (some (.ok (W.digest (u t).wasm))) s
      | .error e => UpClean u t (some (.error (internalError e))) s) (onDb .commit) s := by
  refine .perform _ (upTx_stable hasRoom_same) h fun s₁ r s₂ h he => ?_
  obtain ⟨ws, hws, hdb⟩ | ⟨⟨e, rfl⟩, hrows, htx⟩ := upCommit_cases (dbStep he)
  · obtain ⟨rfl, -, hid, hroom⟩ := h.tx ws hws
    have hdec : (u t).decide tenantIds s₁.state.db.functions =
        (.ok (W.digest (u t).wasm), s₂.state.db.functions) := by
      unfold Upload.decide
      rw [← he.1.ids, hid, hdb]
      exact if_neg (by rw [hroom]; decide)
    have ha : UpAnswered tenantIds (u t) s₁.state.db.functions _ _ := .answered _
    rw [hdec] at ha
    cases r with
    | ok a => exact up_point he (by simp) h.unsettled rfl ha
    | error e =>
      have hlost : UpAnswered tenantIds (u t) s₁.state.db.functions (.error (internalError e)) _ :=
        .lost ⟨_, rfl⟩
      rw [hdec] at hlost
      obtain ⟨hg, hs⟩ := up_point he (by simp) h.unsettled rfl hlost
      refine ⟨hg, hs, fun ws hws => ?_⟩
      rw [hdb] at hws
      exact absurd rfl (endTx_tx hws).1
  · obtain ⟨hg, hs⟩ := up_failed he (by simp) h.unsettled rfl hrows
    refine ⟨hg, hs, fun ws hws => ?_⟩
    rw [htx] at hws
    cases hws

theorem sat_upPublish {staged : Staged} (hd : staged.digest = W.digest (u t).wasm)
    (h : UpClean u t none s) :
    Sat (upThread hashtext u tenantIds rows₀ t)
      (fun r => UpSettled u t (some (r.map fun _ => W.digest (u t).wasm)))
      (publishInDb (u t).maxFunctions (u t).tenant (u t).func staged).run s := by
  refine .bindE ((sat_upClean (by simp) (fun _ => rfl) (fun _ => rfl) h).mono fun r s h => ?_)
  rcases r with e | _
  · exact h
  refine .bindE (.onError ((sat_upSection h).mono fun r s h => ?_))
  rcases r with e | _
  · exact sat_upDrop h
  obtain ⟨id, h⟩ := h
  rw [hd] at h
  refine .liftE ((sat_upCommit h).mono fun r s h => ?_)
  rcases r with e | _
  · refine .liftE ((sat_upAfter (reconcilePointer_calls _ _) h).mono fun _ s h => ?_)
    exact h.settled
  · exact h

/-! ## The whole upload -/

/-- Whatever the file system answers, a module is staged under its own digest. -/
theorem stage_digest (W : Wasm) (engine : W.Engine) (wasm : Bytes) :
    (stage W engine wasm).run.Answers (fun _ _ => True)
      fun r => ∀ staged, r = .ok staged → staged.digest = W.digest wasm := by
  have hcompile : (Prog.mapErr compileErr (compile W engine wasm cwasmDir)).run.Answers
      (fun _ _ => True) fun r => ∀ q, r = .ok q → q.2.1 = W.digest wasm := by
    refine .bind (P := fun r => ∀ q, r = .ok q → q.2.1 = W.digest wasm) ?_ fun r hr => ?_
    · refine .bindE' (.any _) (fun cached _ => ?_) fun _ _ q h => by cases h
      cases cached with
      | some component =>
        intro q h
        cases h
        rfl
      | none =>
        refine .bindE' (.any _) (fun component _ => ?_) fun _ _ q h => by cases h
        intro q h
        cases h
        rfl
    · intro q h
      cases r with
      | ok q' => exact hr q (by cases h; rfl)
      | error e => cases h
  refine .bindE' hcompile (fun q hq => ?_) fun _ _ staged h => by cases h
  obtain ⟨component, digest, fresh⟩ := q
  have hd : digest = W.digest wasm := hq _ rfl
  have hsource : (do
      Prog.mapErr intoPublishErr (writeWasmSource digest wasm)
      pure ⟨digest⟩ : ExceptT PublishError FsM Staged).run.Answers (fun _ _ => True)
      fun r => ∀ staged, r = .ok staged → staged.digest = W.digest wasm := by
    refine .bindE' (.any _) (fun _ _ staged h => ?_) fun _ _ staged h => by cases h
    cases h
    exact hd
  refine .bindE' (.any _) (fun _ _ => ?_) fun _ _ staged h => by cases h
  cases fresh with
  | true => exact .bindE' (.any _) (fun _ _ => hsource) fun _ _ staged h => by cases h
  | false => exact .bindE' (.any _) (fun _ _ => hsource) fun _ _ staged h => by cases h

theorem sat_upStage {engine : W.Engine} {wasm : Bytes} (h : UpClean u t none s) :
    Sat (upThread hashtext u tenantIds rows₀ t) (fun r s => UpClean u t none s ∧ match r with
      | .ok staged => staged.digest = W.digest wasm
      | .error e => NotStaged (.error e)) (onFiles stageError (stage W engine wasm)).run s := by
  have hd : ((stage W engine wasm).run.inl : UploadM _).Answers (fun _ _ => True)
      fun r => ∀ staged, r = .ok staged → staged.digest = W.digest wasm :=
    .inl (stage_digest W engine wasm)
  refine .mapErr ((Sat.answers (fun _ => True) (fun _ _ _ _ _ => trivial)
    (fun _ _ _ _ _ _ => ⟨trivial, trivial⟩) hd trivial
    (sat_upFiles_clean (.inl (fun _ => trivial) _) h)).mono fun r s h => ⟨h.1, ?_⟩)
  cases r with
  | ok staged => exact h.2 staged rfl
  | error e => cases e <;> exact ⟨_, rfl, by simp [stageError]⟩

theorem sat_uploadLinear (h : UpClean u t none s) :
    Sat (upThread hashtext u tenantIds rows₀ t)
      (fun g s => UpSettled u t (some g) s ∨ NotStaged g ∧ UpSettled u t none s)
      (upload W (u t).engine (u t).maxFunctions (u t).tenant (u t).func (u t).wasm).run s := by
  unfold upload
  split
  · exact .inr ⟨⟨_, rfl, .inl rfl⟩, h.settled⟩
  refine .bindE ((sat_upStage h).mono fun r s h => ?_)
  cases r with
  | error e => exact .inr ⟨h.2, h.1.settled⟩
  | ok staged =>
    refine .bindE ((sat_upPublish h.2 h.1).mono fun r s hs => ?_)
    cases r with
    | error e => exact .inl hs
    | ok _ =>
      have hdigest : staged.digest = W.digest (u t).wasm := h.2
      show UpSettled u t (some (.ok staged.digest)) s ∨ _
      rw [hdigest]
      exact .inl hs

/-! ## All uploads together -/

theorem up_compatible : Compatible (crashSystem hashtext).traced (upThread hashtext u tenantIds rows₀)
    (UpInv hashtext u tenantIds rows₀) where
  exec := fun _ _ _ _ _ _ _ hJ he => ⟨hJ, he⟩
  guar := fun _ _ v _ _ _ _ hne _ _ _ hg => hg.2 v (Ne.symm hne)
  env := by
    intro pend v s s' hJ he
    obtain ⟨⟨w, hs⟩, htr⟩ := he
    refine ⟨by rw [htr], ?_⟩
    have hdb : s'.state.db = s.state.db.endTx w s.state.db.functions := by rw [hs]
    rw [hdb]
    refine ⟨rfl, fun ws hw => ?_⟩
    obtain ⟨hne, hw⟩ := endTx_tx hw
    exact ⟨hw, fun k hk => endTx_lock hk hne _, fun _ _ _ _ _ => rfl⟩
  inv := fun _ _ _ _ _ hg => hg.1
  envInv := by
    intro pend s s' hJ he
    obtain ⟨⟨w, hs⟩, htr⟩ := he
    have hdb : s'.state.db = s.state.db.endTx w s.state.db.functions := by rw [hs]
    refine ⟨?_, ?_, hJ.linear.keep (by rw [htr]) fun rows hr => ?_⟩
    · rw [hdb]
      exact hJ.guarded.endTx w _
    · rw [hdb]
      exact hJ.ids
    · rw [hdb]
      exact hr

end

/-- **Uploads are linearizable.** Uploads of any number of processes, whatever fails and whoever
crashes, agree with decisions on the table of functions taken one at a time: an accepted upload has
put its digest in its row, a refused one was refused by the table as it was then, and one that
failed inside the service may or may not have put its row. An upload that never reached the
database was refused for its name or its module, or failed, and left the table alone. -/
theorem uploads_linearizable {W : Wasm} {τ : Type} [DecidableEq τ] (u : τ → Upload W)
    (hashtext : Str → Int) (s₀ : Shared τ) (htx : ∀ t, s₀.db.txs t = none)
    {C : Config τ (UploadState τ) UploadCall UploadRes fun _ => Except HttpError Str}
    (hr : Reach (crashSystem hashtext).traced (uploadStart u s₀) C) :
    Linearizable (crashSystem hashtext) (fun t => (u t).settles)
      (fun rows t => UpAnswered s₀.db.tenantIds (u t) rows) s₀.db.functions
      (fun rows s => rows = s.db.functions ∧ s.db.tenantIds = s₀.db.tenantIds)
      (fun _ => NotStaged) C := by
  have hJ : UpInv hashtext u s₀.db.tenantIds s₀.db.functions (uploadStart u s₀).shared := by
    refine ⟨fun t writes h => ?_, rfl, _, .nil, rfl⟩
    rw [show (uploadStart u s₀).shared.state.db.txs t = none from htx t] at h
    cases h
  have hsat : ∀ t, Sat (upThread hashtext u s₀.db.tenantIds s₀.db.functions t)
      (fun g s => UpSettled u t (some g) s ∨ NotStaged g ∧ UpSettled u t none s)
      ((uploadStart u s₀).prog t) (uploadStart u s₀).shared := by
    refine fun t => sat_uploadLinear ⟨rfl, fun ws hws => ?_⟩
    rw [show (uploadStart u s₀).shared.state.db.txs t = none from htx t] at hws
    cases hws
  obtain ⟨hJ', hsat'⟩ := hr.sat up_compatible (fun t g s s' h hrel =>
    h.imp (fun h => upSettled_stable _ _ h hrel) fun h => ⟨h.1, upSettled_stable _ _ h.2 hrel⟩) hJ hsat
  have hlin : Linear (fun t => (u t).settles)
      (fun rows t => UpAnswered s₀.db.tenantIds (u t) rows) s₀.db.functions
      (fun rows s => rows = s.db.functions ∧ s.db.tenantIds = s₀.db.tenantIds) C.shared := by
    obtain ⟨rows, hs, hrows⟩ := hJ'.linear
    exact ⟨rows, hs, hrows, hJ'.ids⟩
  refine hlin.linearizable fun t g hret => ?_
  have h := hsat' t
  rw [hret] at h
  exact h

/-- Two uploads under a quota of one: the one that counts second is refused, and stands after the
accepted one. -/
theorem uploads_linearizable_race : ∃ C : Config Bool (UploadState Bool) UploadCall UploadRes
    fun _ => Except HttpError Str,
    ((effects (fun t => (twoNames t).settles) C.shared.trace).map Sigma.fst) = [true, false] ∧
      Linearizable (crashSystem fun _ => 0) (fun t => (twoNames t).settles)
        (fun rows t => UpAnswered emptyShared.db.tenantIds (twoNames t) rows)
        emptyShared.db.functions
        (fun rows s => rows = s.db.functions ∧ s.db.tenantIds = emptyShared.db.tenantIds)
        (fun _ => NotStaged) C := by
  have hrun : ((uploadStart twoNames emptyShared).play
      (tracing fun ch _ me => uploadExec (fun _ => 0) me ch) quotaRace).any (fun C =>
        (effects (fun t => (twoNames t).settles) C.shared.trace).map Sigma.fst = [true, false]) =
      true := by
    decide +kernel
  rw [Option.any_eq_true] at hrun
  obtain ⟨C, hplay, hC⟩ := hrun
  refine ⟨C, of_decide_eq_true hC, uploads_linearizable twoNames (fun _ => 0) emptyShared
    (fun _ => rfl) (play_reach (tracing_sound (S := crashSystem fun _ => 0) ?_) hplay)⟩
  exact fun ch _ t s c r s' h => .inl ⟨ch, h⟩

end Warpline
