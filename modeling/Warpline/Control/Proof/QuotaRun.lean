import Warpline.Control.Proof.PublishAgree

/-!
# The function quota under concurrent uploads

`Quota`: a tenant has at most `m` committed rows, and a transaction that has written a row of the
tenant holds the tenant's lock and found room for the row. A commit of another transaction changes
no row of the tenant, so what an upload counted under the lock still holds when it inserts
(`Counted`).
-/

set_option autoImplicit false

namespace Warpline

open Conc Fs

/-! ## The calls of an upload's parts -/

section
variable {ε α : Type} {P : UploadCall → Prop}

theorem query_calls {err : DbError → ε} {c : DbCall} (hc : P (.inr c)) :
    (query err c).run.Calls P :=
  .mapErr (.perform hc)

theorem onFiles_calls {err : PublishError → ε} (hP : ∀ c, P (.inl c))
    (p : ExceptT PublishError FsM α) : (onFiles err p).run.Calls P :=
  .mapErr (.inl hP _)

theorem dropTx_calls (hP : P (.inr .rollback)) : dropTx.Calls P :=
  .bind (.perform hP) fun _ => trivial

theorem lockTenant_calls {err : DbError → ε} {tenant : Str}
    (hset : ∀ setting, P (.inr (.setLocal setting))) (hlock : P (.inr (.lockTenant tenant))) :
    (lockTenant err tenant).run.Calls P :=
  .bindE (query_calls (hset _)) fun _ => .bindE (query_calls (hset _)) fun _ => query_calls hlock

end

/-! ## Counting rows -/

/-- The rows of one tenant. -/
def Functions.count (rows : Functions) (id : Nat) : Nat := (rows.keys.filter fun k => k.1 = id).length

section
variable {rows rows' : Functions} {id : Nat} {f : Str}

theorem Functions.mem_upsert {row : FunctionRow} {k : Nat × Str} :
    k ∈ (rows.upsert row).keys ↔ k = (row.tenantId, row.name) ∨ k ∈ rows.keys := by
  rw [← AList.mem_keys, Functions.upsert, AList.mem_insert, AList.mem_keys]

/-- A larger list without repetitions is longer. -/
theorem length_le_of_nodup_subset {α : Type} {l l' : List α} (hn : l.Nodup) (h : l ⊆ l') :
    l.length ≤ l'.length :=
  (hn.subperm h).length_le

theorem Functions.countOthers_mono (rows rows' : Functions) (id : Nat) (f : Str)
    (h : ∀ k ∈ rows'.keys, k.1 = id → k ∈ rows.keys ∨ k.2 = f) :
    rows'.countOthers id f ≤ rows.countOthers id f := by
  refine length_le_of_nodup_subset (rows'.keys_nodup.filter _) fun k hk => ?_
  simp only [List.mem_filter, decide_eq_true_eq] at hk ⊢
  exact ⟨(h k hk.1 hk.2.1).resolve_right hk.2.2, hk.2⟩

theorem Functions.count_mono (rows rows' : Functions) (id : Nat)
    (h : ∀ k ∈ rows'.keys, k.1 = id → k ∈ rows.keys) :
    rows'.count id ≤ rows.count id := by
  refine length_le_of_nodup_subset (rows'.keys_nodup.filter _) fun k hk => ?_
  simp only [List.mem_filter, decide_eq_true_eq] at hk ⊢
  exact ⟨h k hk.1 hk.2, hk.2⟩

theorem Functions.count_le_succ (rows : Functions) (id : Nat) (f : Str) :
    rows.count id ≤ rows.countOthers id f + 1 := by
  have h : rows.keys.filter (fun k => k.1 = id) ⊆
      (id, f) :: rows.keys.filter fun k => k.1 = id ∧ k.2 ≠ f := by
    intro k hk
    simp only [List.mem_filter, List.mem_cons, decide_eq_true_eq] at hk ⊢
    by_cases hf : k.2 = f
    · exact .inl (Prod.ext hk.2 hf)
    · exact .inr ⟨hk.1, hk.2, hf⟩
  exact length_le_of_nodup_subset (rows.keys_nodup.filter _) h

/-- A name that has a row is not one of the others. -/
theorem Functions.countOthers_lt (h : (id, f) ∈ rows.keys) :
    rows.countOthers id f + 1 ≤ rows.count id := by
  have hn : ((id, f) :: rows.keys.filter fun k => k.1 = id ∧ k.2 ≠ f).Nodup := by
    refine List.nodup_cons.2 ⟨?_, rows.keys_nodup.filter _⟩
    simp
  refine length_le_of_nodup_subset hn fun k hk => ?_
  simp only [List.mem_filter, List.mem_cons, decide_eq_true_eq] at hk ⊢
  obtain rfl | hk := hk
  · exact ⟨h, rfl⟩
  · exact ⟨hk.1, hk.2.1⟩

end

/-! ## The invariant -/

section
variable {τ : Type} [DecidableEq τ]

/-- The tenant `name` has at most `m` rows, with what is written and not committed. -/
structure Quota (hashtext : Str → Int) (name : Str) (id : Nat) (m : Int) (db : Db τ) : Prop where
  tenantId : db.tenantIds name = some id
  count : (db.functions.count id : Int) ≤ m
  pending : ∀ u writes, db.txs u = some writes → (∀ row ∈ writes, row.tenantId ≠ id) ∨
    db.locks (hashtext name) = some u ∧ ∃ f, (∀ row ∈ writes, row.tenantId = id → row.name = f) ∧
      (db.functions.countOthers id f : Int) + 1 ≤ m

variable {hashtext : Str → Int} {name : Str} {id : Nat} {m : Int} {db db' : Db τ} {me : τ}
  {ch : DbChoice}

omit [DecidableEq τ] in
theorem mem_visible {writes : List FunctionRow} {k : Nat × Str} :
    k ∈ (db.visible writes).keys ↔
      k ∈ db.functions.keys ∨ ∃ row ∈ writes, k = (row.tenantId, row.name) := by
  unfold Db.visible
  generalize db.functions = rows
  induction writes generalizing rows with
  | nil => simp
  | cons row writes ih =>
    rw [List.foldl_cons, ih, Functions.mem_upsert]
    simp only [List.mem_cons, exists_eq_or_imp]
    tauto

omit [DecidableEq τ] in
/-- A transaction without a row of the tenant sees the tenant's committed rows. -/
theorem visible_others {writes : List FunctionRow} (h : ∀ row ∈ writes, row.tenantId ≠ id)
    {k : Nat × Str} (hk : k.1 = id) : k ∈ (db.visible writes).keys ↔ k ∈ db.functions.keys := by
  rw [mem_visible]
  refine ⟨fun h' => h'.resolve_right ?_, .inl⟩
  intro ⟨row, hr, he⟩
  rw [he] at hk
  exact h row hr hk

omit [DecidableEq τ] in
/-- What a transaction sees of the tenant is within the quota. -/
theorem Quota.visible (h : Quota hashtext name id m db) {writes : List FunctionRow}
    (hw : db.txs me = some writes) : ((db.visible writes).count id : Int) ≤ m := by
  obtain hno | ⟨-, f, hf, hroom⟩ := h.pending me writes hw
  · have := Functions.count_mono db.functions (db.visible writes) id
      fun k hk hid => (visible_others hno hid).1 hk
    have := h.count
    omega
  · have h1 := (db.visible writes).count_le_succ id f
    have h2 := Functions.countOthers_mono db.functions (db.visible writes) id f
      fun k hk hid => by
        obtain hk | ⟨row, hr, rfl⟩ := mem_visible.1 hk
        · exact .inl hk
        · exact .inr (hf row hr hid)
    omega

/-- The rows of the tenant change only under its lock. -/
theorem Quota.endTx (h : Quota hashtext name id m db) {functions : Functions}
    (hc : (functions.count id : Int) ≤ m)
    (hf : db.locks (hashtext name) = some me ∨
      ∀ k : Nat × Str, k.1 = id → (k ∈ functions.keys ↔ k ∈ db.functions.keys)) :
    Quota hashtext name id m (db.endTx me functions) := by
  refine ⟨h.tenantId, hc, fun u writes hu => ?_⟩
  have hne : u ≠ me := by
    intro he
    subst he
    simp [Db.endTx] at hu
  have hu' : db.txs u = some writes := by simpa [Db.endTx, hne] using hu
  refine (h.pending u writes hu').imp_right fun hp => ?_
  obtain ⟨hlock, f, hrow, hroom⟩ := hp
  have hother : db.locks (hashtext name) ≠ some me := by
    rw [hlock]
    simpa using hne
  refine ⟨?_, f, hrow, ?_⟩
  · show (if db.locks (hashtext name) = some me then none else _) = _
    rw [if_neg hother]
    exact hlock
  · have := Functions.countOthers_mono db.functions functions id f
      fun k hk hid => .inl ((hf.resolve_left hother k hid).1 hk)
    show (functions.countOthers id f : Int) + 1 ≤ m
    omega

/-- The row an upload inserts has room: it has counted the others, under the lock. -/
def Room (hashtext : Str → Int) (name : Str) (id : Nat) (m : Int) (me : τ) (db : Db τ)
    (row : FunctionRow) : Prop :=
  ∀ writes, db.txs me = some writes → writes = [] ∧ (row.tenantId = id →
    db.locks (hashtext name) = some me ∧ (db.functions.countOthers id row.name : Int) + 1 ≤ m)

/-- Every statement keeps the quota; an insert does where there is room. -/
theorem Quota.exec (h : Quota hashtext name id m db) {c : DbCall} {r : DbRes c}
    (hx : Db.exec hashtext me ch db c = some (r, db'))
    (hr : ∀ row, c = .upsert row → Room hashtext name id m me db row) :
    Quota hashtext name id m db' := by
  cases c with
  | beginTx =>
    obtain ⟨-, rfl⟩ | ⟨-, rfl⟩ := Db.exec_beginTx hx
    · refine ⟨h.tenantId, h.count, fun u writes hu => ?_⟩
      by_cases hne : u = me
      · subst hne
        simp only [Db.setTx, Function.update_self, Option.some.injEq] at hu
        subst hu
        exact .inl fun row hrow => by cases hrow
      · exact h.pending u writes (by simpa [Db.setTx, hne] using hu)
    · exact h
  | setLocal => exact Db.exec_setLocal hx ▸ h
  | lockTenant tenant =>
    obtain ⟨-, hfree, rfl⟩ | ⟨-, rfl⟩ := Db.exec_lockTenant hx
    · refine ⟨h.tenantId, h.count, fun u writes hu => (h.pending u writes hu).imp_right ?_⟩
      intro hp
      obtain ⟨hlock, hrest⟩ := hp
      refine ⟨?_, hrest⟩
      by_cases hk : hashtext name = hashtext tenant
      · rw [← hk, hlock] at hfree
        have hme : u = me := by simpa using hfree
        simp [Db.takeLock, hk, hme]
      · simpa [Db.takeLock, hk] using hlock
    · exact h
  | tenantId => exact (Db.exec_tenantId hx).1 ▸ h
  | countOthers => exact (Db.exec_countOthers hx).1 ▸ h
  | functionHash => exact (Db.exec_functionHash hx).1 ▸ h
  | upsert row =>
    obtain ⟨writes, hw, -, rfl⟩ | ⟨-, rfl⟩ := Db.exec_upsert hx
    · refine ⟨h.tenantId, h.count, fun u writes' hu => ?_⟩
      by_cases hne : u = me
      · subst hne
        obtain ⟨rfl, hroom⟩ := hr row rfl writes hw
        simp only [Db.write, Function.update_self, Option.some.injEq, List.nil_append] at hu
        subst hu
        by_cases hid : row.tenantId = id
        · obtain ⟨hlock, hcount⟩ := hroom hid
          exact .inr ⟨hlock, row.name, by simp, hcount⟩
        · exact .inl (by simpa using hid)
      · exact h.pending u writes' (by simpa [Db.write, hne] using hu)
    · exact h
  | commit =>
    obtain ⟨writes, hw, ⟨-, rfl⟩ | ⟨-, -, rfl⟩⟩ := Db.exec_commit hx
    · refine h.endTx (h.visible hw) ?_
      obtain hno | ⟨hlock, -⟩ := h.pending me writes hw
      · exact .inr fun k hk => visible_others hno hk
      · exact .inl hlock
    · exact h.endTx h.count (.inr fun _ _ => .rfl)
  | rollback => exact Db.exec_rollback hx ▸ h.endTx h.count (.inr fun _ _ => .rfl)

/-! ## One upload -/

/-- A step of the others, seen by upload `t`: its transaction is gone, or it has its locks, and
with the tenant's lock what it counted. -/
structure Others (hashtext : Str → Int) (name : Str) (id : Nat) (t : τ) (db db' : Db τ) : Prop where
  tenantIds : db'.tenantIds = db.tenantIds
  tx : ∀ writes, db'.txs t = some writes → db.txs t = some writes ∧
    (∀ k, db.locks k = some t → db'.locks k = some t) ∧
    (db.locks (hashtext name) = some t →
      ∀ f, db'.functions.countOthers id f = db.functions.countOthers id f)

def quotaThread (hashtext : Str → Int) (name : Str) (id : Nat) (m : Int) (t : τ) :
    Thread (Shared τ) UploadCall UploadRes where
  exec := fun s c r s' => Quota hashtext name id m s.db ∧
    (crashSystem hashtext).exec (fun _ => none) t s c r s'
  rely := fun _ s s' => Others hashtext name id t s.db s'.db
  guar := fun _ s s' => Quota hashtext name id m s'.db ∧
    ∀ v, v ≠ t → Others hashtext name id v s.db s'.db

variable {t : τ}

omit [DecidableEq τ] in
theorem Others.refl (v : τ) (db : Db τ) : Others hashtext name id v db db :=
  ⟨rfl, fun _ h => ⟨h, fun _ hk => hk, fun _ _ => rfl⟩⟩

theorem others_endTx (v u : τ) (db : Db τ) :
    Others hashtext name id v db (db.endTx u db.functions) := by
  refine ⟨rfl, fun writes h => ?_⟩
  have hne : v ≠ u := by
    intro he
    subst he
    simp [Db.endTx] at h
  refine ⟨by simpa [Db.endTx, hne] using h, fun k hk => ?_, fun _ _ => rfl⟩
  show (if db.locks k = some u then none else db.locks k) = some v
  rw [hk, if_neg (by simpa using hne)]

/-- A statement of `t` leaves the others what they have. -/
theorem Quota.others (h : Quota hashtext name id m db) {c : DbCall} {r : DbRes c}
    (hx : Db.exec hashtext t ch db c = some (r, db')) {v : τ} (hv : v ≠ t) :
    Others hashtext name id v db db' := by
  have hfr := Db.exec_frame hx
  refine ⟨hfr.tenantIds, fun writes hw => ?_⟩
  rw [hfr.txs v hv] at hw
  refine ⟨hw, fun k hk => (hfr.locks v k hv).2 hk, fun hlock f => ?_⟩
  by_cases hc : c = .commit
  · subst hc
    obtain ⟨ws, hws, ⟨-, rfl⟩ | ⟨-, -, rfl⟩⟩ := Db.exec_commit hx
    · -- `v` holds the tenant's lock, so `t` has written none of its rows
      obtain hno | ⟨hlock', -⟩ := h.pending t ws hws
      · exact Nat.le_antisymm
          (Functions.countOthers_mono _ _ _ _ fun k hk hid => .inl ((visible_others hno hid).1 hk))
          (Functions.countOthers_mono _ _ _ _ fun k hk hid => .inl ((visible_others hno hid).2 hk))
      · rw [hlock] at hlock'
        exact absurd (Option.some.inj hlock') hv
    · rfl
  · rw [hfr.functions hc]

/-- Every step of an upload keeps the quota, an insert where there is room. -/
theorem quota_step {s s' : Shared τ} {c : UploadCall} {r : UploadRes c}
    (he : (quotaThread hashtext name id m t).exec s c r s')
    (hroom : ∀ row, c = .inr (.upsert row) → Room hashtext name id m t s.db row) :
    (quotaThread hashtext name id m t).guar c s s' := by
  obtain ⟨hq, ⟨ch, hx⟩ | ⟨-, rfl⟩⟩ := he
  · cases c with
    | inl c =>
      obtain ⟨-, hdb⟩ := uploadExec_file hx
      simp only [quotaThread, hdb]
      exact ⟨hq, fun v _ => .refl v s.db⟩
    | inr c =>
      obtain ⟨hx, -⟩ := uploadExec_db hx
      exact ⟨hq.exec hx fun row hc => hroom row (by rw [hc]), fun v hv => hq.others hx hv⟩
  · exact ⟨hq, fun v _ => .refl v _⟩

/-- A program that inserts no row. -/
def NoUpsert (c : UploadCall) : Prop := ∀ row, c ≠ .inr (.upsert row)

theorem sat_noUpsert {α : Type} {p : UploadM α} {s : Shared τ} (hp : p.Calls NoUpsert) :
    Sat (quotaThread hashtext name id m t) (fun _ _ => True) p s :=
  hp.sat (R := fun _ => True) (fun _ _ _ _ _ _ => trivial)
    (fun _ _ _ _ hc _ he => ⟨quota_step he fun row h => absurd h (hc row), trivial⟩) trivial

theorem noUpsert_file (c : FsCall) : NoUpsert (.inl c) := fun _ h => by cases h

theorem noUpsert_db {c : DbCall} (hc : ∀ row, c ≠ .upsert row) : NoUpsert (.inr c) :=
  fun row h => hc row (Sum.inr.inj h)

theorem reconcilePointer_calls (tenant func : Str) :
    (reconcilePointer tenant func).Calls NoUpsert := by
  have hquery : ∀ {c : DbCall}, (∀ row, c ≠ .upsert row) →
      (query ReconcileError.db c).run.Calls NoUpsert := fun hc => query_calls (noUpsert_db hc)
  refine .bind (.bindE (hquery (by simp)) fun _ => .bindE (.onError ?_
    (dropTx_calls (noUpsert_db (by simp)))) fun _ => hquery (by simp)) fun _ => trivial
  refine .bindE (lockTenant_calls (fun _ => noUpsert_db (by simp)) (noUpsert_db (by simp)))
    fun _ => .bindE (hquery (by simp)) fun h => ?_
  cases h with
  | some h => exact onFiles_calls noUpsert_file _
  | none => exact onFiles_calls noUpsert_file _

/-- While `t` has its transaction, nothing is written in it and `R` holds. -/
def Open (t : τ) (R : Db τ → Prop) (s : Shared τ) : Prop :=
  ∀ writes, s.db.txs t = some writes → writes = [] ∧ R s.db

theorem open_stable {R : Db τ → Prop} {c : Option UploadCall}
    (hR : ∀ db db', R db → (∀ k, db.locks k = some t → db'.locks k = some t) →
      (db.locks (hashtext name) = some t →
        ∀ f, db'.functions.countOthers id f = db.functions.countOthers id f) → R db') :
    (quotaThread hashtext name id m t).Stable c (Open t R) := by
  intro s s' h ho writes hw
  obtain ⟨hw', hl, hc⟩ := ho.tx writes hw
  obtain ⟨hnil, hr⟩ := h writes hw'
  exact ⟨hnil, hR _ _ hr hl hc⟩

/-- A statement that inserts no row. -/
theorem sat_statement {ε : Type} {err : DbError → ε} {c : DbCall}
    {Q : Except ε (DbOk c) → Shared τ → Prop} {s : Shared τ} (P : Shared τ → Prop)
    (hst : (quotaThread hashtext name id m t).Stable (some (.inr c)) P) (hs : P s)
    (hc : ∀ row, c ≠ .upsert row)
    (h : ∀ s₁ (r : DbRes c) s₂, P s₁ → (quotaThread hashtext name id m t).exec s₁ (.inr c) r s₂ →
      Q (r.mapError err) s₂) : Sat (quotaThread hashtext name id m t) Q (query err c).run s := by
  refine Sat.mapErr (Sat.perform P hst hs fun s₁ r s₂ hs₁ he => ⟨quota_step he ?_, h s₁ r s₂ hs₁ he⟩)
  intro row hrow
  cases hrow
  exact absurd rfl (hc row)

/-- A statement that changes nothing leaves what `t` knows. -/
theorem exec_same {c : DbCall} {r : DbRes c} {s s' : Shared τ}
    (he : (quotaThread hashtext name id m t).exec s (.inr c) r s')
    (hsame : ∀ {ch r db'}, Db.exec hashtext t ch s.db c = some (r, db') → db' = s.db) :
    s'.db = s.db := by
  obtain ⟨-, ⟨ch, hx⟩ | ⟨-, rfl⟩⟩ := he
  · exact hsame (uploadExec_db hx).1
  · rfl

/-- What an answered statement did. -/
theorem exec_ok {c : DbCall} {a : DbOk c} {s s' : Shared τ}
    (he : (quotaThread hashtext name id m t).exec s (.inr c) (.ok a) s') :
    ∃ ch, Db.exec hashtext t ch s.db c = some (.ok a, s'.db) := by
  obtain ⟨-, ⟨ch, hx⟩ | ⟨⟨-, -, hr⟩, -⟩⟩ := he
  · exact ⟨ch.statement, (uploadExec_db hx).1⟩
  · cases hr

/-- `t` holds the lock of `tenant`. -/
def HasLock (hashtext : Str → Int) (tenant : Str) (t : τ) (db : Db τ) : Prop :=
  db.locks (hashtext tenant) = some t

theorem quota_lockTenant {ε : Type} {err : DbError → ε} {tenant : Str} {s : Shared τ}
    (hs : Open t (fun _ => True) s) :
    Sat (quotaThread hashtext name id m t)
      (fun r s => ∀ a, r = .ok a → Open t (HasLock hashtext tenant t) s)
      (lockTenant err tenant).run s := by
  have hst : ∀ c, (quotaThread hashtext name id m t).Stable c (Open t fun _ => True) :=
    fun c => open_stable fun _ _ _ _ _ => trivial
  have hset : ∀ setting s, Open t (fun _ => True) s → Sat (quotaThread hashtext name id m t)
      (fun _ s => Open t (fun _ => True) s) (query err (.setLocal setting)).run s := by
    refine fun setting s hs => sat_statement _ (hst _) hs (by simp) fun s₁ r s₂ hs₁ he => ?_
    intro writes hw
    rw [exec_same he Db.exec_setLocal] at hw
    exact hs₁ writes hw
  refine Sat.bindE ((hset _ s hs).mono fun r s₁ hs₁ => ?_)
  rcases r with e | _
  · exact fun a ha => by cases ha
  refine Sat.bindE ((hset _ s₁ hs₁).mono fun r s₂ hs₂ => ?_)
  rcases r with e | _
  · exact fun a ha => by cases ha
  refine sat_statement _ (hst _) hs₂ (by simp) fun s₃ r s₄ hs₃ he => ?_
  rcases r with e | _
  · exact fun a ha => by cases ha
  obtain ⟨ch, hx⟩ := exec_ok he
  obtain ⟨-, -, hdb⟩ | ⟨⟨e, he⟩, -⟩ := Db.exec_lockTenant hx
  · intro _ _ writes hw
    rw [hdb] at hw
    refine ⟨(hs₃ writes hw).1, ?_⟩
    rw [HasLock, hdb]
    exact Function.update_self ..
  · cases he

/-- `t` holds the tenant's lock and has counted the tenant's other rows. -/
def Counted (hashtext : Str → Int) (name : Str) (id : Nat) (m : Int) (tenant : Str) (tid : Nat)
    (func : Str) (t : τ) (db : Db τ) : Prop :=
  HasLock hashtext tenant t db ∧
    (tid = id → tenant = name ∧ (db.functions.countOthers id func : Int) + 1 ≤ m)

theorem counted_stable {tenant func : Str} {tid : Nat} {c : Option UploadCall} :
    (quotaThread hashtext name id m t).Stable c
      (Open t (Counted hashtext name id m tenant tid func t)) := by
  refine open_stable fun db db' h hl hc => ⟨hl _ h.1, fun hid => ?_⟩
  obtain ⟨hname, hcount⟩ := h.2 hid
  subst hname
  exact ⟨rfl, by rw [hc h.1]; exact hcount⟩

/-- **The section inside the transaction** inserts where there is room. -/
theorem quota_publishSection {tenant func : Str} {staged : Staged} {s : Shared τ}
    (hs : Open t (fun _ => True) s) :
    Sat (quotaThread hashtext name id m t) (fun _ _ => True)
      (publishSection m tenant func staged).run s := by
  refine Sat.bindE ((quota_lockTenant hs).mono fun r s₁ hr => ?_)
  rcases r with e | _
  · trivial
  have hst : ∀ c, (quotaThread hashtext name id m t).Stable c
      (Open t (HasLock hashtext tenant t)) := fun c => open_stable fun _ _ h hl _ => hl _ h
  -- the tenant's id
  refine Sat.bindE (sat_statement _ (hst _) (hr _ rfl) (by simp) fun s₂ r s₃ hs₂ he => ?_)
  rcases r with e | tid
  · trivial
  obtain ⟨ch, hx⟩ := exec_ok he
  have hdb := exec_same he fun h => (Db.exec_tenantId h).1
  have htid : tid = s₂.db.tenantIds tenant := by
    obtain ⟨-, ht | ⟨e, ht⟩⟩ := Db.exec_tenantId hx
    · exact Except.ok.inj ht
    · cases ht
  cases tid with
  | none => trivial
  | some tid =>
    have hname : tid = id → tenant = name := by
      intro hid
      subst hid
      exact s₂.db.ids_unique htid.symm he.1.tenantId
    have hs₃ : Open t (HasLock hashtext tenant t) s₃ := by
      intro writes hw
      rw [hdb] at hw ⊢
      exact hs₂ writes hw
    -- the other rows
    refine Sat.bindE (sat_statement _ (hst _) hs₃ (by simp) fun s₄ r s₅ hs₄ he => ?_)
    rcases r with e | (n : Int)
    · trivial
    obtain ⟨ch, hx⟩ := exec_ok he
    have hdb := exec_same he fun h => (Db.exec_countOthers h).1
    have hs₅ : ¬ m ≤ n → Open t (Counted hashtext name id m tenant tid func t) s₅ := by
      intro hlt writes hw
      rw [hdb] at hw ⊢
      obtain ⟨rfl, hlock⟩ := hs₄ writes hw
      refine ⟨rfl, hlock, fun hid => ⟨hname hid, ?_⟩⟩
      obtain ⟨-, ⟨ws, hws, hn⟩ | ⟨e, hn⟩⟩ := Db.exec_countOthers hx
      · rw [hw] at hws
        cases hws
        rw [← hid]
        have hn' : n = (s₄.db.functions.countOthers tid func : Int) := Except.ok.inj hn
        omega
      · cases hn
    show Sat _ _ (ExceptT.run (if m ≤ n then _ else _)) s₅
    split
    · trivial
    rename_i hlt
    -- the insert
    refine Sat.bindE (Sat.mapErr (Sat.perform _ counted_stable (hs₅ hlt)
      fun s₆ r s₇ hs₆ he => ⟨quota_step he fun row hrow writes hw => ?_, ?_⟩))
    · cases hrow
      obtain ⟨hnil, hlock, hcount⟩ := hs₆ writes hw
      refine ⟨hnil, fun hid => ?_⟩
      obtain ⟨hn, hc⟩ := hcount hid
      exact ⟨hn ▸ hlock, hc⟩
    · rcases r with e | _
      · trivial
      · exact sat_noUpsert (onFiles_calls noUpsert_file _)

theorem quota_publishInDb {tenant func : Str} {staged : Staged} {s : Shared τ} :
    Sat (quotaThread hashtext name id m t) (fun _ _ => True)
      (publishInDb m tenant func staged).run s := by
  refine Sat.bindE (sat_statement (fun _ => True) (fun _ _ _ _ => trivial) trivial (by simp)
    fun s₁ r s₂ _ he => ?_)
  rcases r with e | _
  · trivial
  have hs₂ : Open t (fun _ => True) s₂ := by
    obtain ⟨ch, hx⟩ := exec_ok he
    obtain ⟨-, hdb⟩ | ⟨⟨e, he⟩, -⟩ := Db.exec_beginTx hx
    · intro writes hw
      simp only [hdb, Db.setTx, Function.update_self, Option.some.injEq] at hw
      exact ⟨hw.symm, trivial⟩
    · cases he
  refine Sat.bindE (Sat.onError ((quota_publishSection hs₂).mono fun r s₃ _ => ?_))
  rcases r with e | _
  · exact sat_noUpsert (dropTx_calls (noUpsert_db (by simp)))
  refine sat_noUpsert (.liftE (.perform fun _ h => by cases h) fun r => ?_)
  rcases r with e | _
  · exact .liftE (reconcilePointer_calls tenant func) fun _ => trivial
  · trivial

theorem quota_upload {W : Wasm} {engine : W.Engine} {tenant func : Str} {wasm : Bytes}
    {s : Shared τ} :
    Sat (quotaThread hashtext name id m t) (fun _ _ => True)
      (upload W engine m tenant func wasm).run s := by
  unfold upload
  split
  · trivial
  refine Sat.bindE ((sat_noUpsert (onFiles_calls noUpsert_file _)).mono fun r s₁ _ => ?_)
  rcases r with e | staged
  · trivial
  refine Sat.bindE (quota_publishInDb.mono fun r s₂ _ => ?_)
  cases r <;> trivial

/-! ## Refusals

An upload is answered 403 only if its count has been too high: by the time of that result all its
calls are as `RefusedCount` says (`Thread.noting`). -/

/-- A count of the other functions is one the quota does not allow. -/
def RefusedCount (m : Int) : (c : UploadCall) → UploadRes c → Prop
  | .inr (.countOthers _ _), r => ∃ n : Int, r = .ok n ∧ m ≤ n
  | _, _ => True

abbrev countJudge (m : Int) : Thread Prop UploadCall UploadRes :=
  Thread.noting (fun _ _ => True) (RefusedCount m)

/-- The reply is a 403. -/
def Forbidden {α : Type} (r : Except HttpError α) : Prop := ∃ text, r = .error (403, text)

/-- The call counts no functions. -/
def NoCount (c : UploadCall) : Prop := ∀ id func, c ≠ .inr (.countOthers id func)

theorem not_forbidden {α : Type} {r : Except HttpError α} (h : Raises (fun e => e.1 ≠ 403) r) :
    ¬Forbidden r := by
  rintro ⟨text, rfl⟩
  exact h _ rfl rfl

theorem refusedCount_of_noCount {c : UploadCall} {r : UploadRes c} (hc : NoCount c) :
    RefusedCount m c r := by
  cases c with
  | inl c => trivial
  | inr c =>
    cases c with
    | countOthers id func => exact absurd rfl (hc id func)
    | _ => trivial

/-- A program without a count leaves what has been noted. -/
theorem noted_noCount {α : Type} {p : UploadM α} {b : Prop} (hp : p.Calls NoCount) (hb : b) :
    Sat (countJudge m) (fun _ b => b) p b :=
  Sat.noted_calls (fun _ _ hc _ => refusedCount_of_noCount hc) hp hb

theorem noCount_file (c : FsCall) : NoCount (.inl c) := fun _ _ h => by cases h

theorem noCount_db {c : DbCall} (hc : ∀ id func, c ≠ .countOthers id func) : NoCount (.inr c) :=
  fun id func h => hc id func (Sum.inr.inj h)

theorem internalError_status (e : DbError) : (internalError e).1 ≠ 403 := by
  simp [internalError]

theorem pointerError_status (e : PublishError) : (pointerError e).1 ≠ 403 := by
  simp [pointerError]

theorem noted_publishSection {tenant func : Str} {staged : Staged} :
    Sat (countJudge m) (fun r b => Forbidden r → b)
      (publishSection m tenant func staged).run True := by
  refine Sat.bindE ((noted_noCount (lockTenant_calls (fun _ => noCount_db (by simp))
    (noCount_db (by simp))) trivial).mono fun r b hb => ?_)
  rcases r with e | _
  · exact fun _ => hb
  refine Sat.bindE ((noted_noCount (query_calls (noCount_db (by simp))) hb).mono fun r b hb => ?_)
  rcases r with e | (_ | id)
  · exact fun _ => hb
  · exact fun _ => hb
  refine Sat.bindE (Sat.mapErr (Sat.perform (fun b => b) Thread.noting_stable hb
    fun b₁ r b₂ hb₁ he => ⟨trivial, ?_⟩))
  rcases r with e | (n : Int)
  · exact fun h => absurd h (not_forbidden (.error (internalError_status e)))
  show Sat _ _ (ExceptT.run (if m ≤ n then _ else _)) b₂
  split
  · rename_i hle
    intro _
    rw [he.2]
    exact ⟨⟨n, rfl, hle⟩, hb₁⟩
  · -- from here on no answer is 403
    refine (Sat.noting_answers ?_).mono fun r b hr h => absurd h (not_forbidden hr)
    exact .raises_bindE (.raises_mapErr internalError_status) fun _ =>
      .raises_mapErr pointerError_status

theorem noted_publishInDb {tenant func : Str} {staged : Staged} :
    Sat (countJudge m) (fun r b => Forbidden r → b)
      (publishInDb m tenant func staged).run True := by
  refine Sat.bindE ((noted_noCount (query_calls (noCount_db (by simp))) trivial).mono fun r b hb => ?_)
  rcases r with e | _
  · exact fun _ => hb
  obtain rfl : b = True := propext (iff_true_intro hb)
  refine Sat.bindE (Sat.onError (noted_publishSection.mono fun r b hr => ?_))
  rcases r with e | _
  · by_cases hf : Forbidden (.error e : Except HttpError Unit)
    · exact (noted_noCount (dropTx_calls (noCount_db (by simp))) (hr hf)).mono fun _ _ hb _ => hb
    · exact Sat.noting_trivial.mono fun _ _ _ h => absurd h hf
  · refine (Sat.noting_answers ?_).mono fun r b hr h => absurd h (not_forbidden hr)
    refine .raises_liftE fun r => ?_
    rcases r with e | _
    · exact .raises_liftE fun _ => .error (internalError_status e)
    · exact .ok ()

/-- An upload is answered 403 by its count only. -/
theorem noted_upload {W : Wasm} {engine : W.Engine} {tenant func : Str} {wasm : Bytes} :
    Sat (countJudge m) (fun r b => Forbidden r → b)
      (upload W engine m tenant func wasm).run True := by
  unfold upload
  split
  · exact fun _ => trivial
  refine Sat.bindE ((noted_noCount (onFiles_calls noCount_file _) trivial).mono fun r b hb => ?_)
  rcases r with e | staged
  · exact fun _ => hb
  obtain rfl : b = True := propext (iff_true_intro hb)
  refine Sat.bindE (noted_publishInDb.mono fun r b hr => ?_)
  rcases r with ⟨status, text⟩ | _
  · rintro ⟨_, h⟩
    cases h
    exact hr ⟨_, rfl⟩
  · exact fun h => absurd h (not_forbidden (.ok _))

/-! ## All uploads -/

theorem quota_compatible (hashtext : Str → Int) (name : Str) (id : Nat) (m : Int) :
    Compatible (crashSystem (τ := τ) hashtext) (quotaThread hashtext name id m)
      fun s => Quota hashtext name id m s.db where
  exec := fun _ _ _ _ _ _ _ hJ hx => ⟨hJ, hx⟩
  guar := fun _ _ v _ _ _ _ hne _ _ _ hg => hg.2 v hne.symm
  env := fun _ v s s' _ h => by
    obtain ⟨u, rfl⟩ := h
    exact others_endTx v u s.db
  inv := fun _ _ _ _ _ hg => hg.1
  envInv := fun _ s s' hJ h => by
    obtain ⟨u, rfl⟩ := h
    exact hJ.endTx hJ.count (.inr fun _ _ => .rfl)

end

/-- Uploads with one quota keep a tenant within it, whichever of them fail, roll back or crash.
The quota check never finds too many other functions for a name that has a row; and an upload that
makes it for such a name is never answered 403, whatever happens from then on. -/
theorem quota_holds {W : Wasm} {τ : Type} [DecidableEq τ] (u : τ → Upload W) (hashtext : Str → Int)
    (m : Int) (hm : ∀ t, (u t).maxFunctions = m) (s₀ : Shared τ) (htx : ∀ t, s₀.db.txs t = none)
    {name : Str} {id : Nat} (hid : s₀.db.tenantIds name = some id)
    (hcount : (s₀.db.functions.count id : Int) ≤ m)
    {C : Config τ (Shared τ) UploadCall UploadRes fun _ => Except HttpError Str}
    (hr : Reach (crashSystem hashtext) ⟨s₀, uploadPrograms u⟩ C) :
    (C.shared.db.functions.count id : Int) ≤ m ∧
      (∀ t func (n : Int) s', (id, func) ∈ C.shared.db.functions.keys →
        (crashSystem hashtext).exec C.pending t C.shared (.inr (.countOthers id func)) (.ok n) s' →
        ¬ m ≤ n) ∧
      ∀ t func k r s', C.prog t = .call (.inr (.countOthers id func)) k →
        (id, func) ∈ C.shared.db.functions.keys →
        (crashSystem hashtext).exec C.pending t C.shared (.inr (.countOthers id func)) r s' →
        ∀ C', Reach (crashSystem hashtext) ⟨s', Function.update C.prog t (k r)⟩ C' →
          ∀ text, C'.prog t ≠ .ret (.error (403, text)) := by
  have hq : Quota hashtext name id m C.shared.db := by
    refine (hr.sat (T := quotaThread hashtext name id m) (Q := fun _ _ _ => True)
      (quota_compatible hashtext name id m) (fun _ _ _ _ _ _ => trivial)
      ⟨hid, hcount, fun t writes h => ?_⟩ fun t => ?_).1
    · rw [htx t] at h
      cases h
    · simp only [uploadPrograms, hm]
      exact quota_upload
  have hcheck : ∀ t func (n : Int) s', (id, func) ∈ C.shared.db.functions.keys →
      (crashSystem hashtext).exec C.pending t C.shared (.inr (.countOthers id func)) (.ok n) s' →
      ¬ m ≤ n := by
    intro t func n s' hmem hx
    obtain ⟨ch, hx⟩ | ⟨⟨-, -, hr⟩, -⟩ := hx
    · obtain ⟨-, ⟨writes, hw, hn⟩ | ⟨e, hn⟩⟩ := Db.exec_countOthers (uploadExec_db hx).1
      · have hlt := Functions.countOthers_lt (mem_visible.2 (.inl hmem) :
          (id, func) ∈ (C.shared.db.visible writes).keys)
        have hle := hq.visible hw
        have hn' : n = ((C.shared.db.visible writes).countOthers id func : Int) := Except.ok.inj hn
        omega
      · cases hn
    · cases hr
  refine ⟨hq.count, hcheck, fun t func k r s' hp hmem hx C' hr' text hret => ?_⟩
  have hsat : Sat (countJudge m) (fun r b => Forbidden r → b) (uploadPrograms u t) True := by
    rw [uploadPrograms, hm]
    exact noted_upload
  refine hr.ruled_out hsat hp (r := r) ?_ hr' hret ⟨text, rfl⟩
  rintro ⟨n, rfl, hle⟩
  exact hcheck t func n s' hmem hx hle

/-- Uploads of two names under a quota of one. -/
def twoNames (b : Bool) : Upload Wasm.plain :=
  ⟨(0 : Nat), 1, ['t'], [if b then 'g' else 'f'], [.char (if b then 'b' else 'a')]⟩

/-- Both stage, then the first one publishes; the second one counts its row and is refused. -/
def quotaRace : List (Bool × UploadChoice) :=
  ((uploadStep :: writeSteps 'x' ++ uploadStep :: writeSteps 'y').map (true, ·)) ++
    (uploadSteps 'a' 'b' 'c' ++ [uploadStep]).map (false, ·) ++
    (List.replicate 7 uploadStep).map (true, ·)

/-- A second upload of the name that is taken. -/
def threeUploads : Fin 3 → Upload Wasm.plain
  | 0 => twoNames false
  | 1 => twoNames true
  | 2 => ⟨(0 : Nat), 1, ['t'], ['f'], [.char 'c']⟩

abbrev QuotaConfig := Config (Fin 3) (Shared (Fin 3)) UploadCall UploadRes
  fun _ => Except HttpError Str

def quotaStart : QuotaConfig :=
  ⟨{ files := .ofTree ⟨∅⟩, db := .ofFunctions ∅ }, uploadPrograms threeUploads⟩

/-- The race, and then the third upload up to its count. -/
def quotaSteps : List (Fin 3 × UploadChoice) :=
  quotaRace.map (fun q => (if q.1 then 1 else 0, q.2)) ++
    (uploadStep :: writeSteps 'u' ++ uploadStep :: writeSteps 'v' ++
      List.replicate 5 uploadStep).map (2, ·)

/-- The second upload is refused, and the third is about to count the other functions. -/
def oneRefused (C : QuotaConfig) : Bool :=
  match C.prog 0, C.prog 1, C.prog 2 with
  | .ret (.ok _), .ret (.error e), .call c _ =>
    e.1 == 403 && decide (c = .inr (.countOthers 0 ['f'])) &&
      decide ((0, ['f']) ∈ C.shared.db.functions.keys)
  | _, _, _ => false

theorem quota_holds_race : ∃ C : QuotaConfig, oneRefused C = true ∧
    (C.shared.db.functions.count 0 : Int) ≤ 1 ∧
    ∀ k r s', C.prog 2 = .call (.inr (.countOthers 0 ['f'])) k →
      (crashSystem fun _ => 0).exec C.pending 2 C.shared (.inr (.countOthers 0 ['f'])) r s' →
      ∀ C', Reach (crashSystem fun _ => 0) ⟨s', Function.update C.prog 2 (k r)⟩ C' →
        ∀ text, C'.prog 2 ≠ .ret (.error (403, text)) := by
  have hrun : (quotaStart.play (fun ch _ me => uploadExec (fun _ => 0) me ch) quotaSteps).any
      oneRefused = true := by
    decide +kernel
  rw [Option.any_eq_true] at hrun
  obtain ⟨C, hplay, hC⟩ := hrun
  have hr : Reach (crashSystem fun _ => 0) quotaStart C :=
    play_reach (fun x _ t s c r s' hx => Or.inl ⟨x, hx⟩) hplay
  have hid : quotaStart.shared.db.tenantIds ['t'] = some 0 := rfl
  obtain ⟨hcount, -, hcheck⟩ := quota_holds threeUploads (fun _ => 0) 1
    (by intro t; fin_cases t <;> rfl) quotaStart.shared (fun _ => rfl) hid (by decide) hr
  refine ⟨C, hC, hcount, fun k r s' hp hx => hcheck 2 ['f'] k r s' hp ?_ hx⟩
  unfold oneRefused at hC
  split at hC
  · simp only [Bool.and_eq_true, decide_eq_true_eq] at hC
    exact hC.2
  · cases hC

end Warpline
