import Warpline.Conc.Calls
import Warpline.Control.Proof.PublishSteps

/-!
# Pointers agree with the database

Concurrent uploads whose commits may fail, having taken effect or not, each followed by its
reconcile. `pointer_agrees_with_row`: the pointer of a name is the digest of its committed row
whenever every upload of that name that has written the pointer is over.

An upload that fails its commit is left knowing nothing but that it has written the pointer; its
reconcile learns the row anew, under the lock.
-/

set_option autoImplicit false

namespace Warpline

open Conc Fs

variable {W : Wasm} {τ : Type} [DecidableEq τ] {u : τ → Upload W} {hashtext : Str → Int} {t : τ}
  {K : Known} {s s' : UploadState τ}

/-! ## Learning and forgetting -/

theorem knows_blob (hs : Knows u hashtext t K s) {digest : Str} (hd : isValidDigest digest = true)
    (hb : HasBlob digest s.state.files) :
    Knows u hashtext t { K with blob := some digest } s :=
  { hs with blob := fun _ h => by cases h; exact ⟨hd, hb⟩ }

theorem knows_tenantId (hs : Knows u hashtext t K s) {id : Nat}
    (hid : s.state.db.tenantIds (u t).tenant = some id) :
    Knows u hashtext t { K with tenantId := some id } s :=
  { hs with tenantId := fun _ h => by cases h; exact hid }

theorem knows_row (hs : Knows u hashtext t K s) {row : Option Str}
    (hrow : s.state.db.committed (u t).tenant (u t).func = row) :
    Knows u hashtext t { K with row := some row } s :=
  { hs with row := fun _ _ h => by cases h; exact hrow }

/-- An upload outside a transaction, with its last mark. -/
def Known.outside (mark : Option Bool) (failed : Bool) : Known where
  tx := none
  locked := false
  mark
  failed
  tenantId := none
  blob := none
  row := none
  pointer := none

theorem knows_outside {mark : Option Bool} {failed : Bool} (hinv : UploadInv u s)
    (htx : s.state.db.txs t = none) (hm : marked u t s = mark)
    (hf : (s.trace.of t).any failedCommit = failed) :
    Knows u hashtext t (.outside mark failed) s where
  inv := hinv
  tx := htx
  locked := nofun
  mark := hm
  failed := hf
  tenantId := nofun
  blob := nofun
  row := nofun
  pointer := nofun

/-- All that is left is the last mark. -/
def KnowsMark (u : τ → Upload W) (hashtext : Str → Int) (t : τ) (mark : Option Bool)
    (s : UploadState τ) : Prop :=
  ∃ K, K.mark = mark ∧ Knows u hashtext t K s

theorem knowsMark {mark : Option Bool} (hs : Knows u hashtext t K s) (hm : K.mark = mark) :
    KnowsMark u hashtext t mark s :=
  ⟨K, hm, hs⟩

/-- After a failed commit every call succeeds. -/
theorem knows_succeeded (hs : Knows u hashtext t K s) (hf : K.failed = true) {c : UploadCall}
    {r : UploadRes c} (he : (uploadThread u hashtext t).exec s c r s') :
    succeeded ⟨c, r⟩ = true := by
  have := he.2.2
  rw [reconcileSucceeds, hs.failed, hf] at this
  simpa using this

/-- A statement that fails is not part of a reconcile. -/
theorem knows_error (hs : Knows u hashtext t K s) {c : DbCall} {e : DbError}
    (he : (uploadThread u hashtext t).exec s (.inr c) (.error e) s') : K.failed = false := by
  cases hf : K.failed with
  | false => rfl
  | true =>
    have hsucc : Except.toBool (.error e : DbRes c) = true := knows_succeeded hs hf he
    cases hsucc

/-! ## Statements -/

theorem sat_query {ε : Type} {err : DbError → ε} {c : DbCall} {Q : Except ε (DbOk c) → _ → Prop}
    (hs : Knows u hashtext t K s)
    (h : ∀ (s₁ : UploadState τ) (r : DbRes c) (s₂ : UploadState τ), Knows u hashtext t K s₁ →
      (uploadThread u hashtext t).exec s₁ (.inr c) r s₂ →
      (uploadThread u hashtext t).guar (.inr c) s₁ s₂ ∧ Q (r.mapError err) s₂) :
    Sat (uploadThread u hashtext t) Q (query err c).run s :=
  Sat.mapErr (Sat.perform _ (knows_stable _) hs h)

/-- A statement that changes nothing. -/
theorem sat_query_same {ε : Type} {err : DbError → ε} {c : DbCall}
    (P : DbOk c → UploadState τ → Prop) (hc : c ≠ .commit)
    (h : ∀ {ch db r db'}, Db.exec hashtext t ch db c = some (r, db') → db' = db)
    (hP : ∀ {s₁ a s₂}, Knows u hashtext t K s₁ →
      (uploadThread u hashtext t).exec s₁ (.inr c) (.ok a) s₂ → s₂.state = s₁.state → P a s₂)
    (hs : Knows u hashtext t K s) :
    Sat (uploadThread u hashtext t) (fun r s => Knows u hashtext t K s ∧
      (∀ a, r = .ok a → P a s) ∧ ∀ e, r = .error e → K.failed = false) (query err c).run s := by
  refine sat_query hs fun s₁ r s₂ hs₁ he => ?_
  obtain ⟨ch, hx⟩ := he.1
  obtain ⟨hx, hfiles⟩ := uploadExec_db hx
  have hdb := h hx
  obtain ⟨hg, hs₂⟩ := knows_statement hs₁ hc he K.locked
    (fun hl => by rw [hdb]; exact hs₁.locked hl) .inl
  rw [hdb, hs₁.tx] at hs₂
  refine ⟨hg, hs₂, ?_⟩
  have hstate : s₂.state = s₁.state := by
    cases h₂ : s₂.state
    cases h₁ : s₁.state
    simp_all
  cases r with
  | ok a =>
    refine ⟨fun b hb => ?_, nofun⟩
    cases hb
    exact hP hs₁ he hstate
  | error e => exact ⟨nofun, fun _ _ => knows_error hs₁ he⟩

/-- **The tenant's lock.** -/
theorem sat_lockTenant {ε : Type} {err : DbError → ε} (hs : Knows u hashtext t K s)
    (hrow : K.row = none) (hptr : K.pointer = none) :
    Sat (uploadThread u hashtext t) (fun r s => match r with
      | .ok _ => Knows u hashtext t { K with locked := true } s
      | .error _ => Knows u hashtext t K s ∧ K.failed = false)
      (lockTenant err (u t).tenant).run s := by
  have hset : ∀ setting s, Knows u hashtext t K s → Sat (uploadThread u hashtext t)
      (fun r s => Knows u hashtext t K s ∧ (∀ a, r = .ok a → True) ∧
        ∀ e, r = .error e → K.failed = false) (query err (.setLocal setting)).run s :=
    fun setting s => sat_query_same (fun _ _ => True) (by simp) Db.exec_setLocal
      fun _ _ _ => trivial
  refine Sat.bindE ((hset _ s hs).mono fun r s₁ hr => ?_)
  rcases r with e | _
  · exact ⟨hr.1, hr.2.2 e rfl⟩
  refine Sat.bindE ((hset _ s₁ hr.1).mono fun r s₂ hr => ?_)
  rcases r with e | _
  · exact ⟨hr.1, hr.2.2 e rfl⟩
  refine sat_query hr.1 fun s₃ r s₄ hs₃ he => ?_
  obtain ⟨ch, hx⟩ := he.1
  obtain ⟨hx, -⟩ := uploadExec_db hx
  obtain ⟨rfl, -, hdb⟩ | ⟨⟨e, rfl⟩, hdb⟩ := Db.exec_lockTenant hx
  · obtain ⟨hg, hs₄⟩ := knows_statement hs₃ (by simp) he true
      (fun _ => by rw [hdb]; exact Function.update_self ..) fun _ => .inr ⟨hrow, hptr⟩
    rw [hdb] at hs₄
    exact ⟨hg, hs₃.tx ▸ hs₄⟩
  · obtain ⟨hg, hs₄⟩ := knows_statement hs₃ (by simp) he K.locked
      (fun hl => by rw [hdb]; exact hs₃.locked hl) .inl
    rw [hdb, hs₃.tx] at hs₄
    exact ⟨hg, hs₄, knows_error hs₃ he⟩

/-- Opening a transaction. -/
theorem sat_begin {ε : Type} {err : DbError → ε} (hs : Knows u hashtext t K s) :
    Sat (uploadThread u hashtext t) (fun r s => match r with
      | .ok _ => Knows u hashtext t { K with tx := some [], locked := false } s
      | .error _ => KnowsMark u hashtext t K.mark s ∧ K.failed = false)
      (query err .beginTx).run s := by
  refine sat_query hs fun s₁ r s₂ hs₁ he => ?_
  obtain ⟨ch, hx⟩ := he.1
  obtain ⟨hx, -⟩ := uploadExec_db hx
  obtain ⟨hg, hs₂⟩ := knows_statement hs₁ (by simp) he false nofun nofun
  refine ⟨hg, ?_⟩
  obtain ⟨rfl, hdb⟩ | ⟨⟨e, rfl⟩, -⟩ := Db.exec_beginTx hx
  · have htx : s₂.state.db.txs t = some [] := by
      rw [hdb]
      exact Function.update_self ..
    rwa [htx] at hs₂
  · exact ⟨knowsMark hs₂ rfl, knows_error hs₁ he⟩

/-- Dropping a transaction. -/
theorem sat_dropTx (hs : Knows u hashtext t K s) : Sat (uploadThread u hashtext t)
    (fun _ => KnowsMark u hashtext t K.mark) dropTx s := by
  refine Sat.bind (Sat.perform _ (knows_stable _) hs fun s₁ r s₂ hs₁ he => ?_)
  obtain ⟨hg, hs₂⟩ := knows_statement hs₁ (c := .rollback) (by simp) he false nofun nofun
  exact ⟨hg, knowsMark hs₂ rfl⟩

/-- Activating under the lock. -/
theorem sat_activate_locked (hs : Knows u hashtext t K s) (hl : K.locked = true) {staged : Staged} :
    Sat (uploadThread u hashtext t).inl (fun r s => match r with
      | .ok _ => Knows u hashtext t
          { K with mark := some true, pointer := some (some staged.digest) } s
      | .error _ => Knows u hashtext t K s)
      (activate (u t).tenant (u t).func staged).run s := by
  refine ((upload_actor K).sat_activate hs
    fun hp hd hs h => knows_publish_pointer hs hl hp hd h).mono fun r s hr => ?_
  cases r with
  | ok _ => exact hr
  | error _ => exact hr.1

/-- The upsert of the row. -/
theorem sat_upsert {ε : Type} {err : DbError → ε} (hs : Knows u hashtext t K s)
    (htx : K.tx = some []) (hl : K.locked = true) (row : FunctionRow) :
    Sat (uploadThread u hashtext t) (fun r s => match r with
      | .ok _ => Knows u hashtext t { K with tx := some [row], locked := true } s
      | .error _ => KnowsMark u hashtext t K.mark s) (query err (.upsert row)).run s := by
  refine sat_query hs fun s₁ r s₂ hs₁ he => ?_
  obtain ⟨ch, hx⟩ := he.1
  obtain ⟨hx, -⟩ := uploadExec_db hx
  have hlock : s₂.state.db.locks (hashtext (u t).tenant) = some t :=
    Db.exec_locks hx (by simp) (by simp) (hs₁.locked hl)
  obtain ⟨hg, hs₂⟩ := knows_statement hs₁ (by simp) he true (fun _ => hlock) fun _ => .inl hl
  refine ⟨hg, ?_⟩
  obtain ⟨writes, hw, rfl, hdb⟩ | ⟨⟨e, rfl⟩, -⟩ := Db.exec_upsert hx
  · rw [hs₁.tx, htx, Option.some.injEq] at hw
    subst hw
    have htx' : s₂.state.db.txs t = some [row] := by
      rw [hdb]
      exact Function.update_self ..
    rwa [htx'] at hs₂
  · exact knowsMark hs₂ rfl

/-- **The section inside the transaction.** -/
theorem sat_publishSection (hs : Knows u hashtext t K s) (digest : Str) (htx : K.tx = some [])
    (hrow : K.row = none) (hptr : K.pointer = none) :
    Sat (uploadThread u hashtext t) (fun r s => match r with
      | .ok _ => ∃ id, Knows u hashtext t { K with
          tx := some [⟨id, (u t).func, digest⟩]
          locked := true
          mark := some true
          tenantId := some id
          pointer := some (some digest) } s
      | .error _ => KnowsMark u hashtext t K.mark s)
      (publishSection (u t).maxFunctions (u t).tenant (u t).func ⟨digest⟩).run s := by
  refine Sat.bindE ((sat_lockTenant hs hrow hptr).mono fun r s₁ hr => ?_)
  rcases r with e | _
  · exact knowsMark hr.1 rfl
  -- the tenant
  refine Sat.bindE ((sat_query_same (c := .tenantId (u t).tenant)
    (fun a s => a = s.state.db.tenantIds (u t).tenant) (by simp) (fun hx => (Db.exec_tenantId hx).1)
    (fun {s₁ a s₂} _ he hstate => ?_) hr).mono fun r s₂ hr => ?_)
  · obtain ⟨ch, hx⟩ := he.1
    obtain h | ⟨e, h⟩ := (Db.exec_tenantId (uploadExec_db hx).1).2
    · rw [hstate]
      exact Except.ok.inj h
    · cases h
  rcases r with e | _ | id
  · exact knowsMark hr.1 rfl
  · exact knowsMark hr.1 rfl
  have hs₂ := knows_tenantId hr.1 (hr.2.1 _ rfl).symm
  -- the quota
  refine Sat.bindE ((sat_query_same (c := .countOthers id (u t).func) (fun _ _ => True) (by simp)
    (fun hx => (Db.exec_countOthers hx).1) (fun _ _ _ => trivial) hs₂).mono fun r s₃ hr => ?_)
  rcases r with e | others
  · exact knowsMark hr.1 rfl
  dsimp only
  split
  · exact knowsMark hr.1 rfl
  -- the row
  refine Sat.bindE ((sat_upsert hr.1 htx rfl ⟨id, (u t).func, digest⟩).mono fun r s₄ hr => ?_)
  rcases r with e | _
  · exact hr
  -- the pointer
  refine Sat.mapErr (Sat.of_inl ((sat_activate_locked hr rfl).mono fun r s₅ hr => ?_))
  cases r with
  | ok _ => exact ⟨id, hr⟩
  | error e => exact knowsMark hr rfl

/-! ## Commits -/

/-- **The commit of a publish**, whatever becomes of it. -/
theorem sat_commit_publish (hs : Knows u hashtext t K s) {id : Nat} {digest : Str}
    (htx : K.tx = some [⟨id, (u t).func, digest⟩]) (hl : K.locked = true)
    (hm : K.mark = some true) (hid : K.tenantId = some id) (hb : K.blob = some digest)
    (hptr : K.pointer = some (some digest)) :
    Sat (uploadThread u hashtext t) (fun (r : DbRes .commit) s => match r with
      | .ok _ => KnowsMark u hashtext t (some false) s
      | .error _ => Knows u hashtext t (.outside (some true) true) s) (onDb .commit) s := by
  refine Sat.perform _ (knows_stable _) hs fun s₁ r s₂ hs₁ he => ?_
  obtain ⟨ch, hx⟩ := he.1
  obtain ⟨hx, hfiles⟩ := uploadExec_db hx
  obtain ⟨writes, hw, hout⟩ := Db.exec_commit hx
  rw [hs₁.tx, htx, Option.some.injEq] at hw
  subst hw
  have hmark := marked_self (u := u) he.2.1
  rw [hs₁.mark, hm] at hmark
  have hfail : (s₂.trace.of t).any failedCommit = (failedCommit ⟨.inr .commit, r⟩ || K.failed) := by
    rw [he.2.1, Trace.of_cons_self, List.any_cons, hs₁.failed]
  obtain ⟨hr, hdb⟩ | ⟨⟨e, rfl⟩, -, hdb⟩ := hout
  · -- the row is committed
    have hcomm := Db.committed_commit s₁.state.db t (hs₁.tenantId id hid) (u t).func digest
    have hstep := knows_commit hs₁ hl he (fun tenant func hne => by rw [hdb, hcomm, if_neg hne])
      (fun d hd => by
        rw [hdb, hcomm, if_pos ⟨rfl, rfl⟩, Option.some.injEq] at hd
        exact hd ▸ hs₁.blob digest hb)
      (.inr (by
        rw [Agree, hdb, hcomm, if_pos ⟨rfl, rfl⟩, hfiles]
        exact hs₁.pointer hl _ hptr))
    have htx₂ : s₂.state.db.txs t = none := by
      rw [hdb]
      exact Function.update_self ..
    refine ⟨hstep.1, ?_⟩
    rcases r with e | _
    · exact knows_outside hstep.2 htx₂ hmark (hfail.trans rfl)
    · exact knowsMark (knows_outside hstep.2 htx₂ hmark hfail) rfl
  · -- it is not
    have hcomm := Db.committed_endTx s₁.state.db t
    have hstep := knows_commit hs₁ hl he (fun tenant func _ => by rw [hdb, hcomm])
      (fun d hd => hs₁.inv.blobs _ _ d (by rwa [hdb, hcomm] at hd)) (.inl hmark)
    refine ⟨hstep.1, knows_outside hstep.2 ?_ hmark (hfail.trans rfl)⟩
    rw [hdb]
    exact Function.update_self ..

/-- The commit of a reconcile, which succeeds. -/
theorem sat_commit_reconcile (hs : Knows u hashtext t K s) {row : Option Str}
    (htx : K.tx = some []) (hl : K.locked = true) (hf : K.failed = true)
    (hrow : K.row = some row) (hptr : K.pointer = some row) :
    Sat (uploadThread u hashtext t) (fun _ => KnowsMark u hashtext t (some false))
      (query ReconcileError.db .commit).run s := by
  refine sat_query hs fun s₁ r s₂ hs₁ he => ?_
  rcases r with e | _
  · exact nomatch hf.symm.trans (knows_error hs₁ he)
  obtain ⟨ch, hx⟩ := he.1
  obtain ⟨hx, hfiles⟩ := uploadExec_db hx
  obtain ⟨writes, hw, ⟨-, hdb⟩ | ⟨⟨e, he⟩, -⟩⟩ := Db.exec_commit hx
  swap
  · cases he
  rw [hs₁.tx, htx, Option.some.injEq] at hw
  subst hw
  have hcomm := Db.committed_endTx s₁.state.db t
  have hstep := knows_commit hs₁ hl he (fun tenant func _ => by rw [hdb]; exact hcomm _ _)
    (fun d hd => hs₁.inv.blobs _ _ d (by rw [hdb] at hd; exact hd))
    (.inr (by
      rw [Agree, hfiles, show s₂.state.db.committed _ _ = row from ?_]
      · exact hs₁.pointer hl _ hptr
      · rw [hdb]
        exact (hcomm _ _).trans (hs₁.row hl _ hrow)))
  refine ⟨hstep.1, knowsMark (knows_outside hstep.2 ?_ (marked_self he.2.1) rfl) rfl⟩
  rw [hdb]
  exact Function.update_self ..

/-! ## Reconciling -/

/-- What a call of a reconcile is answered. -/
def fileSucceeds (c : FsCall) (r : FsRes c) : Prop := succeeded ⟨.inl c, r⟩ = true

theorem fileSucceeds_ok {c : FsCall} {r : FsRes c} (h : fileSucceeds c r)
    (hc : ∀ p, c ≠ .removeFile p) : IsOk r := by
  cases r with
  | ok a => exact ⟨a, rfl⟩
  | error e =>
    cases c with
    | removeFile p => exact absurd rfl (hc p)
    | _ => cases h

theorem io_answers {c : FsCall} (hc : ∀ p, c ≠ .removeFile p) :
    (io (Prog.perform c)).run.Answers fileSucceeds IsOk :=
  .mapErr (.perform fun _ h => fileSucceeds_ok h hc)

theorem atomicWrite_answers (dir dest : PathBuf) (bytes : Bytes) :
    (atomicWrite dir dest bytes).run.Answers fileSucceeds IsOk := by
  refine .bindE (io_answers nofun) fun _ => .bindE (io_answers nofun) fun tmp => .onError ?_
  refine .bindE (io_answers nofun) fun _ => .bindE (io_answers nofun) fun _ => ?_
  exact .bindE (io_answers nofun) fun _ => io_answers nofun

theorem activate_answers {tenant func digest : Str} {path : PathBuf}
    (hp : pointerPath tenant func = some path) (hd : isValidDigest digest = true) :
    (activate tenant func ⟨digest⟩).run.Answers fileSucceeds IsOk := by
  obtain ⟨ht, hf, -⟩ := pointerPath_eq_some.1 hp
  simp only [activate, ht, hf, writePointer, hd, hp, Bool.not_true, Bool.or_self, if_false,
    Bool.false_eq_true]
  exact .mapErr (atomicWrite_answers _ _ _)

/-- A program on the files, run by a reconcile. -/
theorem sat_reconcile_files {α : Type} {Q : α → UploadState τ → Prop} {P : α → Prop} {p : FsM α}
    (hs : Knows u hashtext t K s) (hf : K.failed = true) (hp : p.Answers fileSucceeds P)
    (h : Sat (uploadThread u hashtext t).inl Q p s) :
    Sat (uploadThread u hashtext t).inl (fun a s => Q a s ∧ P a) p s := by
  refine Sat.answers (fun s => (s.trace.of t).any failedCommit = true) ?_ ?_ hp
    (hs.failed.trans hf) h
  · rintro c s s' hk hr
    rw [hr.calls]
    exact hk
  · rintro s c r s' hk ⟨-, htr, hok⟩
    refine ⟨?_, ?_⟩
    · show succeeded ⟨.inl c, r⟩ = true
      simpa [reconcileSucceeds, hk] using hok
    · rw [htr, Trace.of_cons_self, List.any_cons, hk, Bool.or_true]

/-- Re-activating the committed digest, whose blob is there. -/
theorem sat_activateDigest_reconcile (hs : Knows u hashtext t K s) (hl : K.locked = true)
    (hf : K.failed = true) {digest : Str} {path : PathBuf}
    (hp : pointerPath (u t).tenant (u t).func = some path) (hrow : K.row = some (some digest)) :
    Sat (uploadThread u hashtext t).inl (fun r s => IsOk r ∧ Knows u hashtext t
        { K with mark := some true, pointer := some (some digest) } s)
      (activateDigest (u t).tenant (u t).func digest).run s := by
  obtain ⟨ht, hfn, -⟩ := pointerPath_eq_some.1 hp
  obtain ⟨hd, -⟩ := hs.inv.blobs _ _ digest (hs.row hl _ hrow)
  simp only [activateDigest, ht, hfn, hd, wasmExists, Bool.not_true, Bool.or_self, if_false,
    Bool.false_eq_true, if_true]
  -- the blob is there
  refine Sat.liftE (Sat.bind (Sat.perform _ ((upload_actor K).stable _) hs
    fun s₁ r s₂ hs₁ he => ?_))
  obtain ⟨ch, hx⟩ := he.1
  obtain ⟨hx, -⟩ := uploadExec_file hx
  have hv := exec_readOnly rfl hx
  obtain ⟨hg, hs₂⟩ := knows_fileStep hs₁ he (mark_quiet (.inl rfl)) (by rw [hv]; exact .refl ..)
  refine ⟨hg, ?_⟩
  obtain ⟨b, m, hb⟩ := (hs₁.inv.blobs _ _ digest (hs₁.row hl _ hrow)).2
  obtain ⟨node, rfl, hn⟩ | ⟨e, rfl, -⟩ := exec_metadata hx
  swap
  · cases knows_succeeded hs₁ hf he
  rw [hb, Option.some.injEq] at hn
  subst hn
  refine (sat_reconcile_files hs₂ hf (activate_answers hp hd) (sat_activate_locked hs₂ hl)).mono ?_
  rintro _ s₃ ⟨hr, a, rfl⟩
  exact ⟨⟨a, rfl⟩, hr⟩

/-- Removing the pointer of a name without a row. -/
theorem sat_deactivate_reconcile (hs : Knows u hashtext t K s) (hl : K.locked = true)
    (hf : K.failed = true) (hm : K.mark = some true) {path : PathBuf}
    (hp : pointerPath (u t).tenant (u t).func = some path) :
    Sat (uploadThread u hashtext t).inl (fun r s => IsOk r ∧ Knows u hashtext t
        { K with mark := some true, pointer := some none } s)
      (deactivate (u t).tenant (u t).func).run s := by
  obtain ⟨ht, hfn, -⟩ := pointerPath_eq_some.1 hp
  simp only [deactivate, ht, hfn, removePointer, hp, Bool.not_true, Bool.or_self, if_false,
    Bool.false_eq_true]
  refine Sat.mapErr (Sat.bind (Sat.perform _ ((upload_actor K).stable _) hs
    fun s₁ r s₂ hs₁ he => ?_))
  have hr : ∀ e, r = .error e → e = .notFound := by
    rintro e rfl
    cases e with
    | notFound => rfl
    | other => cases knows_succeeded hs₁ hf he
  obtain ⟨hg, hs₂⟩ := knows_remove_pointer hs₁ hl hm hp he hr
  refine ⟨hg, ?_⟩
  rcases r with (_ | _) | _
  · exact ⟨⟨_, rfl⟩, hs₂⟩
  · cases hr _ rfl
  · exact ⟨⟨_, rfl⟩, hs₂⟩

/-- **`try_reconcile`** settles the pointer. -/
theorem sat_tryReconcile (hs : Knows u hashtext t (.outside (some true) true) s) {path : PathBuf}
    (hp : pointerPath (u t).tenant (u t).func = some path) :
    Sat (uploadThread u hashtext t) (fun _ => KnowsMark u hashtext t (some false))
      (tryReconcile (u t).tenant (u t).func).run s := by
  refine Sat.bindE ((sat_begin hs).mono fun r s₁ hr => ?_)
  rcases r with e | _
  · exact nomatch hr.2
  refine Sat.bindE (Sat.onError ?_)
  refine Sat.bindE ((sat_lockTenant hr rfl rfl).mono fun r s₂ hr => ?_)
  rcases r with e | _
  · exact nomatch hr.2
  -- the committed row
  refine Sat.bindE ((sat_query_same (c := .functionHash (u t).tenant (u t).func)
    (fun h s => s.state.db.committed (u t).tenant (u t).func = h) (by simp)
    (fun hx => (Db.exec_functionHash hx).1) (fun {s₁ a s₂} hs₁ he hstate => ?_) hr).mono
    fun r s₃ hr => ?_)
  · obtain ⟨ch, hx⟩ := he.1
    obtain ⟨writes, hw, h⟩ | ⟨e, h⟩ := (Db.exec_functionHash (uploadExec_db hx).1).2
    · rw [hs₁.tx] at hw
      cases hw
      rw [hstate]
      exact (Except.ok.inj h).symm
    · cases h
  rcases r with e | row
  · exact nomatch hr.2.2 e rfl
  have hs₃ := knows_row hr.1 (hr.2.1 row rfl)
  have hcommit : ∀ s, Knows u hashtext t { Known.outside (some true) true with
        tx := some [], locked := true, row := some row, pointer := some row } s →
      Sat (uploadThread u hashtext t) (fun _ => KnowsMark u hashtext t (some false))
        (query ReconcileError.db .commit).run s :=
    fun s hs => sat_commit_reconcile hs rfl rfl rfl rfl rfl
  cases row with
  | some digest =>
    refine Sat.mapErr (Sat.of_inl ((sat_activateDigest_reconcile hs₃ rfl rfl hp rfl).mono ?_))
    rintro _ s₄ ⟨⟨a, rfl⟩, hs₄⟩
    exact hcommit s₄ hs₄
  | none =>
    refine Sat.mapErr (Sat.of_inl ((sat_deactivate_reconcile hs₃ rfl rfl rfl hp).mono ?_))
    rintro _ s₄ ⟨⟨a, rfl⟩, hs₄⟩
    exact hcommit s₄ hs₄

/-! ## Uploading -/

/-- **`publish_in_db`** leaves no pointer written and not settled. -/
theorem sat_publishInDb {digest : Str} {path : PathBuf}
    (hp : pointerPath (u t).tenant (u t).func = some path) (hs : Knows u hashtext t K s)
    (hm : K.mark = none) (hb : K.blob = some digest) (hrow : K.row = none)
    (hptr : K.pointer = none) :
    Sat (uploadThread u hashtext t) (fun _ s => marked u t s ≠ some true)
      (publishInDb (u t).maxFunctions (u t).tenant (u t).func ⟨digest⟩).run s := by
  have hdone : ∀ {m : Option Bool} {s : UploadState τ}, m ≠ some true →
      KnowsMark u hashtext t m s → marked u t s ≠ some true := by
    rintro m s hne ⟨K', rfl, hs⟩
    rwa [hs.mark]
  refine Sat.bindE ((sat_begin hs).mono fun r s₁ hr => ?_)
  rcases r with e | _
  · exact hdone (by simp [hm]) hr.1
  refine Sat.bindE (Sat.onError ((sat_publishSection hr digest rfl hrow hptr).mono
    fun r s₂ hr => ?_))
  rcases r with e | _
  · obtain ⟨K', hK', hs₂⟩ := hr
    refine (sat_dropTx hs₂).mono fun _ s₃ hs₃ => hdone ?_ hs₃
    rw [hK']
    simp [hm]
  obtain ⟨id, hs₂⟩ := hr
  -- the commit
  refine Sat.liftE ((sat_commit_publish hs₂ rfl rfl rfl rfl hb rfl).mono fun r s₃ hr => ?_)
  rcases r with e | _
  · refine Sat.liftE (Sat.bind ((sat_tryReconcile hr hp).mono fun _ s₄ hs₄ => ?_))
    exact hdone (by simp) hs₄
  · exact hdone (by simp) hr

/-- After `stage` the blob is there. -/
theorem sat_stage_upload (hs : Knows u hashtext t K s) :
    Sat (uploadThread u hashtext t).inl (fun r s => match r with
      | .ok staged => staged = ⟨W.digest (u t).wasm⟩ ∧
          Knows u hashtext t { K with blob := some (W.digest (u t).wasm) } s
      | .error _ => Knows u hashtext t K s) (stage W (u t).engine (u t).wasm).run s := by
  have hd := W.digest_valid (u t).wasm
  have hw := wasmPath_not_temp hd
  have hwp : ∀ tenant func, pointerPath tenant func ≠ some (wasmPath (W.digest (u t).wasm)) :=
    fun _ _ hp => wasmPath_ne_pointer hd hp rfl
  have hc := cwasmPath_not_temp W (u t).engine hd
  have hcp : ∀ tenant func, pointerPath tenant func ≠
      some (cwasmDir.join (cacheFileName W (u t).engine (W.digest (u t).wasm))) :=
    fun _ _ hp => cwasmPath_ne_pointer W _ hd hp rfl
  refine ((upload_actor K).sat_stage (upload_actor K) (S := Knows u hashtext t
      { K with blob := some (W.digest (u t).wasm) }) hs
    (fun _ _ hs h => knows_publish_blob hs hc hcp h) (fun hs h => knows_touch hs hc hcp h)
    (fun {s s' b m now} hs h => ?_) (fun hs _ => hs) (fun {s s' tmp m} hs h => ?_)).mono
    fun r s hr => ?_
  · obtain ⟨hg, hs'⟩ := knows_touch hs hw hwp h
    refine ⟨hg, knows_blob hs' hd ⟨b, now, ?_⟩⟩
    have hne : wasmPath (W.digest (u t).wasm) ≠ [] := by
      rw [wasmPath_eq hd]
      exact PathBuf.child_ne_nil _ _
    rw [h.view_eq]
    exact DirTree.get_put _ _ hne
  · obtain ⟨hg, hs'⟩ := knows_publish_blob hs hw hwp h
    exact ⟨hg, knows_blob hs' hd ⟨_, m, (renamed_get h.view_eq h.mine hw h.notDir).1⟩⟩
  · rcases r with e | staged
    · exact hr.elim id id
    · obtain ⟨hs', hst⟩ := hr
      refine ⟨?_, hs'⟩
      cases staged
      exact congrArg Staged.mk hst

/-- **An upload** that is over has settled its pointer. -/
theorem sat_upload (hs : Knows u hashtext t K s) (hm : K.mark = none) (hrow : K.row = none)
    (hptr : K.pointer = none) :
    Sat (uploadThread u hashtext t) (fun _ s => marked u t s ≠ some true)
      (upload W (u t).engine (u t).maxFunctions (u t).tenant (u t).func (u t).wasm).run s := by
  have hnone : ∀ {K'} {s : UploadState τ}, K'.mark = none → Knows u hashtext t K' s →
      marked u t s ≠ some true := by
    intro K' s hK hs
    rw [hs.mark, hK]
    exact nofun
  unfold upload
  split
  · exact hnone hm hs
  rename_i hname
  simp only [Bool.or_eq_true, Bool.not_eq_true', not_or, Bool.not_eq_false] at hname
  have hp := pointerPath_eq_some.2 ⟨hname.1, hname.2, rfl⟩
  refine Sat.bindE (Sat.mapErr (Sat.of_inl ((sat_stage_upload hs).mono fun r s₁ hr => ?_)))
  rcases r with e | staged
  · exact hnone hm hr
  obtain ⟨rfl, hs₁⟩ := hr
  refine Sat.bindE ((sat_publishInDb hp hs₁ hm rfl hrow hptr).mono fun r s₂ hr => ?_)
  cases r with
  | error e => exact hr
  | ok _ => exact hr

/-! ## All uploads together -/

def uploadPrograms (u : τ → Upload W) : ∀ _ : τ, UploadM (Except HttpError Str) :=
  fun t => (upload W (u t).engine (u t).maxFunctions (u t).tenant (u t).func (u t).wasm).run

/-- The uploads from the shared state `s₀`, nothing called yet. -/
def uploadStart (u : τ → Upload W) (s₀ : Shared τ) :
    Config τ (UploadState τ) UploadCall UploadRes fun _ => Except HttpError Str :=
  ⟨⟨s₀, []⟩, uploadPrograms u⟩

theorem upload_compatible (u : τ → Upload W) (hashtext : Str → Int) :
    Compatible ((uploadSystem hashtext).traced.restrict fun pend t s c r =>
        reconcileSucceeds pend t s c r = true) (uploadThread u hashtext) (UploadInv u) where
  exec := fun _ _ _ _ _ _ _ _ ⟨⟨he, htr⟩, hok⟩ => ⟨he, htr, hok⟩
  guar := fun _ _ v _ _ _ _ hne _ _ _ hg => hg.2 v hne.symm
  env := fun _ _ _ _ _ h => h.1.elim
  inv := fun _ _ _ _ _ hg => hg.1
  envInv := fun _ _ _ _ h => h.1.elim

/-- An upload whose pointer is written and whose last commit has not succeeded has written it. -/
theorem wrote_of_marked {tr : List UploadEvent} {tenant func : Str}
    (h : latest (mark tenant func) tr = some true) : tr.any (pointerWrite tenant func) = true := by
  induction tr with
  | nil => cases h
  | cons q tr ih =>
    obtain ⟨c, r⟩ := q
    rw [List.any_cons]
    cases hw : pointerWrite tenant func ⟨c, r⟩ with
    | true => rfl
    | false =>
      refine ih ?_
      rw [latest_cons] at h
      cases hm : mark tenant func c r with
      | none => rwa [hm, Option.none_or] at h
      | some b =>
        rw [hm, Option.some_or, Option.some.injEq] at h
        subst h
        unfold mark at hm
        split at hm
        · cases hm
        · simp [hw] at hm

/-- **Pointer and row agree**: whenever every upload of a name that has written its pointer is over,
the pointer of the name is the digest of its committed row, and that digest's blob is there. -/
theorem pointer_agrees_with_row (u : τ → Upload W) (hashtext : Str → Int) (s₀ : Shared τ)
    (hagree : ∀ tenant func, Agree s₀ tenant func)
    (hblobs : ∀ tenant func digest, s₀.db.committed tenant func = some digest →
      HasBlob digest s₀.files)
    {C : Config τ (UploadState τ) UploadCall UploadRes fun _ => Except HttpError Str}
    (hr : Reach ((uploadSystem hashtext).traced.restrict fun pend t s c r =>
        reconcileSucceeds pend t s c r = true) (uploadStart u s₀) C)
    {tenant func : Str}
    (hover : ∀ t, (u t).tenant = tenant → (u t).func = func →
      (C.shared.trace.of t).any (pointerWrite tenant func) = true → ∃ r, C.prog t = .ret r) :
    Agree C.shared.state tenant func ∧
      ∀ digest, C.shared.state.db.committed tenant func = some digest →
        HasBlob digest C.shared.state.files := by
  have hinv₀ : UploadInv u (uploadStart u s₀).shared := by
    refine ⟨fun tenant func => .inl (hagree tenant func), fun tenant func digest hd => ?_⟩
    have h := hagree tenant func
    unfold Agree at h
    rw [show s₀.db.committed tenant func = some digest from hd] at h
    exact ⟨h.1, hblobs tenant func digest hd⟩
  have hstart : ∀ t, Knows u hashtext t { Known.outside none false with tx := s₀.db.txs t }
      (uploadStart u s₀).shared :=
    fun t => ⟨hinv₀, rfl, nofun, rfl, rfl, nofun, nofun, nofun, nofun⟩
  obtain ⟨hinv, hsat⟩ := hr.sat (Q := fun t _ s => marked u t s ≠ some true)
    (upload_compatible u hashtext)
    (fun t r s s' h hrel => by
      show latest _ (s'.trace.of t) ≠ some true
      rw [hrel.calls]
      exact h)
    hinv₀ fun t => sat_upload (hstart t) rfl rfl rfl
  refine ⟨(hinv.agree tenant func).resolve_right ?_, fun digest hd => (hinv.blobs _ _ digest hd).2⟩
  rintro ⟨t, rfl, rfl, hm⟩
  obtain ⟨r, hret⟩ := hover t rfl rfl (wrote_of_marked hm)
  have hpost := hsat t
  rw [hret] at hpost
  exact hpost hm

/-! ## A run -/

/-- Two uploads of one name. -/
def twoUploads (b : Bool) : Upload Wasm.plain :=
  ⟨(0 : Nat), 100, ['t'], ['f'], [.char (if b then 'b' else 'a')]⟩

/-- An empty registry, and a database with the tenant. -/
def emptyShared : Shared Bool := ⟨.ofTree ⟨∅⟩, .ofFunctions ∅⟩

theorem empty_agree {τ : Type} (tenant func : Str) :
    Agree (⟨.ofTree ⟨∅⟩, .ofFunctions ∅⟩ : Shared τ) tenant func := by
  have hnone : (Db.ofFunctions ∅ : Db τ).committed tenant func = none := by
    cases h : (Db.ofFunctions ∅ : Db τ).tenantIds tenant <;> simp only [Db.committed, h] <;> rfl
  rw [Agree, hnone]
  intro path hp b m
  have hne : path ≠ [] := by
    rintro rfl
    cases pointerPath_length hp
  simp [DirTree.get, hne]

def uploadStep : UploadChoice := ⟨.ofNow 0, ⟨false, false⟩⟩

/-- The calls of one `atomic_write`. -/
def writeSteps (suffix : Char) : List UploadChoice :=
  [uploadStep, ⟨.ofSuffix 0 [suffix], ⟨false, false⟩⟩] ++ List.replicate 4 uploadStep

/-- An upload of new bytes up to its commit. -/
def uploadSteps (a b c : Char) : List UploadChoice :=
  uploadStep :: writeSteps a ++ uploadStep :: writeSteps b ++ List.replicate 7 uploadStep ++
    writeSteps c

/-- The first upload's commit takes effect but is reported as failed; the second upload comes
before the first one's reconcile. -/
def uploadInTheGap : List (Bool × UploadChoice) :=
  (uploadSteps 'a' 'b' 'c').map (false, ·) ++
    [(false, ⟨.ofNow 0, ⟨true, true⟩⟩)] ++
    (uploadSteps 'x' 'y' 'z' ++ [uploadStep]).map (true, ·) ++
    (List.replicate 6 uploadStep ++ writeSteps 'd' ++ [uploadStep]).map (false, ·)

def bothOver (C : Config Bool (UploadState Bool) UploadCall UploadRes fun _ =>
    Except HttpError Str) : Bool :=
  match C.prog false, C.prog true with
  | .ret _, .ret _ => true
  | _, _ => false

theorem bothOver_ret {C : Config Bool (UploadState Bool) UploadCall UploadRes fun _ =>
    Except HttpError Str} (h : bothOver C = true) (b : Bool) : ∃ r, C.prog b = .ret r := by
  unfold bothOver at h
  split at h
  · rename_i r₀ r₁ h₀ h₁
    cases b with
    | false => exact ⟨r₀, h₀⟩
    | true => exact ⟨r₁, h₁⟩
  · cases h

theorem uploadExec_sound (hashtext : Str → Int) (ch : UploadChoice) (pend : τ → Option UploadCall)
    (me : τ) (s : Shared τ) (c : UploadCall) (r : UploadRes c) (s' : Shared τ)
    (h : uploadExec hashtext me ch s c = some (r, s')) :
    (uploadSystem hashtext).exec pend me s c r s' :=
  ⟨ch, h⟩

theorem pointer_agrees_with_row_gap :
    ∃ C, (uploadStart twoUploads emptyShared).play
        (checked (tracing fun ch _ me => uploadExec (fun _ => 0) me ch) reconcileSucceeds)
        uploadInTheGap = some C ∧ Agree C.shared.state ['t'] ['f'] := by
  have hrun : ((uploadStart twoUploads emptyShared).play
      (checked (tracing fun ch _ me => uploadExec (fun _ => 0) me ch) reconcileSucceeds)
      uploadInTheGap).any bothOver = true := by
    decide +kernel
  rw [Option.any_eq_true] at hrun
  obtain ⟨C, hplay, hC⟩ := hrun
  exact ⟨C, hplay, (pointer_agrees_with_row twoUploads (fun _ => 0) emptyShared empty_agree
    (fun tenant func digest hd => by
      have h : Agree emptyShared tenant func := empty_agree tenant func
      unfold Agree at h
      rw [hd] at h
      obtain ⟨-, path, contents, m, hp, -, hb⟩ := h
      have hne : path ≠ [] := by
        rintro rfl
        cases pointerPath_length hp
      simp [emptyShared, DirTree.get, hne] at hb)
    (play_restrict (tracing_sound (uploadExec_sound _)) hplay)
    fun t _ _ _ => bothOver_ret hC t).1⟩

end Warpline
