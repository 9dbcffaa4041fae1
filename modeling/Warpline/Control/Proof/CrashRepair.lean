import Warpline.Control.Proof.QuotaRun

/-!
# Repairing a crashed upload

Uploads whose processes may die at any point, and one more upload `t` of a name, whose own
operations succeed. What `t` does to its pointer it does under the tenant's lock, so all depends on
the state `s₁` in which it has looked its tenant up there (`CrashState.found`): if the tenant's row
exists and its other functions leave room (`Admitted`), the pointer is written and its row
committed; otherwise `t` leaves both as they are.

`crash_repaired_iff`: when `t` is over, the pointer of its name is the digest of its committed row
exactly if `t` was admitted, or the two agreed in `s₁` already. `crash_not_repaired` is a run where
the quota has been used up between the crash and the repair.
-/

set_option autoImplicit false

namespace Warpline

open Conc Fs

/-! ## The settings -/

/-- The rows and the pointers of a tenant are the same. -/
structure SameTenant {τ : Type} (tenant : Str) (s s' : Shared τ) : Prop where
  tenantIds : s'.db.tenantIds = s.db.tenantIds
  row : ∀ func, s'.db.committed tenant func = s.db.committed tenant func
  pointer : ∀ func, SamePointer tenant func s.files s'.files

section
variable {W : Wasm} {τ : Type} [DecidableEq τ] (u : τ → Upload W) (hashtext : Str → Int)

/-- The tenant of an upload exists, and its other functions leave room for one more. -/
def Admitted (upload : Upload W) (db : Db τ) : Prop :=
  ∃ id, db.tenantIds upload.tenant = some id ∧
    (db.functions.countOthers id upload.func : Int) < upload.maxFunctions

/-- The statements of upload `t` succeed, and so do its calls on the files once it has looked its
tenant up. -/
def ownSucceeds (t me : τ) (s : CrashState τ) (c : UploadCall) (r : UploadRes c) : Bool :=
  me != t || (c.isLeft && (s.found t).isNone) || succeeded ⟨c, r⟩

/-- Upload `t` succeeds in its calls; once it is over, no other upload of its name makes one. -/
def repairs (t : τ) (pend : τ → Option UploadCall) (me : τ) (s : CrashState τ) (c : UploadCall)
    (r : UploadRes c) : Bool :=
  ownSucceeds t me s c r && ((pend t).isSome || me == t ||
    !((u me).tenant == (u t).tenant && (u me).func == (u t).func))

/-- What is left to upload `v` by the others' steps. -/
structure Around (v : τ) (s s' : Shared τ) : Prop where
  tx : s'.db.txs v = s.db.txs v
  locks : ∀ k, s.db.locks k = some v → s'.db.locks k = some v
  tenant : s.db.locks (hashtext (u v).tenant) = some v → SameTenant (u v).tenant s s'

/-- What a call of upload `v` leaves as it is: all rows and pointers, but for those of its own name
while it holds the lock. -/
structure OwnStep (v : τ) (s s' : CrashState τ) : Prop where
  crashed : s'.crashed = s.crashed
  found : ∀ w, w ≠ v → s'.found w = s.found w
  tenantIds : s'.shared.db.tenantIds = s.shared.db.tenantIds
  txs : ∀ w, w ≠ v → s'.shared.db.txs w = s.shared.db.txs w
  locks : ∀ w k, w ≠ v → s.shared.db.locks k = some w → s'.shared.db.locks k = some w
  temps : ∀ w p, w ≠ v → s.shared.files.temps p = some w → s'.shared.files.temps p = some w ∧
    ∀ b m, s'.shared.files.tree.get p = some (.file b m) →
      s.shared.files.tree.get p = some (.file b m)
  names : ∀ tenant func, ¬ (s.shared.db.locks (hashtext (u v).tenant) = some v ∧
      (u v).tenant = tenant ∧ (u v).func = func) →
    s'.shared.db.committed tenant func = s.shared.db.committed tenant func ∧
      SamePointer tenant func s.shared.files s'.shared.files

/-- A step of the other uploads, or a crash. -/
structure CrashRely (t v : τ) (pend : Option UploadCall) (s s' : CrashState τ) : Prop where
  around : s'.crashed v = false → s.crashed v = false ∧ Around u hashtext v s.shared s'.shared
  found : s'.found v = s.found v
  temps : ∀ p, s.shared.files.temps p = some v → s'.shared.files.temps p = some v ∧
    ∀ b m, s'.shared.files.tree.get p = some (.file b m) →
      s.shared.files.tree.get p = some (.file b m)
  ended : v = t → pend = none →
    s'.shared.db.committed (u v).tenant (u v).func = s.shared.db.committed (u v).tenant (u v).func ∧
      SamePointer (u v).tenant (u v).func s.shared.files s'.shared.files

def crashThread (t v : τ) : Thread (CrashState τ) UploadCall UploadRes where
  exec := fun s c r s' => (∃ ch, haltExec hashtext v ch s c = some (r, s')) ∧
    ownSucceeds t v s c r = true
  rely := CrashRely u hashtext t v
  guar := fun _ => OwnStep u hashtext v

/-- The files and the database kept as they are seen by `v`. -/
def KeptFor (v : τ) (F : Shared τ → Prop) : Prop := ∀ s s', F s → Around u hashtext v s s' → F s'

end

/-- What upload `v` knows, unless it has crashed. -/
def Alive {τ : Type} (v : τ) (found : Option (Shared τ)) (F : Shared τ → Prop) (s : CrashState τ) :
    Prop :=
  s.found v = found ∧ (s.crashed v = false → F s.shared)

section
variable {W : Wasm} {τ : Type} [DecidableEq τ] {u : τ → Upload W} {hashtext : Str → Int} {t v : τ}
  {f : Option (Shared τ)} {F : Shared τ → Prop} {s s' : CrashState τ}

omit [DecidableEq τ] in
theorem SameTenant.refl (tenant : Str) (s : Shared τ) : SameTenant tenant s s :=
  ⟨rfl, fun _ => rfl, fun _ _ _ _ _ => .rfl⟩

omit [DecidableEq τ] in
theorem SameTenant.trans {tenant : Str} {s₁ s₂ s₃ : Shared τ} (h : SameTenant tenant s₁ s₂)
    (h' : SameTenant tenant s₂ s₃) : SameTenant tenant s₁ s₃ :=
  ⟨h'.tenantIds.trans h.tenantIds, fun func => (h'.row func).trans (h.row func),
    fun func path hp b m => (h'.pointer func path hp b m).trans (h.pointer func path hp b m)⟩

omit [DecidableEq τ] in
/-- Pointer and row agree before exactly if they agree after. -/
theorem agree_congr {tenant func : Str} {s s' : Shared τ}
    (hrow : s'.db.committed tenant func = s.db.committed tenant func)
    (hptr : SamePointer tenant func s.files s'.files) :
    Agree s' tenant func ↔ Agree s tenant func :=
  ⟨fun h => h.congr (fun path hp b m => (hptr path hp b m).symm) hrow.symm,
    fun h => h.congr hptr hrow⟩

theorem alive_stable (hF : KeptFor u hashtext v F) (c : Option UploadCall) :
    (crashThread u hashtext t v).Stable c (Alive v f F) := by
  intro s s' hs hr
  refine ⟨hr.found.trans hs.1, fun hc => ?_⟩
  obtain ⟨hc, ha⟩ := hr.around hc
  exact hF _ _ (hs.2 hc) ha

/-! ## Steps on the files -/

theorem crash_step {c : UploadCall} {r : UploadRes c}
    (he : (crashThread u hashtext t v).exec s c r s') :
    s.crashed v = false ∧ s'.crashed = s.crashed ∧ s'.found = recordLookup v s c ∧
      ∃ ch, uploadExec hashtext v ch s.shared c = some (r, s'.shared) := by
  obtain ⟨ch, hx⟩ := he.1
  obtain ⟨hc, hx, hcr, hf⟩ := haltExec_spec hx
  exact ⟨hc, hcr, hf, ch, hx⟩

/-- **A step on the files**: its pointer is changed only under the lock. -/
theorem ownStep_file {c : FsCall} {r : FsRes c}
    (he : (crashThread u hashtext t v).exec s (.inl c) r s')
    (htemps : ∀ w p, w ≠ v → s.shared.files.temps p = some w →
      s'.shared.files.temps p = some w ∧ ∀ b m,
        s'.shared.files.tree.get p = some (.file b m) →
          s.shared.files.tree.get p = some (.file b m))
    (hptr : ∀ tenant func, ¬ (s.shared.db.locks (hashtext (u v).tenant) = some v ∧
        (u v).tenant = tenant ∧ (u v).func = func) →
      SamePointer tenant func s.shared.files s'.shared.files) :
    OwnStep u hashtext v s s' := by
  obtain ⟨-, hcr, hf, ch, hx⟩ := crash_step he
  obtain ⟨-, hdb⟩ := uploadExec_file hx
  exact
    { crashed := hcr
      found := fun w _ => by rw [hf]; rfl
      tenantIds := by rw [hdb]
      txs := fun w _ => by rw [hdb]
      locks := fun w k _ hk => by rw [hdb]; exact hk
      temps := htemps
      names := fun tenant func hne => ⟨by rw [hdb], hptr tenant func hne⟩ }

/-- A harmless step takes nothing from what is known. -/
theorem alive_fileStep (hF : KeptFor u hashtext v F) (hs : Alive v f F s) {c : FsCall} {r : FsRes c}
    (he : (crashThread u hashtext t v).exec s (.inl c) r s')
    (h : Harmless v s.shared.files s'.shared.files) :
    OwnStep u hashtext v s s' ∧ Alive v f F s' := by
  obtain ⟨hc, hcr, hf, ch, hx⟩ := crash_step he
  obtain ⟨-, hdb⟩ := uploadExec_file hx
  refine ⟨ownStep_file he h.temps fun _ _ _ => h.pointer _ _, ?_, fun _ => ?_⟩
  · rw [hf]
    exact hs.1
  · refine hF _ _ (hs.2 hc) ⟨by rw [hdb], fun k hk => by rw [hdb]; exact hk, fun _ => ?_⟩
    exact ⟨by rw [hdb], fun _ => by rw [hdb], fun _ => h.pointer _ _⟩

theorem alive_actor (hF : KeptFor u hashtext v F) :
    Actor (fun s => s.shared.files) (crashThread u hashtext t v).inl v (fun _ => True)
      (Alive v f F) where
  exec _ he := by
    obtain ⟨-, -, -, ch, hx⟩ := crash_step (u := u) he
    exact ⟨ch.file, trivial, (uploadExec_file hx).1⟩
  stable c := alive_stable hF (some (.inl c))
  temps _ hr ht := hr.temps _ ht
  same _ hs he hv := alive_fileStep hF hs he (by
    rw [hv]
    exact .refl ..)
  quiet _ hs he hq := alive_fileStep hF hs he (harmless_quiet hq)
  cleanup hs ht he hv := alive_fileStep hF hs he (by
    rw [hv]
    exact harmless_del ht)

/-- `stage` keeps what is known, and yields the digest of the bytes. -/
theorem crash_stage (hF : KeptFor u hashtext v F) (hs : Alive v f F s) :
    Sat (crashThread u hashtext t v).inl
      (fun r s => Alive v f F s ∧ ∀ staged, r = .ok staged → staged.digest = W.digest (u v).wasm)
      (stage W (u v).engine (u v).wasm).run s := by
  let files : CrashState τ → State τ := fun s => s.shared.files
  have hd := W.digest_valid (u v).wasm
  have hw := wasmPath_not_temp hd
  have hwp : ∀ tenant func, pointerPath tenant func ≠ some (wasmPath (W.digest (u v).wasm)) :=
    fun _ _ hp => wasmPath_ne_pointer hd hp rfl
  have hc := cwasmPath_not_temp W (u v).engine hd
  have hcp : ∀ tenant func, pointerPath tenant func ≠
      some (cwasmDir.join (cacheFileName W (u v).engine (W.digest (u v).wasm))) :=
    fun _ _ hp => cwasmPath_ne_pointer W _ hd hp rfl
  refine ((alive_actor hF).sat_stage (alive_actor hF) (S := Alive v f F) hs
    (fun _ _ hs h => alive_fileStep hF hs h.exec (harmless_published files h hc hcp))
    (fun hs h => alive_fileStep hF hs h.exec (harmless_touched files h hc hcp))
    (fun hs h => alive_fileStep hF hs h.exec (harmless_touched files h hw hwp)) (fun hs _ => hs)
    fun hs h => alive_fileStep hF hs h.exec (harmless_published files h hw hwp)).mono
    fun r s hr => ?_
  rcases r with e | staged
  · refine ⟨hr.elim id id, fun _ h => ?_⟩
    cases h
  · refine ⟨hr.1, fun staged' h => ?_⟩
    cases h
    exact hr.2

/-! ## Statements -/

theorem ownStep_statement {c : DbCall} {r : DbRes c}
    (he : (crashThread u hashtext t v).exec s (.inr c) r s')
    (hrow : ∀ tenant func, ¬ (s.shared.db.locks (hashtext (u v).tenant) = some v ∧
        (u v).tenant = tenant ∧ (u v).func = func) →
      s'.shared.db.committed tenant func = s.shared.db.committed tenant func) :
    OwnStep u hashtext v s s' := by
  obtain ⟨-, hcr, hf, ch, hx⟩ := crash_step he
  obtain ⟨hx, hfiles⟩ := uploadExec_db hx
  have hframe := Db.exec_frame hx
  refine
    { crashed := hcr
      found := fun w hw => ?_
      tenantIds := hframe.tenantIds
      txs := fun w hw => hframe.txs w hw
      locks := fun w k hw hk => (hframe.locks w k hw).2 hk
      temps := fun w p _ hp => ⟨by rw [hfiles]; exact hp, fun b m => by rw [hfiles]; exact id⟩
      names := fun tenant func hne => ⟨hrow tenant func hne, fun _ _ _ _ => by rw [hfiles]⟩ }
  rw [hf]
  cases c with
  | tenantId => exact Function.update_of_ne hw _ _
  | _ => rfl

/-- The committed rows change by commits only. -/
theorem ownStep_noCommit {c : DbCall} {r : DbRes c} (hc : c ≠ .commit)
    (he : (crashThread u hashtext t v).exec s (.inr c) r s') : OwnStep u hashtext v s s' := by
  refine ownStep_statement he fun tenant func _ => ?_
  obtain ⟨-, -, -, ch, hx⟩ := crash_step he
  have hframe := Db.exec_frame (uploadExec_db hx).1
  rw [Db.committed, Db.committed, hframe.tenantIds, hframe.functions hc]

/-- A statement of the upload that repairs does not fail. -/
theorem crash_error {c : DbCall} {e : DbError}
    (he : (crashThread u hashtext t v).exec s (.inr c) (.error e) s') : v ≠ t := by
  intro hv
  have hok := he.2
  simp [ownSucceeds, hv, succeeded, Except.toBool] at hok

/-- What the record of a statement says: nothing new, unless it looks a tenant up. -/
theorem recordLookup_other {c : DbCall} (hc : ∀ tenant, c ≠ .tenantId tenant) :
    recordLookup v s (.inr c) = s.found := by
  cases c with
  | tenantId tenant => exact absurd rfl (hc tenant)
  | _ => rfl

theorem crash_query {ε : Type} {err : DbError → ε} {c : DbCall}
    {Q : Except ε (DbOk c) → CrashState τ → Prop} (hF : KeptFor u hashtext v F) (hs : Alive v f F s)
    (h : ∀ (s₁ : CrashState τ) (r : DbRes c) (s₂ : CrashState τ), s₁.found v = f → F s₁.shared →
      (crashThread u hashtext t v).exec s₁ (.inr c) r s₂ →
      OwnStep u hashtext v s₁ s₂ ∧ Q (r.mapError err) s₂) :
    Sat (crashThread u hashtext t v) Q (query err c).run s := by
  refine Sat.mapErr (Sat.perform _ (alive_stable hF _) hs fun s₁ r s₂ hs₁ he => ?_)
  exact h s₁ r s₂ hs₁.1 (hs₁.2 (crash_step he).1) he

/-- A statement that is answered, and changes nothing but what `hdb` says. -/
theorem crash_answered {c : DbCall} {a : DbOk c} {G : Shared τ → Prop}
    (hc : ∀ tenant, c ≠ .tenantId tenant) (hf : s.found v = f)
    (he : (crashThread u hashtext t v).exec s (.inr c) (.ok a) s')
    (hdb : ∀ {ch db'}, Db.exec hashtext v ch s.shared.db c = some (.ok a, db') →
      G ⟨s.shared.files, db'⟩) : Alive v f G s' := by
  obtain ⟨-, -, hfound, ch, hx⟩ := crash_step he
  obtain ⟨hx, hfiles⟩ := uploadExec_db hx
  refine ⟨by rw [hfound, recordLookup_other hc, hf], fun _ => ?_⟩
  have hg := hdb hx
  rw [← hfiles] at hg
  exact hg

/-! ## What is known under the lock -/

/-- In a transaction that has written `writes`, `P` being about the tenant only. -/
structure Locked (u : τ → Upload W) (hashtext : Str → Int) (v : τ) (writes : List FunctionRow)
    (P : Shared τ → Prop) (s : Shared τ) : Prop where
  tx : s.db.txs v = some writes
  lock : s.db.locks (hashtext (u v).tenant) = some v
  here : P s

/-- A property of the rows and the pointers of a tenant. -/
def OfTenant (tenant : Str) (P : Shared τ → Prop) : Prop :=
  ∀ s s', SameTenant tenant s s' → P s → P s'

variable {P : Shared τ → Prop} {writes : List FunctionRow}

omit [DecidableEq τ] in
theorem locked_kept (hP : OfTenant (u v).tenant P) :
    KeptFor u hashtext v (Locked u hashtext v writes P) := by
  intro s s' hs ha
  exact ⟨ha.tx.trans hs.tx, ha.locks _ hs.lock, hP _ _ (ha.tenant hs.lock) hs.here⟩

omit [DecidableEq τ] in
theorem begun_kept : KeptFor u hashtext v fun s => s.db.txs v = some writes :=
  fun _ _ hs ha => ha.tx.trans hs

omit [DecidableEq τ] in
theorem true_ofTenant (tenant : Str) : OfTenant (τ := τ) tenant fun _ => True :=
  fun _ _ _ _ => trivial

omit [DecidableEq τ] in
theorem same_ofTenant (tenant : Str) (s₁ : Shared τ) : OfTenant tenant (SameTenant tenant s₁) :=
  fun _ _ h hs => hs.trans h

/-- **Taking the lock** succeeds where the upload repairs. -/
theorem crash_lockTenant {ε : Type} {err : DbError → ε}
    (hs : Alive v f (fun s => s.db.txs v = some []) s) :
    Sat (crashThread u hashtext t v) (fun r s => match r with
      | .ok _ => Alive v f (Locked u hashtext v [] fun _ => True) s
      | .error _ => v ≠ t) (lockTenant err (u v).tenant).run s := by
  have hset : ∀ setting s, Alive v f (fun s => s.db.txs v = some []) s →
      Sat (crashThread u hashtext t v) (fun r s => match r with
        | .ok _ => Alive v f (fun s => s.db.txs v = some []) s
        | .error _ => v ≠ t) (query err (.setLocal setting)).run s := by
    intro setting s hs
    refine crash_query begun_kept hs fun s₁ r s₂ hf htx he => ⟨ownStep_noCommit (by simp) he, ?_⟩
    rcases r with e | a
    · exact crash_error he
    · refine crash_answered (by simp) hf he fun hx => ?_
      rw [Db.exec_setLocal hx]
      exact htx
  refine Sat.bindE ((hset _ s hs).mono fun r s₁ hr => ?_)
  rcases r with e | _
  · exact hr
  refine Sat.bindE ((hset _ s₁ hr).mono fun r s₂ hr => ?_)
  rcases r with e | _
  · exact hr
  refine crash_query begun_kept hr fun s₃ r s₄ hf htx he => ⟨ownStep_noCommit (by simp) he, ?_⟩
  rcases r with e | a
  · exact crash_error he
  · refine crash_answered (by simp) hf he fun hx => ?_
    obtain ⟨-, -, hdb⟩ | ⟨⟨e, he⟩, -⟩ := Db.exec_lockTenant hx
    · rw [hdb]
      exact ⟨htx, Function.update_self .., trivial⟩
    · cases he

/-! ## The pointer -/

/-- A change of the upload's own pointer, under the lock. -/
theorem crash_pointerStep (hf : s.found v = f) (hs : Locked u hashtext v writes P s.shared)
    {path : PathBuf} (hp : pointerPath (u v).tenant (u v).func = some path) {c : FsCall}
    {r : FsRes c} (he : (crashThread u hashtext t v).exec s (.inl c) r s')
    (htemps : s'.shared.files.temps = s.shared.files.temps)
    (hget : ∀ p, p ≠ path → s.shared.files.temps p ≠ some v →
      s'.shared.files.tree.get p = s.shared.files.tree.get p) {G : Shared τ → Prop}
    (hG : s'.shared.db = s.shared.db → G s'.shared) :
    OwnStep u hashtext v s s' ∧ Alive v f (Locked u hashtext v writes G) s' := by
  obtain ⟨-, -, hfound, ch, hx⟩ := crash_step he
  obtain ⟨-, hdb⟩ := uploadExec_file hx
  refine ⟨ownStep_file he (fun w p hw ht => ⟨by rw [htemps]; exact ht, fun b m hb => ?_⟩)
    fun tenant func hne q hq b m => ?_, by rw [hfound, ← hf]; rfl, fun _ => ⟨?_, ?_, hG hdb⟩⟩
  · rwa [hget p (fun heq => pointerPath_not_temp hp (heq ▸ s.shared.files.temp_named p w ht))
      (by simp [ht, hw])] at hb
  · rw [hget q (fun heq => hne ⟨hs.lock, pointerPath_inj hp (heq ▸ hq)⟩)
      fun ht => pointerPath_not_temp hq (s.shared.files.temp_named _ _ ht)]
  · rw [hdb]
    exact hs.tx
  · rw [hdb]
    exact hs.lock

/-- **`activate`** under the lock. -/
theorem crash_activate {staged : Staged} {G : Shared τ → Prop} (hP : OfTenant (u v).tenant P)
    (hG : ∀ s s', P s → s'.db = s.db →
      PointerIs s'.files (u v).tenant (u v).func (some staged.digest) → G s')
    (hs : Alive v f (Locked u hashtext v writes P) s) :
    Sat (crashThread u hashtext t v).inl (fun r s => match r with
      | .ok _ => Alive v f (Locked u hashtext v writes G) s
      | .error _ => Alive v f (Locked u hashtext v writes P) s)
      (activate (u v).tenant (u v).func staged).run s := by
  refine ((alive_actor (locked_kept hP)).sat_activate
    (S := Alive v f (Locked u hashtext v writes G)) hs fun hp hd hs h => ?_).mono fun r s hr => ?_
  · obtain ⟨hput, hget⟩ := renamed_get h.view_eq h.mine (pointerPath_not_temp hp) h.notDir
    have hs := And.intro hs.1 (hs.2 (crash_step (u := u) h.exec).1)
    refine crash_pointerStep hs.1 hs.2 hp h.exec ?_ hget fun hdb => ?_
    · have := h.view_eq
      rw [this]
      rfl
    · refine hG _ _ hs.2.here hdb ⟨hd, _, staged.digest, _, hp, ?_, hput⟩
      exact trim_digest hd
  · cases r with
    | ok _ => exact hr
    | error _ => exact hr.1

/-- The files' calls of the upload that repairs succeed. -/
theorem crash_files {α : Type} {Q : α → CrashState τ → Prop} {S : α → Prop} {p : FsM α}
    {s₁ : Shared τ} (hv : v = t) (hf : s.found v = some s₁) (hp : p.Answers fileSucceeds S)
    (h : Sat (crashThread u hashtext t v).inl Q p s) :
    Sat (crashThread u hashtext t v).inl (fun a s => Q a s ∧ S a) p s := by
  subst hv
  refine Sat.answers (fun s => s.found v = some s₁) ?_ ?_ hp hf h
  · intro c s s' hf hr
    exact hr.found.trans hf
  · intro s c r s' hf he
    obtain ⟨-, -, hfound, -⟩ := crash_step (u := u) he
    refine ⟨?_, by rw [hfound, ← hf]; rfl⟩
    have hok := he.2
    simp only [ownSucceeds, bne_self_eq_false, hf, Option.isNone_some, Bool.and_false,
      Bool.false_or] at hok
    exact hok

/-- The removal of the pointer, under the lock. -/
theorem crash_deactivate (hs : Alive v f (Locked u hashtext v writes fun _ => True) s) :
    Sat (crashThread u hashtext t v).inl
      (fun _ => Alive v f (Locked u hashtext v writes fun _ => True))
      (deactivate (u v).tenant (u v).func).run s := by
  unfold deactivate removePointer
  split
  · exact hs
  cases hp : pointerPath (u v).tenant (u v).func with
  | none => exact Sat.mapErr hs
  | some path =>
    refine Sat.mapErr (Sat.bind (Sat.perform _
      (alive_stable (locked_kept (true_ofTenant _)) _) hs fun s₁ r s₂ hs₁ he => ?_))
    obtain ⟨hc, -, -, ch, hx⟩ := crash_step (u := u) he
    obtain ⟨hx, -⟩ := uploadExec_file hx
    have hstep : OwnStep u hashtext v s₁ s₂ ∧
        Alive v f (Locked u hashtext v writes fun _ => True) s₂ := by
      obtain ⟨b, m, -, hb, hv⟩ | ⟨e, -, hv, -⟩ := exec_removeFile hx
      · refine crash_pointerStep hs₁.1 (hs₁.2 hc) hp he (by rw [hv]; rfl) (fun p hpp _ => ?_)
          fun _ => trivial
        rw [hv]
        exact DirTree.get_del_ne _ hpp
      · exact alive_fileStep (locked_kept (true_ofTenant _)) hs₁ he (by rw [hv]; exact .refl ..)
    refine ⟨hstep.1, ?_⟩
    rcases r with (_ | _) | _ <;> exact hstep.2

/-! ## The section inside the transaction -/

/-- The tenant's row is there, and the pointer holds the digest that the transaction has written. -/
def Written (upload : Upload W) (id : Nat) (digest : Str) (s : Shared τ) : Prop :=
  s.db.tenantIds upload.tenant = some id ∧
    PointerIs s.files upload.tenant upload.func (some digest)

omit [DecidableEq τ] in
theorem written_ofTenant (upload : Upload W) (id : Nat) (digest : Str) :
    OfTenant (τ := τ) upload.tenant (Written upload id digest) := by
  intro s s' h hw
  refine ⟨?_, hw.2.congr (h.pointer _)⟩
  rw [h.tenantIds]
  exact hw.1

omit [DecidableEq τ] in
/-- The count of a tenant's other rows is read off its committed rows. -/
theorem countOthers_congr {rows rows' : Functions} {id : Nat} (func : Str)
    (h : ∀ func, rows'.hash id func = rows.hash id func) :
    rows'.countOthers id func = rows.countOthers id func := by
  have hmem : ∀ {rows rows' : Functions}, (∀ func, rows'.hash id func = rows.hash id func) →
      ∀ k ∈ rows'.keys, k.1 = id → k ∈ rows.keys := by
    intro rows rows' h k hk hid
    obtain ⟨i, name⟩ := k
    obtain rfl : i = id := hid
    rw [← AList.mem_keys, ← AList.lookup_isSome] at hk ⊢
    have := h name
    unfold Functions.hash at this
    rwa [← this]
  refine Nat.le_antisymm
    (Functions.countOthers_mono _ _ _ _ fun k hk hid => .inl (hmem h k hk hid))
    (Functions.countOthers_mono _ _ _ _ fun k hk hid => .inl (hmem (fun f => (h f).symm) k hk hid))

/-- **Looking the tenant up** records the state, and answers with the row of that state. -/
theorem crash_tenantRow {row : Option Nat}
    (hl : Locked u hashtext v [] (fun _ => True) s.shared)
    (he : (crashThread u hashtext t v).exec s (.inr (.tenantId (u v).tenant)) (.ok row) s') :
    row = s.shared.db.tenantIds (u v).tenant ∧ Alive v (some s.shared)
      (Locked u hashtext v [] (SameTenant (u v).tenant s.shared)) s' := by
  obtain ⟨-, -, hfound, ch, hx⟩ := crash_step (u := u) he
  obtain ⟨hx, hfiles⟩ := uploadExec_db hx
  obtain ⟨hdb, hrow⟩ := Db.exec_tenantId hx
  have hsame : s'.shared = s.shared := by
    cases h' : s'.shared
    cases h : s.shared
    simp_all
  refine ⟨?_, by rw [hfound]; exact Function.update_self .., fun _ => ?_⟩
  · obtain h | ⟨e, h⟩ := hrow
    · exact Except.ok.inj h
    · cases h
  · rw [hsame]
    exact ⟨hl.tx, hl.lock, .refl ..⟩

/-- **Counting the tenant's other rows**: under the lock they are those of the recorded state. -/
theorem crash_countOthers {s₁ : Shared τ} {id : Nat} {func : Str} {n : Int}
    (hid : s₁.db.tenantIds (u v).tenant = some id)
    (hl : Locked u hashtext v [] (SameTenant (u v).tenant s₁) s.shared)
    (he : (crashThread u hashtext t v).exec s (.inr (.countOthers id func)) (.ok n) s') :
    n = (s₁.db.functions.countOthers id func : Int) := by
  obtain ⟨-, -, -, ch, hx⟩ := crash_step (u := u) he
  obtain ⟨-, ⟨writes, hw, hn⟩ | ⟨e, hn⟩⟩ := Db.exec_countOthers (uploadExec_db hx).1
  · rw [hl.tx, Option.some.injEq] at hw
    subst hw
    have hcount : s.shared.db.functions.countOthers id func =
        s₁.db.functions.countOthers id func := by
      refine countOthers_congr _ fun func => ?_
      have hc := hl.here.row func
      rwa [Db.committed, Db.committed, hl.here.tenantIds, hid, Option.bind_some,
        Option.bind_some] at hc
    rw [← hcount]
    exact Except.ok.inj hn
  · cases hn

/-- **Writing the row** adds it to the transaction's writes. -/
theorem crash_upsertRow {s₁ : Shared τ} {row : FunctionRow} {a : DbOk (.upsert row)}
    (hf : s.found v = f) (hl : Locked u hashtext v [] (SameTenant (u v).tenant s₁) s.shared)
    (he : (crashThread u hashtext t v).exec s (.inr (.upsert row)) (.ok a) s') :
    Alive v f (Locked u hashtext v [row] (SameTenant (u v).tenant s₁)) s' := by
  refine crash_answered (by simp) hf he fun hx => ?_
  have hlock := Db.exec_locks hx (by simp) (by simp) hl.lock
  obtain ⟨writes, hw, -, hdb⟩ | ⟨⟨e, h⟩, -⟩ := Db.exec_upsert hx
  · rw [hl.tx, Option.some.injEq] at hw
    subst hw
    refine ⟨?_, hlock, ?_⟩
    · rw [hdb]
      exact Function.update_self ..
    · rw [hdb]
      exact ⟨hl.here.tenantIds, hl.here.row, hl.here.pointer⟩
  · cases h

/-- **The section inside the transaction**: the upload that repairs gets through it exactly if it is
admitted, and then its pointer is written; else rows and pointers stay. -/
theorem crash_publishSection {digest : Str} {path : PathBuf}
    (hp : pointerPath (u v).tenant (u v).func = some path) (hd : isValidDigest digest = true)
    (hs : Alive v f (fun s => s.db.txs v = some []) s) :
    Sat (crashThread u hashtext t v) (fun r s => match r with
      | .ok _ => ∃ s₁ id, Admitted (u v) s₁.db ∧ Alive v (some s₁)
          (Locked u hashtext v [⟨id, (u v).func, digest⟩] (Written (u v) id digest)) s
      | .error _ => v ≠ t ∨ ∃ s₁, ¬ Admitted (u v) s₁.db ∧ Alive v (some s₁)
          (Locked u hashtext v [] (SameTenant (u v).tenant s₁)) s)
      (publishSection (u v).maxFunctions (u v).tenant (u v).func ⟨digest⟩).run s := by
  refine Sat.bindE ((crash_lockTenant hs).mono fun r s₁ hr => ?_)
  rcases r with e | _
  · exact .inl hr
  -- the tenant's row, in the state that is recorded
  refine Sat.bindE (crash_query (locked_kept (true_ofTenant _)) hr fun s₂ r s₃ _ hl he =>
    ⟨ownStep_noCommit (by simp) he, ?_⟩)
  rcases r with e | (row : Option Nat)
  · exact .inl (crash_error he)
  obtain ⟨hrow, hs₃⟩ := crash_tenantRow hl he
  cases row with
  | none =>
    refine .inr ⟨s₂.shared, ?_, hs₃⟩
    rintro ⟨id, hid, -⟩
    cases hrow.trans hid
  | some id =>
  -- the other rows
  refine Sat.bindE (crash_query (locked_kept (same_ofTenant _ _)) hs₃ fun s₄ r s₅ hf hl he =>
    ⟨ownStep_noCommit (by simp) he, ?_⟩)
  rcases r with e | (n : Int)
  · exact .inl (crash_error he)
  have hn := crash_countOthers hrow.symm hl he
  have hs₅ : Alive v (some s₂.shared)
      (Locked u hashtext v [] (SameTenant (u v).tenant s₂.shared)) s₅ := by
    refine crash_answered (by simp) hf he fun hx => ?_
    rw [(Db.exec_countOthers hx).1]
    exact hl
  show Sat _ _ (ExceptT.run (if (u v).maxFunctions ≤ n then _ else _)) s₅
  split
  · rename_i hle
    refine .inr ⟨s₂.shared, ?_, hs₅⟩
    rintro ⟨id', hid, hroom⟩
    obtain rfl : id = id' := Option.some.inj (hrow.trans hid)
    omega
  rename_i hroom
  have hadm : Admitted (u v) s₂.shared.db := ⟨id, hrow.symm, by omega⟩
  -- the row
  refine Sat.bindE (crash_query (locked_kept (same_ofTenant _ _)) hs₅ fun s₆ r s₇ hf hl he =>
    ⟨ownStep_noCommit (by simp) he, ?_⟩)
  rcases r with e | _
  · exact .inl (crash_error he)
  have hs₇ := crash_upsertRow hf hl he
  -- the pointer
  have hpub : Sat (crashThread u hashtext t v).inl (fun r s => match r with
      | .ok _ => Alive v (some s₂.shared)
          (Locked u hashtext v [⟨id, (u v).func, digest⟩] (Written (u v) id digest)) s
      | .error _ => Alive v (some s₂.shared) (Locked u hashtext v [⟨id, (u v).func, digest⟩]
          (SameTenant (u v).tenant s₂.shared)) s)
      (activate (u v).tenant (u v).func ⟨digest⟩).run s₇ := by
    refine crash_activate (same_ofTenant _ _) (fun s s' h hdb hptr => ⟨?_, hptr⟩) hs₇
    rw [hdb, h.tenantIds]
    exact hrow.symm
  refine Sat.mapErr (Sat.of_inl ?_)
  by_cases hv : v = t
  · refine (crash_files hv hs₇.1 (activate_answers hp hd) hpub).mono fun r s₈ hr => ?_
    obtain ⟨hr, a, rfl⟩ := hr
    exact ⟨s₂.shared, id, hadm, hr⟩
  · refine hpub.mono fun r s₈ hr => ?_
    cases r with
    | ok _ => exact ⟨s₂.shared, id, hadm, hr⟩
    | error _ => exact .inl hv

/-! ## The end of a transaction -/

/-- What is said of upload `v` when it is over. -/
def Outcome (u : τ → Upload W) (t v : τ) (s : CrashState τ) : Prop :=
  v = t → ∀ s₁, s.found v = some s₁ →
    (Agree s.shared (u v).tenant (u v).func ↔
      Admitted (u v) s₁.db ∨ Agree s₁ (u v).tenant (u v).func)

/-- An upload that does not commit only drops its transaction. -/
theorem crash_dropTx {α : Type} {Q : α → CrashState τ → Prop} {a : α}
    (hs : v ≠ t ∨ ∃ s₁, ¬ Admitted (u v) s₁.db ∧ Alive v (some s₁)
      (Locked u hashtext v [] (SameTenant (u v).tenant s₁)) s)
    (hQ : ∀ s, Outcome u t v s → Q a s) :
    Sat (crashThread u hashtext t v) (fun _ => Q a) dropTx s := by
  obtain hv | ⟨s₁, hadm, hs⟩ := hs
  · refine Sat.bind (Sat.perform (fun _ => True) (fun _ _ _ _ => trivial) trivial
      fun s₂ r s₃ _ he => ⟨ownStep_noCommit (c := .rollback) (by simp) he, hQ _ ?_⟩)
    exact fun h => absurd h hv
  · refine Sat.bind (Sat.perform _ (alive_stable (locked_kept (same_ofTenant _ _)) _) hs
      fun s₂ r s₃ hs₂ he => ⟨ownStep_noCommit (c := .rollback) (by simp) he, hQ _ ?_⟩)
    obtain ⟨hc, -, hfound, ch, hx⟩ := crash_step (u := u) he
    obtain ⟨hx, hfiles⟩ := uploadExec_db hx
    have hl := hs₂.2 hc
    intro _ s₁' hs₁'
    rw [hfound, recordLookup_other (by simp), hs₂.1, Option.some.injEq] at hs₁'
    subst hs₁'
    rw [or_iff_right hadm]
    refine agree_congr ?_ ?_
    · rw [Db.exec_rollback hx]
      exact hl.here.row _
    · rw [hfiles]
      exact hl.here.pointer _

/-- A commit under the lock, of nothing or of the upload's own row. -/
theorem ownStep_commit {r : DbRes .commit} {s' : CrashState τ}
    (hs : Locked u hashtext v writes P s.shared)
    (hown : ∀ row ∈ writes, s.shared.db.tenantIds (u v).tenant = some row.tenantId ∧
      writes = [row] ∧ row.name = (u v).func)
    (he : (crashThread u hashtext t v).exec s (.inr .commit) r s') : OwnStep u hashtext v s s' := by
  refine ownStep_statement he fun tenant func hne => ?_
  obtain ⟨-, -, -, ch, hx⟩ := crash_step (u := u) he
  obtain ⟨ws, hw, ⟨-, hdb⟩ | ⟨-, -, hdb⟩⟩ := Db.exec_commit (uploadExec_db hx).1
  swap
  · rw [hdb, Db.committed_endTx]
  rw [hs.tx, Option.some.injEq] at hw
  subst hw
  rw [hdb]
  cases writes with
  | nil => exact Db.committed_endTx ..
  | cons row rest =>
    obtain ⟨hid, hone, hname⟩ := hown row (.head _)
    rw [hone]
    refine (Db.committed_commit s.shared.db v hid row.name row.wasmHash tenant func).trans ?_
    rw [if_neg fun h => hne ⟨hs.lock, h.1, hname ▸ h.2⟩]

/-- **The commit of a publish**. -/
theorem crash_commit {s₁ : Shared τ} {id : Nat} {digest : Str} (hadm : Admitted (u v) s₁.db)
    (hs : Alive v (some s₁)
      (Locked u hashtext v [⟨id, (u v).func, digest⟩] (Written (u v) id digest)) s) :
    Sat (crashThread u hashtext t v) (fun (r : DbRes .commit) s => match r with
      | .ok _ => Outcome u t v s
      | .error _ => v ≠ t) (onDb .commit) s := by
  refine Sat.perform _ (alive_stable (locked_kept (written_ofTenant _ _ _)) _) hs fun s₂ r s₃ hs₂ he => ?_
  obtain ⟨hc, -, hfound, ch, hx⟩ := crash_step (u := u) he
  obtain ⟨hx, hfiles⟩ := uploadExec_db hx
  have hl := hs₂.2 hc
  refine ⟨ownStep_commit hl (fun row hrow => ?_) he, ?_⟩
  · obtain rfl := List.mem_singleton.1 hrow
    exact ⟨hl.here.1, rfl, rfl⟩
  rcases r with e | _
  · exact crash_error he
  obtain ⟨writes, hw, ⟨-, hdb⟩ | ⟨⟨e, h⟩, -⟩⟩ := Db.exec_commit hx
  swap
  · cases h
  rw [hl.tx, Option.some.injEq] at hw
  subst hw
  intro _ s₁' hs₁'
  rw [hfound, recordLookup_other (by simp), hs₂.1, Option.some.injEq] at hs₁'
  subst hs₁'
  refine iff_of_true ?_ (.inl hadm)
  rw [Agree, hdb, Db.committed_commit s₂.shared.db v hl.here.1, if_pos ⟨rfl, rfl⟩, hfiles]
  exact hl.here.2

/-- The reconcile of another upload, whatever fails in it. -/
theorem crash_reconcile (hv : v ≠ t) (hs : Alive v f (fun _ => True) s) :
    Sat (crashThread u hashtext t v) (fun _ _ => True)
      (reconcilePointer (u v).tenant (u v).func) s := by
  have hdrop : ∀ s, Sat (crashThread u hashtext t v) (fun _ _ => True) dropTx s :=
    fun s => crash_dropTx (Q := fun (_ : Unit) _ => True) (a := ()) (.inl hv) fun _ _ => trivial
  have htrue := true_ofTenant (τ := τ) (u v).tenant
  refine Sat.bind (Sat.mono (Q := fun _ _ => True) ?_ fun _ _ _ => trivial)
  refine Sat.bindE (crash_query (fun _ _ _ _ => trivial) hs fun s₁ r s₂ hf _ he =>
    ⟨ownStep_noCommit (by simp) he, ?_⟩)
  rcases r with e | _
  · trivial
  have hs₂ : Alive v f (fun s => s.db.txs v = some []) s₂ := by
    refine crash_answered (by simp) hf he fun hx => ?_
    obtain ⟨-, hdb⟩ | ⟨⟨e, h⟩, -⟩ := Db.exec_beginTx hx
    · rw [hdb]
      exact Function.update_self ..
    · cases h
  have hcommit : ∀ s, Alive v f (Locked u hashtext v [] fun _ => True) s →
      Sat (crashThread u hashtext t v) (fun _ _ => True)
        (query ReconcileError.db .commit).run s := by
    intro s hs
    refine crash_query (locked_kept htrue) hs fun s₁ r s₂ _ hl he =>
      ⟨ownStep_commit hl (fun row hrow => ?_) he, trivial⟩
    cases hrow
  refine Sat.bindE (Sat.onError (Sat.mono (Q := fun r s => match r with
    | .ok _ => Alive v f (Locked u hashtext v [] fun _ => True) s
    | .error _ => True) ?_ fun r s hr => ?_))
  swap
  · cases r with
    | ok _ => exact hcommit s hr
    | error _ => exact (hdrop s).mono fun _ _ _ => trivial
  refine Sat.bindE ((crash_lockTenant hs₂).mono fun r s₃ hr => ?_)
  rcases r with e | _
  · trivial
  refine Sat.bindE (crash_query (locked_kept htrue) hr fun s₄ r s₅ hf hl he =>
    ⟨ownStep_noCommit (by simp) he, ?_⟩)
  rcases r with e | (hash : Option Str)
  · trivial
  have hs₅ : Alive v f (Locked u hashtext v [] fun _ => True) s₅ := by
    refine crash_answered (by simp) hf he fun hx => ?_
    rw [(Db.exec_functionHash hx).1]
    exact hl
  cases hash with
  | none =>
    refine Sat.mapErr (Sat.of_inl ((crash_deactivate hs₅).mono fun r s hr => ?_))
    cases r with
    | ok _ => exact hr
    | error _ => trivial
  | some digest =>
    refine Sat.mapErr (Sat.of_inl ?_)
    unfold activateDigest
    split
    · trivial
    split
    · trivial
    refine Sat.liftE ((((alive_actor (locked_kept htrue)).sat_reading ?_ hs₅)).mono
      fun found s hs => ?_)
    · unfold wasmExists
      split
      · exact .bind (.perform rfl) fun r => by cases r <;> trivial
      · trivial
    cases found with
    | false => trivial
    | true =>
      refine (crash_activate htrue (fun _ _ _ _ _ => trivial) hs).mono fun r s hr => ?_
      cases r with
      | ok _ => exact hr
      | error _ => trivial

/-! ## Uploading -/

/-- **`publish_in_db`**. -/
theorem crash_publishInDb {digest : Str} {path : PathBuf}
    (hp : pointerPath (u v).tenant (u v).func = some path) (hd : isValidDigest digest = true)
    (hs : Alive v none (fun _ => True) s) :
    Sat (crashThread u hashtext t v) (fun _ => Outcome u t v)
      (publishInDb (u v).maxFunctions (u v).tenant (u v).func ⟨digest⟩).run s := by
  have hother : ∀ {s}, v ≠ t → Outcome u t v s := fun hv h => absurd h hv
  refine Sat.bindE (crash_query (fun _ _ _ _ => trivial) hs fun s₁ r s₂ hf _ he =>
    ⟨ownStep_noCommit (by simp) he, ?_⟩)
  rcases r with e | _
  · exact hother (crash_error he)
  have hs₂ : Alive v none (fun s => s.db.txs v = some []) s₂ := by
    refine crash_answered (by simp) hf he fun hx => ?_
    obtain ⟨-, hdb⟩ | ⟨⟨e, h⟩, -⟩ := Db.exec_beginTx hx
    · rw [hdb]
      exact Function.update_self ..
    · cases h
  refine Sat.bindE (Sat.onError ((crash_publishSection hp hd hs₂).mono fun r s₃ hr => ?_))
  rcases r with e | _
  · exact crash_dropTx (Q := fun _ => Outcome u t v) (a := e) hr fun _ h => h
  obtain ⟨s₁, id, hadm, hs₃⟩ := hr
  refine Sat.liftE ((crash_commit hadm hs₃).mono fun r s₄ hr => ?_)
  rcases r with e | _
  · have hs₄ : Alive v (s₄.found v) (fun _ => True) s₄ := ⟨rfl, fun _ => trivial⟩
    exact Sat.liftE ((crash_reconcile hr hs₄).mono fun _ _ _ => hother hr)
  · exact hr

theorem crash_upload (hs : Alive v none (fun _ => True) s) :
    Sat (crashThread u hashtext t v) (fun _ => Outcome u t v)
      (upload W (u v).engine (u v).maxFunctions (u v).tenant (u v).func (u v).wasm).run s := by
  have hnone : ∀ {s}, Alive v none (fun _ => True) s → Outcome u t v s := by
    intro s hs _ s₁ hs₁
    cases hs.1.symm.trans hs₁
  unfold upload
  split
  · exact hnone hs
  rename_i hname
  simp only [Bool.or_eq_true, Bool.not_eq_true', not_or, Bool.not_eq_false] at hname
  have hp := pointerPath_eq_some.2 ⟨hname.1, hname.2, rfl⟩
  refine Sat.bindE (Sat.mapErr (Sat.of_inl ((crash_stage (fun _ _ _ _ => trivial) hs).mono
    fun r s₁ hr => ?_)))
  rcases r with e | staged
  · exact hnone hr.1
  obtain ⟨hs₁, hdigest⟩ := hr
  have hd : isValidDigest staged.digest = true := by
    rw [hdigest staged rfl]
    exact W.digest_valid _
  refine Sat.bindE ((crash_publishInDb hp hd hs₁).mono fun r s₂ hr => ?_)
  cases r with
  | error e => exact hr
  | ok _ => exact hr

/-! ## All uploads together -/

omit [DecidableEq τ] in
/-- What an upload's own step is for the others. -/
theorem OwnStep.rely {pend : Option UploadCall} (h : OwnStep u hashtext v s s') {w : τ}
    (hw : w ≠ v)
    (hended : w = t → pend = none → ¬ ((u v).tenant = (u w).tenant ∧ (u v).func = (u w).func)) :
    CrashRely u hashtext t w pend s s' := by
  refine ⟨fun hc => ⟨by rwa [h.crashed] at hc, h.txs w hw, fun k => h.locks w k hw, fun hl => ?_⟩,
    h.found w hw, fun p => h.temps w p hw, fun ht hp => ?_⟩
  · -- two holders of one lock
    have hfree : ∀ func, ¬ (s.shared.db.locks (hashtext (u v).tenant) = some v ∧
        (u v).tenant = (u w).tenant ∧ (u v).func = func) := by
      intro func hheld
      rw [hheld.2.1, hl, Option.some.injEq] at hheld
      exact hw hheld.1
    exact ⟨h.tenantIds, fun func => (h.names _ func (hfree func)).1,
      fun func => (h.names _ func (hfree func)).2⟩
  · exact h.names _ _ fun hheld => hended ht hp hheld.2

/-- A crash changes no row and no pointer. -/
theorem crash_rely (s : CrashState τ) (w : τ) (pend : Option UploadCall) :
    CrashRely u hashtext t v pend s (s.crash w) := by
  refine ⟨fun hc => ?_, rfl, fun p hp => ⟨hp, fun _ _ => id⟩,
    fun _ _ => ⟨rfl, fun _ _ _ _ => .rfl⟩⟩
  have hne : v ≠ w := by
    rintro rfl
    simp [CrashState.crash] at hc
  refine ⟨by simpa [CrashState.crash, hne] using hc, Function.update_of_ne hne _ _,
    fun k hk => ?_, fun _ => ⟨rfl, fun _ => rfl, fun _ _ _ _ _ => .rfl⟩⟩
  show (if s.shared.db.locks k = some w then none else _) = _
  rw [hk, if_neg]
  rintro heq
  exact hne (Option.some.inj heq)

theorem crash_compatible (u : τ → Upload W) (hashtext : Str → Int) (t : τ) :
    Compatible ((haltSystem hashtext).restrict fun pend me s c r => repairs u t pend me s c r = true)
      (crashThread u hashtext t) fun _ => True where
  exec := fun _ _ _ _ _ _ _ _ ⟨he, hok⟩ => ⟨he, (Bool.and_eq_true_iff.1 hok).1⟩
  guar := by
    intro pend v w s c r s' hne _ _ he hg
    refine OwnStep.rely hg hne.symm fun ht hp hname => ?_
    have hok := (Bool.and_eq_true_iff.1 he.2).2
    subst ht
    simp [hp, hname, hne] at hok
  env := by
    rintro pend v s s' - ⟨w, rfl⟩
    exact crash_rely s w _
  inv := fun _ _ _ _ _ _ => trivial
  envInv := fun _ _ _ _ _ => trivial

theorem outcome_stable (c : Option UploadCall) (hc : c = none) :
    (crashThread u hashtext t v).Stable c (Outcome u t v) := by
  intro s s' hs hr hv s₁ hs₁
  rw [hr.found] at hs₁
  obtain ⟨hrow, hptr⟩ := hr.ended hv hc
  exact (agree_congr hrow hptr).trans (hs hv s₁ hs₁)

end

/-- The uploads from the shared state `s₀`, none of them crashed. -/
def crashStart {W : Wasm} {τ : Type} (u : τ → Upload W) (s₀ : Shared τ) :
    Config τ (CrashState τ) UploadCall UploadRes fun _ => Except HttpError Str :=
  ⟨⟨s₀, fun _ => false, fun _ => none⟩, uploadPrograms u⟩

/-- **The next upload repairs a crashed one exactly if it is admitted**, or finds pointer and row in
agreement: any number of uploads have crashed, failed or completed before and beside it. -/
theorem crash_repaired_iff {W : Wasm} {τ : Type} [DecidableEq τ] (u : τ → Upload W)
    (hashtext : Str → Int) (s₀ : Shared τ) (t : τ)
    {C : Config τ (CrashState τ) UploadCall UploadRes fun _ => Except HttpError Str}
    (hr : Reach ((haltSystem hashtext).restrict fun pend me s c r => repairs u t pend me s c r = true)
      (crashStart u s₀) C)
    {r : Except HttpError Str} (hret : C.prog t = .ret r) {s₁ : Shared τ}
    (hfound : C.shared.found t = some s₁) :
    Agree C.shared.shared (u t).tenant (u t).func ↔
      Admitted (u t) s₁.db ∨ Agree s₁ (u t).tenant (u t).func := by
  have hpost := hr.post (Q := fun v _ s => Outcome u t v s) (crash_compatible u hashtext t)
    (fun v _ => outcome_stable none rfl) trivial
    (fun v => crash_upload ⟨rfl, fun _ => trivial⟩) hret
  exact hpost rfl s₁ hfound

/-! ## A run -/

inductive Uploader
  | crashed
  | other
  | next
  deriving DecidableEq

/-- Two uploads of one name, and one of another name between them. -/
def crashUploads (maxFunctions : Int) : Uploader → Upload Wasm.plain
  | .crashed => ⟨(0 : Nat), maxFunctions, ['t'], ['f'], [.char 'a']⟩
  | .other => ⟨(0 : Nat), maxFunctions, ['t'], ['g'], [.char 'b']⟩
  | .next => ⟨(0 : Nat), maxFunctions, ['t'], ['f'], [.char 'c']⟩

/-- The first upload crashes before its commit, and the second completes; then the third runs. -/
def crashRun (last : List UploadChoice) : List ((Uploader × UploadChoice) ⊕ Uploader) :=
  (uploadSteps 'a' 'b' 'c').map (fun ch => .inl (.crashed, ch)) ++ [.inr .crashed] ++
    (uploadSteps 'x' 'y' 'z' ++ [uploadStep]).map (fun ch => .inl (.other, ch)) ++
    last.map fun ch => .inl (.next, ch)

abbrev CrashConfig := Config Uploader (CrashState Uploader) UploadCall UploadRes
  fun _ => Except HttpError Str

def crashBegin (maxFunctions : Int) : CrashConfig :=
  crashStart (crashUploads maxFunctions) ⟨.ofTree ⟨∅⟩, .ofFunctions ∅⟩

def crashPlay (maxFunctions : Int) (last : List UploadChoice) : Option CrashConfig :=
  (crashBegin maxFunctions).playEnv
    (checked (fun ch _ me => haltExec (fun _ => 0) me ch)
      (repairs (crashUploads maxFunctions) .next))
    (fun t _ s => some (s.crash t)) (crashRun last)

theorem crashPlay_reach {maxFunctions : Int} {last : List UploadChoice} {C : CrashConfig}
    (h : crashPlay maxFunctions last = some C) :
    Reach ((haltSystem fun _ => 0).restrict fun pend me s c r =>
      repairs (crashUploads maxFunctions) .next pend me s c r = true) (crashBegin maxFunctions) C := by
  refine playEnv_reach ?_ ?_ h
  · intro x pend t s c r s' hx
    simp only [checked, Option.filter_eq_some_iff] at hx
    exact ⟨⟨x, hx.1⟩, hx.2⟩
  · intro t pend s s' hs
    exact ⟨t, (Option.some.inj hs).symm⟩

/-- With room for two functions the third upload repairs the first. -/
theorem crash_repaired_iff_room : ∃ C s₁, crashPlay 2 (uploadSteps 'p' 'q' 'r' ++ [uploadStep]) =
    some C ∧ C.shared.found .next = some s₁ ∧
      (Agree C.shared.shared ['t'] ['f'] ↔
        Admitted (crashUploads 2 .next) s₁.db ∨ Agree s₁ ['t'] ['f']) := by
  have hrun : (crashPlay 2 (uploadSteps 'p' 'q' 'r' ++ [uploadStep])).any (fun C =>
      (C.prog .next).result.isSome && (C.shared.found .next).isSome) = true := by
    decide +kernel
  rw [Option.any_eq_true] at hrun
  obtain ⟨C, hplay, hC⟩ := hrun
  rw [Bool.and_eq_true, Option.isSome_iff_exists, Option.isSome_iff_exists] at hC
  obtain ⟨⟨r, hret⟩, s₁, hs₁⟩ := hC
  exact ⟨C, s₁, hplay, hs₁, crash_repaired_iff (crashUploads 2) (fun _ => 0) _ .next
    (crashPlay_reach hplay) (Prog.result_eq_some.1 hret) hs₁⟩

/-- With room for one it is refused, and the pointer of the crashed upload stays. -/
def leftApart (C : CrashConfig) : Bool :=
  (C.prog .next).result == some (.error (403, "tenant function quota exceeded (1 max)")) &&
    C.shared.crashed .crashed && (C.shared.found .next).isSome &&
    (C.shared.shared.db.committed ['t'] ['f']).isNone &&
    ((pointerPath ['t'] ['f']).bind C.shared.shared.files.tree.get).any Node.isFile

theorem crash_not_repaired :
    ¬ ∀ (u : Uploader → Upload Wasm.plain) (hashtext : Str → Int) (s₀ : Shared Uploader),
      (∀ tenant func, Agree s₀ tenant func) → ∀ (t : Uploader) (C : CrashConfig),
      Reach ((haltSystem hashtext).restrict fun pend me s c r => repairs u t pend me s c r = true)
        (crashStart u s₀) C →
      (∃ v, v ≠ t ∧ (u v).tenant = (u t).tenant ∧ (u v).func = (u t).func ∧
        C.shared.crashed v = true) →
      ∀ r, C.prog t = .ret r → C.shared.found t ≠ none →
        Agree C.shared.shared (u t).tenant (u t).func := by
  intro h
  have hrun : (crashPlay 1 (uploadStep :: writeSteps 'p' ++ uploadStep :: writeSteps 'q' ++
      List.replicate 7 uploadStep)).any leftApart = true := by
    decide +kernel
  rw [Option.any_eq_true] at hrun
  obtain ⟨C, hplay, hC⟩ := hrun
  simp only [leftApart, Bool.and_eq_true, beq_iff_eq, Option.isNone_iff_eq_none] at hC
  obtain ⟨⟨⟨⟨hret, hcrashed⟩, hfound⟩, hrow⟩, hfile⟩ := hC
  have hagree := h (crashUploads 1) (fun _ => 0) _ empty_agree .next C
    (crashPlay_reach hplay) ⟨.crashed, by decide, rfl, rfl, hcrashed⟩ _
    (Prog.result_eq_some.1 hret) (Option.isSome_iff_ne_none.1 hfound)
  rw [Option.any_eq_true] at hfile
  obtain ⟨node, hnode, hisFile⟩ := hfile
  obtain ⟨path, hp, hget⟩ := Option.bind_eq_some_iff.1 hnode
  cases node with
  | dir => cases hisFile
  | file b m =>
    have hnone : PointerIs C.shared.shared.files ['t'] ['f'] none := hrow ▸ hagree
    exact hnone path hp b m hget

end Warpline
