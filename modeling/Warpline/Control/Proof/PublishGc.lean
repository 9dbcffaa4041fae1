import Warpline.Control.Proof.PublishSteps
import Warpline.Core.Proof.ReactivateGc

/-!
# A failed publish under a concurrent garbage collection

One `publish_in_db` whose commit fails and rolls back, with its reconcile, against one `gc` run
from another process. Between the pointer write and the reconcile only the database names the
committed digest, and `gc` does not consult it.

`committed_survives_gc`: in the end the pointer is the committed digest again and its blob is
there, provided `gc` never finds that blob old and does not sweep the temporary file the reconcile
writes the pointer through. `committed_lost_to_gc` is a run where it finds the blob old.
-/

set_option autoImplicit false

namespace Warpline

open Conc Fs

/-- The publisher's commit is rolled back, and nothing fails in its reconcile. -/
def rolledBack : Party → UploadState Party → UploadCall → UploadChoice → Bool
  | .gc, _, _, _ => true
  | .publisher, s, c, ch =>
    if (s.trace.of .publisher).any failedCommit then !ch.statement.fail && !ch.file.fault
    else match c with
      | .inr .commit => ch.statement.fail && !ch.statement.tookEffect
      | _ => true

def failedPublishExec (hashtext : Str → Int) (ch : UploadChoice) (_ : Party → Option UploadCall)
    (me : Party) (s : UploadState Party) (c : UploadCall) :
    Option (UploadRes c × UploadState Party) :=
  if rolledBack me s c ch then
    (uploadExec hashtext me ch s.state c).map fun q => (q.1, ⟨q.2, (me, ⟨c, q.1⟩) :: s.trace⟩)
  else none

def failedPublish (hashtext : Str → Int) :
    System Party (UploadState Party) UploadCall UploadRes :=
  .closed fun me s c r s' => ∃ ch, failedPublishExec hashtext ch (fun _ => none) me s c = some (r, s')

/-- `gc` does not find the committed blob old, nor remove the temporary file of a reconcile. -/
def committedSpared (digest : Str) (grace : Nat) (_ : Party → Option UploadCall) : Party →
    UploadState Party → (c : UploadCall) → UploadRes c → Bool
  | .gc, _, .inl (.metadata p), .ok m => p != wasmPath digest || decide (m.elapsed < grace)
  | .gc, s, .inl (.removeFile p), .ok _ =>
    !(s.trace.of .publisher).any failedCommit || s.state.files.temps p != some .publisher
  | _, _, _, _ => true

theorem failedPublishExec_spec {hashtext : Str → Int} {ch : UploadChoice}
    {pend : Party → Option UploadCall} {me : Party} {s s' : UploadState Party} {c : UploadCall}
    {r : UploadRes c} (h : failedPublishExec hashtext ch pend me s c = some (r, s')) :
    rolledBack me s c ch = true ∧ uploadExec hashtext me ch s.state c = some (r, s'.state) ∧
      s'.trace = (me, ⟨c, r⟩) :: s.trace := by
  unfold failedPublishExec at h
  split at h
  · rename_i ha
    obtain ⟨q, hx, heq⟩ := Option.map_eq_some_iff.1 h
    cases heq
    exact ⟨ha, hx, rfl⟩
  · cases h

/-! ## The two settings -/

section
variable (hashtext : Str → Int) (tenant func committed : Str) (grace : Nat)

/-- `gc` removes files only, but no pointer, not the committed blob, and no temporary file once the
commit has failed. -/
structure Sweep (s s' : UploadState Party) : Prop where
  db : s'.state.db = s.state.db
  calls : s'.trace.of .publisher = s.trace.of .publisher
  temps : s'.state.files.temps = s.state.files.temps
  files : ∀ q b m, s'.state.files.tree.get q = some (.file b m) →
    s.state.files.tree.get q = some (.file b m)
  dirs : ∀ q, s.state.files.tree.get q = some .dir → s'.state.files.tree.get q = some .dir
  blob : HasBlob committed s.state.files → HasBlob committed s'.state.files
  pointer : SamePointer tenant func s.state.files s'.state.files
  held : (s.trace.of .publisher).any failedCommit = true → ∀ p,
    s.state.files.temps p = some .publisher →
      s'.state.files.tree.get p = s.state.files.tree.get p

def failedPublishThread : Party → Thread (UploadState Party) UploadCall UploadRes
  | .gc =>
    { exec := fun s c r s' => (∃ ch, failedPublishExec hashtext ch (fun _ => none) .gc s c =
        some (r, s')) ∧ committedSpared committed grace (fun _ => none) .gc s c r = true
      rely := fun _ _ _ => True
      guar := fun _ => Sweep tenant func committed }
  | .publisher =>
    { exec := fun s c r s' => ∃ ch, failedPublishExec hashtext ch (fun _ => none) .publisher s c =
        some (r, s')
      rely := fun _ => Sweep tenant func committed
      guar := fun _ _ _ => True }

end

variable {hashtext : Str → Int} {tenant func committed : Str} {grace : Nat}
  {s s' : UploadState Party}

theorem sweep_same (htr : s'.trace.of .publisher = s.trace.of .publisher)
    (hs : s'.state = s.state) : Sweep tenant func committed s s' :=
  ⟨by rw [hs], htr, by rw [hs], by simp [hs], by simp [hs], by simp [hs],
    by rw [hs]; exact fun _ _ _ _ => .rfl, by simp [hs]⟩

theorem failedPublish_collector {W : Wasm} {engine : W.Engine} {referenced : List Str}
    {tenantDirs : List PathBuf} :
    Collector (fun s => s.state.files)
      (failedPublishThread hashtext tenant func committed grace .gc).inl .gc (fun _ => True) grace
      (GcTarget W engine referenced tenantDirs) (fun _ _ => True)
      (fun p _ => p ≠ wasmPath committed) (fun _ _ => True) where
  exec _ he := by
    obtain ⟨⟨ch, hx⟩, -⟩ := he
    exact ⟨ch.file, trivial, (uploadExec_file (failedPublishExec_spec hx).2.1).1⟩
  stable _ _ _ _ _ _ := trivial
  same {n c r s s'} _ _ he hv := by
    obtain ⟨⟨ch, hx⟩, -⟩ := he
    obtain ⟨-, hx, htr⟩ := failedPublishExec_spec hx
    refine ⟨sweep_same (by rw [htr, Trace.of_cons_ne (by decide)]) ?_, trivial⟩
    have hdb := (uploadExec_file hx).2
    cases h₂ : s'.state
    cases h₁ : s.state
    simp_all
  old {n s p m s'} _ _ he hm hp := by
    subst hp
    have hspared := he.2
    simp only [committedSpared, bne_self_eq_false, Bool.false_or, decide_eq_true_eq] at hspared
    omega
  oldStable _ _ _ h _ := h
  remove {n s p b m r s'} _ hold ht hp he hv := by
    obtain ⟨⟨ch, hx⟩, hspared⟩ := he
    obtain ⟨-, hx, htr⟩ := failedPublishExec_spec hx
    obtain ⟨hx, hdb⟩ := uploadExec_file hx
    have hne : p ≠ [] := by
      rintro rfl
      cases hp
    have hget : ∀ q, q ≠ p → s'.state.files.tree.get q = s.state.files.tree.get q := by
      intro q hq
      rw [hv]
      exact DirTree.get_del_ne _ hq
    have hgone : s'.state.files.tree.get p = none := by
      rw [hv]
      exact DirTree.get_del _ hne
    have hok : r = .ok () := by
      obtain ⟨_, _, rfl, -⟩ | ⟨e, rfl, hsame, -⟩ := exec_removeFile hx
      · rfl
      · rw [hsame, hp] at hgone
        cases hgone
    subst hok
    refine ⟨⟨hdb, by rw [htr, Trace.of_cons_ne (by decide)], by rw [hv]; rfl, fun q b' m' hb => ?_,
      fun q hq => ?_, ?_, fun q hq b' m' => ?_, fun hf q hq => hget q ?_⟩, trivial⟩
    · by_cases h : q = p
      · rw [h, hgone] at hb
        cases hb
      · rwa [hget q h] at hb
    · rw [hget q fun h => by rw [h, hp] at hq; cases hq]
      exact hq
    · rintro ⟨b', m', hb⟩
      exact ⟨b', m', (hget _ (Ne.symm hold)).trans hb⟩
    · rw [hget q fun h => ht.not_pointer tenant func (h ▸ hq)]
    · rintro rfl
      simp only [committedSpared, hf, Bool.not_true, Bool.false_or, bne_iff_ne] at hspared
      exact hspared hq
  handledStable _ _ _ _ _ _ := trivial
  handledKept _ := trivial
  absent _ _ := trivial
  young _ _ _ _ := trivial

/-! ## The publisher -/

/-- What the publisher knows: the pointer holds `digest`, and while `fresh` its transaction has
written nothing. -/
structure Held (tenant func committed : Str) (failed fresh : Bool) (digest : Str)
    (s : UploadState Party) : Prop where
  failed : (s.trace.of .publisher).any failedCommit = failed
  row : s.state.db.committed tenant func = some committed
  fresh : fresh = true → s.state.db.txs .publisher = some []
  blob : HasBlob committed s.state.files
  tenantsDir : s.state.files.tree.get Warpline.tenantsDir = some .dir
  tenantDir : s.state.files.tree.get (Warpline.tenantsDir.child (.ofStr tenant)) = some .dir
  pointer : PointerIs s.state.files tenant func (some digest)

variable {failed fresh : Bool} {digest : Str}

theorem held_stable (hashtext : Str → Int) (grace : Nat) (c : Option UploadCall) :
    (failedPublishThread hashtext tenant func committed grace .publisher).Stable c
      (Held tenant func committed failed fresh digest) :=
  fun _ _ hs hr =>
    { failed := by rw [hr.calls]; exact hs.failed
      row := by rw [hr.db]; exact hs.row
      fresh := by rw [hr.db]; exact hs.fresh
      blob := hr.blob hs.blob
      tenantsDir := hr.dirs _ hs.tenantsDir
      tenantDir := hr.dirs _ hs.tenantDir
      pointer := hs.pointer.congr hr.pointer }

theorem tenantsDir_not_temp : ¬ TempPath tenantsDir := by
  have h : tenantsDir = PathBuf.child [] (.ofStr ('t' :: "enants".toList)) := by decide
  rw [h]
  exact not_temp_of_head (by decide)

theorem tenantDir_not_temp (h : validName tenant = true) :
    ¬ TempPath (tenantsDir.child (.ofStr tenant)) := by
  obtain ⟨-, hdot, hne⟩ := validName_spec h
  cases tenant with
  | nil => exact absurd rfl hne
  | cons c rest => exact not_temp_of_head fun hc => hdot (hc ▸ List.mem_cons_self)

/-- The tenant of a name that has a pointer. -/
theorem Held.valid (hs : Held tenant func committed failed fresh digest s) :
    validName tenant = true := by
  obtain ⟨-, path, -, -, hp, -⟩ := hs.pointer
  exact (pointerPath_eq_some.1 hp).1

/-- A call on the files that leaves blobs and the tenant's directory. -/
theorem held_fileStep (hs : Held tenant func committed failed fresh digest s) {c : FsCall}
    {r : FsRes c}
    (he : ∃ ch, failedPublishExec hashtext ch (fun _ => none) .publisher s (.inl c) = some (r, s'))
    (hblob : HasBlob committed s.state.files → HasBlob committed s'.state.files)
    (hdirs : ∀ q, ¬ TempPath q → s.state.files.tree.get q = some .dir →
      s'.state.files.tree.get q = some .dir) {digest' : Str}
    (hptr : PointerIs s'.state.files tenant func (some digest')) :
    Held tenant func committed failed fresh digest' s' := by
  obtain ⟨ch, hx⟩ := he
  obtain ⟨-, hx, htr⟩ := failedPublishExec_spec hx
  obtain ⟨-, hdb⟩ := uploadExec_file hx
  exact
    { failed := by
        rw [htr, Trace.of_cons_self, List.any_cons, hs.failed]
        rfl
      row := by rw [hdb]; exact hs.row
      fresh := by rw [hdb]; exact hs.fresh
      blob := hblob hs.blob
      tenantsDir := hdirs _ tenantsDir_not_temp hs.tenantsDir
      tenantDir := hdirs _ (tenantDir_not_temp hs.valid) hs.tenantDir
      pointer := hptr }

theorem held_actor (hd : isValidDigest committed = true) :
    Actor (fun s => s.state.files)
      (failedPublishThread hashtext tenant func committed grace .publisher).inl .publisher
      (fun ch => failed = true → ch.fault = false)
      (Held tenant func committed failed fresh digest) where
  exec {s c r s'} hs he := by
    obtain ⟨ch, hx⟩ := he
    obtain ⟨ha, hx, -⟩ := failedPublishExec_spec hx
    refine ⟨ch.file, fun hf => ?_, (uploadExec_file hx).1⟩
    simp only [rolledBack, hs.failed, hf, if_true, Bool.and_eq_true, Bool.not_eq_true'] at ha
    exact ha.2
  stable c := held_stable hashtext grace (some (.inl c))
  temps _ hr ht := ⟨by rw [hr.temps]; exact ht, hr.files _⟩
  same _ hs he hv := ⟨trivial, held_fileStep hs he (by rw [hv]; exact id)
    (by rw [hv]; exact fun _ _ => id) (by rw [hv]; exact hs.pointer)⟩
  quiet _ hs he hq := ⟨trivial, held_fileStep hs he ((harmless_quiet hq).blob _ hd)
    (fun _ hp => hq.get_file hp) (hs.pointer.congr ((harmless_quiet hq).pointer _ _))⟩
  cleanup {p r s s'} hs ht he hv := by
    have hh : Harmless .publisher s.state.files s'.state.files := by
      rw [hv]
      exact harmless_del ht
    refine ⟨trivial, held_fileStep hs he (hh.blob _ hd) (fun q hq h => ?_)
      (hs.pointer.congr (hh.pointer _ _))⟩
    rw [hv]
    exact (DirTree.get_del_ne _ fun heq =>
      hq (by rw [heq]; exact s.state.files.temp_named p _ ht)).trans h

/-- The reconcile's pointer write is not disturbed. -/
theorem held_steady {path : PathBuf} (hp : pointerPath tenant func = some path) :
    Steady (fun s => s.state.files)
      (failedPublishThread hashtext tenant func committed grace .publisher).inl .publisher
      (fun ch => true = true → ch.fault = false)
      (Held tenant func committed true fresh digest) path.parent path where
  noFault _ ha := ha rfl
  keep hs hr ht := hr.held hs.failed _ ht
  dirs _ hr hd := hr.dirs _ hd
  clear {s} hs := by
    obtain ⟨-, -, rfl⟩ := pointerPath_eq_some.1 hp
    have hroot : s.state.files.tree.get [] = some .dir := rfl
    have htenants : s.state.files.tree.get [Bytes.ofStr "tenants".toList] = some .dir := hs.tenantsDir
    have htenant : s.state.files.tree.get [Bytes.ofStr "tenants".toList, .ofStr tenant] =
      some .dir := hs.tenantDir
    show ((tenantsDir.child (.ofStr tenant)).child (.ofStr func)).parent.inits.any _ = false
    rw [PathBuf.parent_child]
    show [[], [Bytes.ofStr "tenants".toList], [Bytes.ofStr "tenants".toList, .ofStr tenant]].any _ =
      false
    simp only [List.any_cons, List.any_nil, hroot, htenants, htenant, Option.any_some, Node.isFile,
      Bool.or_self]
  notDir hs := by
    obtain ⟨-, q, contents, m, hq, -, hb⟩ := hs.pointer
    rw [← Option.some.inj (hq.symm.trans hp), hb]
    simp
  parent := rfl

theorem sat_activate_held (hd : isValidDigest committed = true) {staged : Staged}
    (hs : Held tenant func committed failed fresh digest s) :
    Sat (failedPublishThread hashtext tenant func committed grace .publisher).inl
      (fun r s => match r with
        | .ok _ => Held tenant func committed failed fresh staged.digest s
        | .error _ => Held tenant func committed failed fresh digest s ∧
            (isValidDigest staged.digest = true → failed = false))
      (activate tenant func staged).run s := by
  obtain ⟨-, path, -, -, hp, -⟩ := hs.pointer
  refine ((held_actor hd).sat_activate (S := Held tenant func committed failed fresh
    staged.digest) hs (fun {path s s' tmp m} hp hst hs h => ⟨trivial, ?_⟩)).mono fun r s hr => ?_
  · obtain ⟨hput, hget⟩ := renamed_get h.view_eq h.mine (pointerPath_not_temp hp) h.notDir
    refine held_fileStep hs h.exec ?_ (fun q hq hdir => ?_) ⟨hst, path, _, m, hp, ?_, hput⟩
    · rintro ⟨b, m', hb⟩
      exact ⟨b, m', (hget _ (wasmPath_ne_pointer hd hp)
        fun ht => wasmPath_not_temp hd (s.state.files.temp_named _ _ ht)).trans hb⟩
    · rw [hget q (fun heq => h.notDir (heq ▸ hdir)) fun ht => hq (s.state.files.temp_named _ _ ht)]
      exact hdir
    · exact trim_digest hst
  · cases r with
    | ok _ => exact hr
    | error e =>
      refine ⟨hr.1, fun hst => ?_⟩
      cases hf : failed with
      | false => rfl
      | true =>
        subst hf
        exact absurd (held_steady hp) (hr.2 path hp hst)

/-! ## The publisher's statements -/

/-- A statement other than a commit keeps what is known; in a reconcile it succeeds. -/
theorem held_statement (hs : Held tenant func committed failed fresh digest s) {c : DbCall}
    {r : DbRes c} (hc : c ≠ .commit)
    (he : ∃ ch, failedPublishExec hashtext ch (fun _ => none) .publisher s (.inr c) = some (r, s'))
    (fresh' : Bool) (hfresh : fresh' = true → s'.state.db.txs .publisher = some []) :
    Held tenant func committed failed fresh' digest s' ∧ (failed = true → ∃ a, r = .ok a) := by
  obtain ⟨ch, hx⟩ := he
  obtain ⟨ha, hx, htr⟩ := failedPublishExec_spec hx
  obtain ⟨hx, hfiles⟩ := uploadExec_db hx
  have hframe := Db.exec_frame hx
  refine ⟨?_, fun hf => ?_⟩
  · exact
      { failed := by
          rw [htr, Trace.of_cons_self, List.any_cons, hs.failed]
          cases c <;> first | rfl | exact absurd rfl hc
        row := by
          rw [Db.committed, hframe.tenantIds, hframe.functions hc]
          exact hs.row
        fresh := hfresh
        blob := by rw [hfiles]; exact hs.blob
        tenantsDir := by rw [hfiles]; exact hs.tenantsDir
        tenantDir := by rw [hfiles]; exact hs.tenantDir
        pointer := by rw [hfiles]; exact hs.pointer }
  · simp only [rolledBack, hs.failed, hf, if_true, Bool.and_eq_true, Bool.not_eq_true'] at ha
    exact Db.exec_ok hx ha.1

/-- A commit: the first one is rolled back, the reconcile's commits nothing. -/
theorem held_commit (hs : Held tenant func committed failed fresh digest s) {r : DbRes .commit}
    (he : ∃ ch, failedPublishExec hashtext ch (fun _ => none) .publisher s (.inr .commit) =
      some (r, s')) (hf : failed = true → fresh = true) :
    Held tenant func committed true false digest s' ∧ (failed = true ∨ ∃ e, r = .error e) := by
  obtain ⟨ch, hx⟩ := he
  obtain ⟨ha, hx, htr⟩ := failedPublishExec_spec hx
  obtain ⟨hx, hfiles⟩ := uploadExec_db hx
  have hout : (failed = true ∨ ∃ e, r = .error e) ∧
      s'.state.db = s.state.db.endTx .publisher s.state.db.functions := by
    simp only [rolledBack, hs.failed] at ha
    obtain ⟨writes, hw, ⟨hr, hdb⟩ | ⟨he, -, hdb⟩⟩ := Db.exec_commit hx
    · cases hfail : failed with
      | true =>
        rw [hs.fresh (hf hfail)] at hw
        cases hw
        exact ⟨.inl rfl, hdb⟩
      | false =>
        simp only [hfail, Bool.false_eq_true, if_false, Bool.and_eq_true, Bool.not_eq_true'] at ha
        obtain ⟨-, hok⟩ | ⟨-, ht⟩ := hr
        · have h := hok.symm.trans ha.1
          cases h
        · have h := ht.symm.trans ha.2
          cases h
    · exact ⟨.inr he, hdb⟩
  obtain ⟨hr, hdb⟩ := hout
  refine ⟨?_, hr⟩
  exact
    { failed := by
        rw [htr, Trace.of_cons_self, List.any_cons, hs.failed]
        rcases hr with rfl | ⟨e, rfl⟩
        · exact Bool.or_true _
        · rfl
      row := by
        rw [hdb]
        exact hs.row
      fresh := fun h => by cases h
      blob := by rw [hfiles]; exact hs.blob
      tenantsDir := by rw [hfiles]; exact hs.tenantsDir
      tenantDir := by rw [hfiles]; exact hs.tenantDir
      pointer := by rw [hfiles]; exact hs.pointer }

/-- After a statement; in a reconcile it succeeds. -/
def AfterQuery (tenant func committed : Str) (failed fresh : Bool) (digest : Str) {ε α : Type} :
    Except ε α → UploadState Party → Prop
  | .ok _, s => Held tenant func committed failed fresh digest s
  | .error _, s => Held tenant func committed failed false digest s ∧ failed = false

theorem sat_query_held {ε : Type} {err : DbError → ε} {c : DbCall} (hc : c ≠ .commit)
    (hs : Held tenant func committed failed fresh digest s) (fresh' : Bool)
    (hfresh : ∀ {ch : DbChoice} {db db' : Db Party} {a}, Db.exec hashtext .publisher ch db c =
      some (.ok a, db') → (fresh = true → db.txs .publisher = some []) → fresh' = true →
      db'.txs .publisher = some []) :
    Sat (failedPublishThread hashtext tenant func committed grace .publisher)
      (AfterQuery tenant func committed failed fresh' digest) (query err c).run s := by
  refine Sat.mapErr (Sat.perform _ (held_stable hashtext grace _) hs
    fun s₁ (r : DbRes c) s₂ hs₁ he => ⟨trivial, ?_⟩)
  cases r with
  | ok a =>
    refine (held_statement hs₁ hc he fresh' fun h => ?_).1
    obtain ⟨ch, hx⟩ := he
    exact hfresh (uploadExec_db (failedPublishExec_spec hx).2.1).1 hs₁.fresh h
  | error e =>
    obtain ⟨hs₂, hok⟩ := held_statement hs₁ hc he false nofun
    refine ⟨hs₂, ?_⟩
    cases hf : failed with
    | false => rfl
    | true =>
      obtain ⟨a, ha⟩ := hok hf
      cases ha

theorem sat_lockTenant_held {ε : Type} {err : DbError → ε}
    (hs : Held tenant func committed failed fresh digest s) :
    Sat (failedPublishThread hashtext tenant func committed grace .publisher)
      (AfterQuery tenant func committed failed fresh digest) (lockTenant err tenant).run s := by
  have hset : ∀ setting s, Held tenant func committed failed fresh digest s →
      Sat (failedPublishThread hashtext tenant func committed grace .publisher)
        (AfterQuery tenant func committed failed fresh digest)
        (query err (.setLocal setting)).run s :=
    fun setting s hs => sat_query_held (by simp) hs fresh fun hx h hf => by
      rw [Db.exec_setLocal hx]
      exact h hf
  refine Sat.bindE ((hset _ s hs).mono fun r s₁ hr => ?_)
  rcases r with e | _
  · exact hr
  refine Sat.bindE ((hset _ s₁ hr).mono fun r s₂ hr => ?_)
  rcases r with e | _
  · exact hr
  refine sat_query_held (by simp) hr fresh fun hx h hf => ?_
  obtain ⟨-, -, rfl⟩ | ⟨⟨e, he⟩, -⟩ := Db.exec_lockTenant hx
  · exact h hf
  · cases he

theorem sat_dropTx_held (hs : Held tenant func committed failed fresh digest s) :
    Sat (failedPublishThread hashtext tenant func committed grace .publisher)
      (fun _ => Held tenant func committed failed false digest) dropTx s := by
  refine Sat.bind (Sat.perform _ (held_stable hashtext grace _) hs
    fun s₁ (r : DbRes .rollback) s₂ hs₁ he => ⟨trivial, ?_⟩)
  exact (held_statement hs₁ (by simp) he false nofun).1

/-! ## The publish and its reconcile -/

/-- The section inside the transaction: only its last step moves the pointer. -/
theorem sat_publishSection_held (hd : isValidDigest committed = true) {maxFunctions : Int}
    {staged : Staged} (hs : Held tenant func committed false false committed s) :
    Sat (failedPublishThread hashtext tenant func committed grace .publisher)
      (fun r s => match r with
        | .ok _ => Held tenant func committed false false staged.digest s
        | .error _ => Held tenant func committed false false committed s)
      (publishSection maxFunctions tenant func staged).run s := by
  refine Sat.bindE ((sat_lockTenant_held hs).mono fun r s₁ hr => ?_)
  rcases r with e | _
  · exact hr.1
  refine Sat.bindE ((sat_query_held (by simp) hr false fun _ _ => nofun).mono fun r s₂ hr => ?_)
  rcases r with e | _ | id
  · exact hr.1
  · exact hr
  refine Sat.bindE ((sat_query_held (by simp) hr false fun _ _ => nofun).mono fun r s₃ hr => ?_)
  rcases r with e | others
  · exact hr.1
  dsimp only
  split
  · exact hr
  refine Sat.bindE ((sat_query_held (by simp) hr false fun _ _ => nofun).mono fun r s₄ hr => ?_)
  rcases r with e | _
  · exact hr.1
  refine Sat.mapErr (Sat.of_inl ((sat_activate_held hd hr).mono fun r s₅ hr => ?_))
  cases r with
  | ok _ => exact hr
  | error e => exact hr.1

/-- Re-activating the committed digest, whose blob is there. -/
theorem sat_activateDigest_held (hd : isValidDigest committed = true)
    (hs : Held tenant func committed true fresh digest s) :
    Sat (failedPublishThread hashtext tenant func committed grace .publisher).inl
      (fun r s => IsOk r ∧ Held tenant func committed true fresh committed s)
      (activateDigest tenant func committed).run s := by
  obtain ⟨-, path, -, -, hp, -⟩ := hs.pointer
  obtain ⟨ht, hfn, -⟩ := pointerPath_eq_some.1 hp
  simp only [activateDigest, ht, hfn, hd, wasmExists, Bool.not_true, Bool.or_self, if_false,
    Bool.false_eq_true, if_true]
  refine Sat.liftE (Sat.bind (Sat.perform _ ((held_actor hd).stable _) hs
    fun s₁ r s₂ hs₁ he => ?_))
  obtain ⟨ch, hno, hx⟩ := (held_actor hd).exec hs₁ he
  obtain ⟨hg, hs₂⟩ := (held_actor hd).same (.inl rfl) hs₁ he (exec_readOnly rfl hx)
  refine ⟨hg, ?_⟩
  obtain ⟨b, m, hb⟩ := hs₁.blob
  obtain ⟨node, rfl, hn⟩ | ⟨e, -, hfault, -⟩ := exec_metadata hx
  swap
  · rw [hno rfl, hb] at hfault
    simp at hfault
  rw [hb, Option.some.injEq] at hn
  subst hn
  refine (sat_activate_held hd hs₂).mono fun r s₃ hr => ?_
  cases r with
  | ok a => exact ⟨⟨a, rfl⟩, hr⟩
  | error e => cases hr.2 hd

/-- **`try_reconcile`** points the name at the committed digest. -/
theorem sat_tryReconcile_held (hd : isValidDigest committed = true)
    (hs : Held tenant func committed true false digest s) :
    Sat (failedPublishThread hashtext tenant func committed grace .publisher)
      (fun _ => Held tenant func committed true false committed)
      (tryReconcile tenant func).run s := by
  refine Sat.bindE ((sat_query_held (by simp) hs true fun hx _ => ?_).mono fun r s₁ hr => ?_)
  · obtain ⟨-, rfl⟩ | ⟨⟨e, he⟩, -⟩ := Db.exec_beginTx hx
    · simp [Db.setTx]
    · cases he
  rcases r with e | _
  · cases hr.2
  refine Sat.bindE (Sat.onError ?_)
  refine Sat.bindE ((sat_lockTenant_held hr).mono fun r s₂ hr => ?_)
  rcases r with e | _
  · cases hr.2
  -- the committed row
  refine Sat.bindE (Sat.mapErr (Sat.perform _ (held_stable hashtext grace _) hr
    fun s₃ (r : DbRes (.functionHash tenant func)) s₄ hs₃ he => ⟨trivial, ?_⟩))
  have hkeep : ∀ fresh', (fresh' = true → s₄.state.db.txs .publisher = some []) →
      Held tenant func committed true fresh' digest s₄ ∧ ∃ a, r = .ok a := fun fresh' hf =>
    ⟨(held_statement hs₃ (by simp) he fresh' hf).1,
      (held_statement hs₃ (by simp) he false (by simp)).2 rfl⟩
  obtain ⟨ch, hx⟩ := he
  obtain ⟨hdb, hval⟩ := Db.exec_functionHash (uploadExec_db (failedPublishExec_spec hx).2.1).1
  obtain ⟨hs₄, -⟩ := hkeep true fun _ => by rw [hdb]; exact hs₃.fresh rfl
  obtain ⟨writes, hw, rfl⟩ | ⟨e, rfl⟩ := hval
  swap
  · obtain ⟨a, ha⟩ := (hkeep false (by simp)).2
    cases ha
  rw [hs₃.fresh rfl] at hw
  cases hw
  have hrow : ((s₃.state.db.tenantIds tenant).bind
      fun id => (s₃.state.db.visible []).hash id func) = some committed := hs₃.row
  rw [hrow]
  refine Sat.mapErr (Sat.of_inl ((sat_activateDigest_held hd hs₄).mono ?_))
  rintro _ s₅ ⟨⟨a, rfl⟩, hs₅⟩
  -- nothing is written in this transaction
  exact Sat.mapErr (Sat.perform _ (held_stable hashtext grace _) hs₅
    fun s₆ (r : DbRes .commit) s₇ hs₆ he => ⟨trivial, (held_commit hs₆ he fun _ => rfl).1⟩)

/-- **`publish_in_db`** whose commit is rolled back: in the end the pointer is the committed one. -/
theorem sat_publishInDb_held (hd : isValidDigest committed = true) {maxFunctions : Int}
    {staged : Staged} (hs : Held tenant func committed false false committed s) :
    Sat (failedPublishThread hashtext tenant func committed grace .publisher)
      (fun _ s => ∃ failed, Held tenant func committed failed false committed s)
      (publishInDb maxFunctions tenant func staged).run s := by
  refine Sat.bindE ((sat_query_held (by simp) hs false fun _ _ => nofun).mono fun r s₁ hr => ?_)
  rcases r with e | _
  · exact ⟨_, hr.1⟩
  refine Sat.bindE (Sat.onError ((sat_publishSection_held hd hr).mono fun r s₂ hr => ?_))
  rcases r with e | _
  · exact (sat_dropTx_held hr).mono fun _ s₃ hs₃ => ⟨_, hs₃⟩
  refine Sat.liftE (Sat.perform _ (held_stable hashtext grace _) hr
    fun s₃ (r : DbRes .commit) s₄ hs₃ he => ⟨trivial, ?_⟩)
  obtain ⟨hs₄, hr₄⟩ := held_commit hs₃ he nofun
  rcases r with e | _
  · exact Sat.liftE (Sat.bind ((sat_tryReconcile_held hd hs₄).mono fun _ s₅ hs₅ => ⟨_, hs₅⟩))
  · rcases hr₄ with h | ⟨e, h⟩ <;> cases h

/-! ## Both together -/

abbrev FailedPublishResult : Party → Type
  | .gc => Except Error Nat
  | .publisher => Except HttpError Unit

/-- The two programs from the state `s₀`, nothing called yet. -/
def failedPublishStart (W : Wasm) (engine : W.Engine) (grace : Nat) (maxFunctions : Int)
    (tenant func : Str) (staged : Staged) (s₀ : Shared Party) :
    Config Party (UploadState Party) UploadCall UploadRes FailedPublishResult where
  shared := ⟨s₀, []⟩
  prog
    | .gc => (gc W engine grace).run.inl
    | .publisher => (publishInDb maxFunctions tenant func staged).run

theorem failedPublish_compatible (hashtext : Str → Int) (tenant func committed : Str)
    (grace : Nat) :
    Compatible ((failedPublish hashtext).restrict fun pend t s c r =>
        committedSpared committed grace pend t s c r = true)
      (failedPublishThread hashtext tenant func committed grace) fun _ => True where
  exec := by
    rintro pend (_ | _) s c r s' - - ⟨he, ha⟩
    · exact ⟨he, ha⟩
    · exact he
  guar := by
    rintro pend (_ | _) (_ | _) s c r s' hne - - - hg
    · exact absurd rfl hne
    · exact hg
    · trivial
    · exact absurd rfl hne
  env _ _ _ _ _ h := h.elim
  inv _ _ _ _ _ _ := trivial
  envInv _ _ _ _ _ := trivial

theorem held_start {s₀ : Shared Party} (htree : s₀.files.tree.WellFormed)
    (hrow : s₀.db.committed tenant func = some committed)
    (hptr : PointerIs s₀.files tenant func (some committed)) (hblob : HasBlob committed s₀.files) :
    Held tenant func committed false false committed ⟨s₀, []⟩ := by
  obtain ⟨hd, path, contents, m, hp, htrim, hb⟩ := hptr
  obtain ⟨ht, hf, rfl⟩ := pointerPath_eq_some.1 hp
  have htenant : s₀.files.tree.get (tenantsDir.child (.ofStr tenant)) = some .dir := by
    rw [← PathBuf.parent_child (tenantsDir.child (.ofStr tenant)) (.ofStr func)]
    exact htree _ (by simp [hb])
  have htenants : s₀.files.tree.get Warpline.tenantsDir = some .dir := by
    rw [← PathBuf.parent_child Warpline.tenantsDir (.ofStr tenant)]
    exact htree _ (by simp [htenant])
  exact
    { failed := rfl
      row := hrow
      fresh := nofun
      blob := hblob
      tenantsDir := htenants
      tenantDir := htenant
      pointer := ⟨hd, _, contents, m, hp, htrim, hb⟩ }

/-- **The committed version survives a failed publish** next to a `gc` that does not find its blob
old. -/
theorem committed_survives_gc (W : Wasm) (engine : W.Engine) (hashtext : Str → Int) (grace : Nat)
    (maxFunctions : Int) (tenant func : Str) (staged : Staged) (committed : Str)
    (s₀ : Shared Party) (htree : s₀.files.tree.WellFormed)
    (hrow : s₀.db.committed tenant func = some committed)
    (hptr : PointerIs s₀.files tenant func (some committed)) (hblob : HasBlob committed s₀.files)
    {C : Config Party (UploadState Party) UploadCall UploadRes FailedPublishResult}
    (hr : Reach ((failedPublish hashtext).restrict fun pend t s c r =>
        committedSpared committed grace pend t s c r = true)
      (failedPublishStart W engine grace maxFunctions tenant func staged s₀) C)
    {r : Except HttpError Unit} (hret : C.prog .publisher = .ret r) :
    PointerIs C.shared.state.files tenant func (some committed) ∧
      HasBlob committed C.shared.state.files := by
  have hstart := held_start htree hrow hptr hblob
  have hpost := Reach.post (Q := fun t _ s => match t with
      | .gc => True
      | .publisher => ∃ failed, Held tenant func committed failed false committed s)
    (failedPublish_compatible hashtext tenant func committed grace) ?_ trivial ?_ hr hret
  · obtain ⟨failed, hheld⟩ := hpost
    exact ⟨hheld.pointer, hheld.blob⟩
  · rintro (_ | _) _ s s' h hrel
    · trivial
    · obtain ⟨failed, h⟩ := h
      exact ⟨failed, held_stable hashtext grace none s s' h hrel⟩
  · rintro (_ | _)
    · exact Sat.of_inl ((Collector.sat_gcUnreferencedBlobs
        (fun refs dirs => failedPublish_collector) trivial).mono fun _ _ _ => trivial)
    · exact sat_publishInDb_held hptr.1 hstart

/-! ## Runs -/

/-- `(t, f)` is published with a blob from time `mtime`, pointer and row. -/
def publishedShared (mtime : Nat) : Shared Party where
  files := rollbackState rollbackDigest rollbackOther mtime
  db := .ofFunctions (Functions.upsert ∅ ⟨0, ['f'], rollbackDigest⟩)

def failedPublishRun (mtime : Nat) :
    Config Party (UploadState Party) UploadCall UploadRes FailedPublishResult :=
  failedPublishStart Wasm.plain (0 : Nat) 10 100 ['t'] ['f'] ⟨rollbackOther⟩ (publishedShared mtime)

/-- `gc` reads the pointer between the publish and its reconcile. -/
def failedPublishUnderGc : List (Party × UploadChoice) :=
  let ok : DbChoice := ⟨false, false⟩
  let step : UploadChoice := ⟨.ofNow 100, ok⟩
  let names (l : List Str) : UploadChoice := ⟨.ofNames 100 l, ok⟩
  let write (suffix : Char) : List UploadChoice :=
    [step, ⟨.ofSuffix 100 [suffix], ok⟩] ++ List.replicate 4 step
  let blobs := [rollbackDigest ++ ".wasm".toList, rollbackOther ++ ".wasm".toList]
  -- the transaction, the pointer write
  (List.replicate 7 step ++ write 'a').map (.publisher, ·) ++
  -- the pointers
    [names [['t']], step, names [['f']], step].map (.gc, ·) ++
  -- the failed commit and the reconcile
    (⟨.ofNow 100, ⟨true, false⟩⟩ :: List.replicate 6 step ++ write 'b' ++ [step]).map
      (.publisher, ·) ++
  -- the blobs
    [names [['f']], step, names blobs, names blobs, step, step].map (.gc, ·)

def failedPublishDone
    (C : Config Party (UploadState Party) UploadCall UploadRes FailedPublishResult) : Bool :=
  match C.prog .gc, C.prog .publisher with
  | .ret _, .ret _ => true
  | _, _ => false

theorem failedPublishDone_ret
    {C : Config Party (UploadState Party) UploadCall UploadRes FailedPublishResult}
    (h : failedPublishDone C = true) (t : Party) : ∃ r, C.prog t = .ret r := by
  unfold failedPublishDone at h
  split at h
  · rename_i r₀ r₁ h₀ h₁
    cases t with
    | gc => exact ⟨r₀, h₀⟩
    | publisher => exact ⟨r₁, h₁⟩
  · cases h

theorem publishedShared_pointer (mtime : Nat) :
    PointerIs (publishedShared mtime).files ['t'] ['f'] (some rollbackDigest) := by
  have hput : (rollbackState rollbackDigest rollbackOther mtime).tree.get
      ((tenantsDir.join ['t']).join ['f']) = some (.file (.ofStr rollbackDigest) 0) :=
    DirTree.get_put _ _ (by decide)
  exact ⟨by decide, _, rollbackDigest, 0, by decide, by decide, hput⟩

theorem failedPublishExec_sound (hashtext : Str → Int) (ch : UploadChoice)
    (pend : Party → Option UploadCall) (me : Party) (s : UploadState Party) (c : UploadCall)
    (r : UploadRes c) (s' : UploadState Party)
    (h : failedPublishExec hashtext ch pend me s c = some (r, s')) :
    (failedPublish hashtext).exec pend me s c r s' :=
  ⟨ch, h⟩

/-- With a blob younger than the grace period. -/
theorem committed_survives_gc_young :
    ∃ C, (failedPublishRun 95).play
        (checked (fun ch => failedPublishExec (fun _ => 0) ch) (committedSpared rollbackDigest 10))
        failedPublishUnderGc = some C ∧
      PointerIs C.shared.state.files ['t'] ['f'] (some rollbackDigest) ∧
      HasBlob rollbackDigest C.shared.state.files := by
  have hrun : ((failedPublishRun 95).play
      (checked (fun ch => failedPublishExec (fun _ => 0) ch) (committedSpared rollbackDigest 10))
      failedPublishUnderGc).any failedPublishDone = true := by
    decide +kernel
  rw [Option.any_eq_true] at hrun
  obtain ⟨C, hplay, hC⟩ := hrun
  obtain ⟨r, hret⟩ := failedPublishDone_ret hC .publisher
  exact ⟨C, hplay, committed_survives_gc Wasm.plain (0 : Nat) (fun _ => 0) 10 100 ['t'] ['f'] _ _ _
    (by decide +kernel) (by decide +kernel) (publishedShared_pointer 95)
    ⟨[], 95, by decide +kernel⟩ (play_restrict (failedPublishExec_sound _) hplay) hret⟩

theorem committed_lost_to_gc :
    ¬ ∀ (W : Wasm) (engine : W.Engine) (hashtext : Str → Int) (grace : Nat) (maxFunctions : Int)
      (tenant func : Str) (staged : Staged) (committed : Str) (s₀ : Shared Party),
      s₀.files.tree.WellFormed → s₀.db.committed tenant func = some committed →
      PointerIs s₀.files tenant func (some committed) → HasBlob committed s₀.files →
      ∀ C : Config Party (UploadState Party) UploadCall UploadRes FailedPublishResult,
      Reach (failedPublish hashtext)
        (failedPublishStart W engine grace maxFunctions tenant func staged s₀) C →
      (∀ t, ∃ r, C.prog t = .ret r) →
      PointerIs C.shared.state.files tenant func (some committed) ∧
        HasBlob committed C.shared.state.files := by
  intro h
  have hrun : ((failedPublishRun 0).play (fun ch => failedPublishExec (fun _ => 0) ch)
      (failedPublishUnderGc ++ [(.gc, ⟨.ofNow 100, ⟨false, false⟩⟩)])).any (fun C =>
        failedPublishDone C && (C.shared.state.files.tree.get (wasmPath rollbackDigest)).isNone) =
      true := by
    decide +kernel
  rw [Option.any_eq_true] at hrun
  obtain ⟨C, hplay, hC⟩ := hrun
  rw [Bool.and_eq_true, Option.isNone_iff_eq_none] at hC
  obtain ⟨-, b, m, hb⟩ := h Wasm.plain (0 : Nat) (fun _ => 0) 10 100 ['t'] ['f'] _ rollbackDigest _
    (by decide +kernel) (by decide +kernel) (publishedShared_pointer 0) ⟨[], 0, by decide +kernel⟩ C
    (play_reach (failedPublishExec_sound _) hplay) (failedPublishDone_ret hC.1)
  exact nomatch hC.2.symm.trans hb

end Warpline
