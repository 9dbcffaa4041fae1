import Warpline.Control.System
import Warpline.Core.Proof.StageSteps

/-!
# The steps of concurrent uploads

Any number of uploads over one registry and one database. `UploadInv` is the invariant: the
pointer of a name agrees with its committed row, or an upload of that name has written the pointer
and not committed successfully since (`marked`).

`Knows t K s` is what upload `t` knows between two of its calls. What it knows of its row and its
pointer it knows because it holds the tenant's lock; the other uploads' steps keep it (`Rely`,
`knows_stable`), since whoever changes a row or a pointer of a tenant holds the tenant's lock.
-/

set_option autoImplicit false

namespace Warpline

open Conc Fs

structure Upload (W : Wasm) where
  engine : W.Engine
  maxFunctions : Int
  tenant : Str
  func : Str
  wasm : Bytes

section
variable {τ : Type}

/-- The pointer of `(tenant, func)` holds a digest, or there is none. -/
def PointerIs (s : State τ) (tenant func : Str) : Option Str → Prop
  | some digest => isValidDigest digest = true ∧ ∃ path contents m,
      pointerPath tenant func = some path ∧ Str.trim contents = digest ∧
        s.tree.get path = some (.file (.ofStr contents) m)
  | none => ∀ path, pointerPath tenant func = some path →
      ∀ b m, s.tree.get path ≠ some (.file b m)

/-- The pointer and the committed row of `(tenant, func)` are the same. -/
def Agree (s : Shared τ) (tenant func : Str) : Prop :=
  PointerIs s.files tenant func (s.db.committed tenant func)

/-- The pointer of `(tenant, func)` is the same file. -/
def SamePointer (tenant func : Str) (s s' : State τ) : Prop :=
  ∀ path, pointerPath tenant func = some path →
    ∀ b m, s'.tree.get path = some (.file b m) ↔ s.tree.get path = some (.file b m)

theorem PointerIs.congr {s s' : State τ} {tenant func : Str} {digest : Option Str}
    (h : PointerIs s tenant func digest) (hs : SamePointer tenant func s s') :
    PointerIs s' tenant func digest := by
  cases digest with
  | none => exact fun path hp b m hb => h path hp b m ((hs path hp b m).1 hb)
  | some d =>
    obtain ⟨hd, path, contents, m, hp, htrim, hb⟩ := h
    exact ⟨hd, path, contents, m, hp, htrim, (hs path hp _ m).2 hb⟩

theorem Agree.congr {s s' : Shared τ} {tenant func : Str} (h : Agree s tenant func)
    (hs : SamePointer tenant func s.files s'.files)
    (hrow : s'.db.committed tenant func = s.db.committed tenant func) : Agree s' tenant func := by
  unfold Agree
  rw [hrow]
  exact PointerIs.congr h hs

end

/-! ## The invariant -/

/-- The pointer was written (`true`), or a commit succeeded (`false`). -/
def mark (tenant func : Str) : (c : UploadCall) → UploadRes c → Option Bool
  | .inr .commit, .ok _ => some false
  | c, r => if pointerWrite tenant func ⟨c, r⟩ then some true else none

section
variable {W : Wasm} {τ : Type} [DecidableEq τ] (u : τ → Upload W) (hashtext : Str → Int)

/-- The last mark of upload `t`. -/
def marked (t : τ) (s : UploadState τ) : Option Bool :=
  latest (mark (u t).tenant (u t).func) (s.trace.of t)

/-- Every pointer agrees with its row, or an upload is on its way that will see to it. -/
structure UploadInv (s : UploadState τ) : Prop where
  agree : ∀ tenant func, Agree s.state tenant func ∨
    ∃ t, (u t).tenant = tenant ∧ (u t).func = func ∧ marked u t s = some true
  blobs : ∀ tenant func digest, s.state.db.committed tenant func = some digest →
    isValidDigest digest = true ∧ HasBlob digest s.state.files

/-- Blobs stay; under the tenant's lock so do its rows and its pointers. -/
structure Keeps (tenant : Str) (locked : Prop) (s s' : Shared τ) : Prop where
  tenantIds : s'.db.tenantIds = s.db.tenantIds
  blob : ∀ digest, isValidDigest digest = true → HasBlob digest s.files → HasBlob digest s'.files
  row : locked → ∀ func, s'.db.committed tenant func = s.db.committed tenant func
  pointer : locked → ∀ func, SamePointer tenant func s.files s'.files

/-- A step of the other uploads, seen by upload `t`. -/
structure Rely (t : τ) (s s' : UploadState τ) : Prop where
  inv : UploadInv u s'
  tx : s'.state.db.txs t = s.state.db.txs t
  locks : ∀ k, s.state.db.locks k = some t → s'.state.db.locks k = some t
  calls : s'.trace.of t = s.trace.of t
  temps : ∀ p, s.state.files.temps p = some t → s'.state.files.temps p = some t ∧
    ∀ b m, s'.state.files.tree.get p = some (.file b m) →
      s.state.files.tree.get p = some (.file b m)
  keeps : Keeps (u t).tenant (s.state.db.locks (hashtext (u t).tenant) = some t) s.state s'.state

def uploadThread (t : τ) : Thread (UploadState τ) UploadCall UploadRes where
  exec := fun s c r s' => (∃ ch, uploadExec hashtext t ch s.state c = some (r, s'.state)) ∧
    s'.trace = (t, ⟨c, r⟩) :: s.trace ∧ reconcileSucceeds (fun _ => none) t s c r = true
  rely := fun _ => Rely u hashtext t
  guar := fun _ s s' => UploadInv u s' ∧ ∀ v, v ≠ t → Rely u hashtext v s s'

/-! ## What an upload knows -/

structure Known where
  tx : Option (List FunctionRow)
  locked : Bool
  mark : Option Bool
  failed : Bool
  tenantId : Option Nat
  blob : Option Str
  row : Option (Option Str)
  pointer : Option (Option Str)

/-- What upload `t` knows of the state, `K`. -/
structure Knows (t : τ) (K : Known) (s : UploadState τ) : Prop where
  inv : UploadInv u s
  tx : s.state.db.txs t = K.tx
  locked : K.locked = true → s.state.db.locks (hashtext (u t).tenant) = some t
  mark : marked u t s = K.mark
  failed : (s.trace.of t).any failedCommit = K.failed
  tenantId : ∀ i, K.tenantId = some i → s.state.db.tenantIds (u t).tenant = some i
  blob : ∀ d, K.blob = some d → isValidDigest d = true ∧ HasBlob d s.state.files
  row : K.locked = true → ∀ h, K.row = some h →
    s.state.db.committed (u t).tenant (u t).func = h
  pointer : K.locked = true → ∀ h, K.pointer = some h →
    PointerIs s.state.files (u t).tenant (u t).func h

end

section
variable {W : Wasm} {τ : Type} [DecidableEq τ] {u : τ → Upload W} {hashtext : Str → Int} {t : τ}
  {K : Known} {s s' : UploadState τ}

theorem knows_stable (c : Option UploadCall) :
    (uploadThread u hashtext t).Stable c (Knows u hashtext t K) := by
  intro s s' hs hr
  refine ⟨hr.inv, hr.tx.trans hs.tx, fun hl => hr.locks _ (hs.locked hl), ?_, ?_, fun i hi => ?_,
    fun d hd => ?_, fun hl h hh => ?_, fun hl h hh => ?_⟩
  · rw [marked, hr.calls]
    exact hs.mark
  · rw [hr.calls]
    exact hs.failed
  · rw [hr.keeps.tenantIds]
    exact hs.tenantId i hi
  · exact ⟨(hs.blob d hd).1, hr.keeps.blob d (hs.blob d hd).1 (hs.blob d hd).2⟩
  · exact (hr.keeps.row (hs.locked hl) _).trans (hs.row hl h hh)
  · exact (hs.pointer hl h hh).congr (hr.keeps.pointer (hs.locked hl) _)

/-! ## Steps on the files -/

/-- A step of `t` on the files that touches no pointer, no blob's presence and no other upload's
temporary file. -/
structure Harmless (t : τ) (s s' : State τ) : Prop where
  pointer : ∀ tenant func, SamePointer tenant func s s'
  blob : ∀ digest, isValidDigest digest = true → HasBlob digest s → HasBlob digest s'
  temps : ∀ v p, v ≠ t → s.temps p = some v → s'.temps p = some v ∧
    ∀ b m, s'.tree.get p = some (.file b m) → s.tree.get p = some (.file b m)

omit [DecidableEq τ] in
theorem Harmless.refl (t : τ) (s : State τ) : Harmless t s s :=
  ⟨fun _ _ _ _ _ _ => .rfl, fun _ _ => id, fun _ _ _ h => ⟨h, fun _ _ => id⟩⟩

omit [DecidableEq τ] in
theorem harmless_quiet {s s' : State τ} (h : Quiet t s s') : Harmless t s s' := by
  refine ⟨fun tenant func path hp b m => ?_, fun d hd => ?_, fun v p hv ht => ?_⟩
  · obtain he | ⟨hn, hdir⟩ := h.get (pointerPath_not_temp hp)
    · rw [he]
    · simp [hn, hdir]
  · rintro ⟨b, m, hb⟩
    exact ⟨b, m, h.get_file (wasmPath_not_temp hd) hb⟩
  · refine ⟨h.kept p v ht, fun b m hb => ?_⟩
    obtain he | ⟨hme, -⟩ | ⟨-, hdir⟩ := h.tree p
    · rwa [he] at hb
    · rw [h.kept p v ht, Option.some.injEq] at hme
      exact absurd hme hv
    · rw [hdir] at hb
      cases hb

omit [DecidableEq τ] in
/-- Putting a file where no pointer is, and taking away a temporary file of one's own. -/
theorem harmless_of_get {s s' : State τ} {dest : PathBuf} (htemps : s'.temps = s.temps)
    (hdest : ¬ TempPath dest) (hptr : ∀ tenant func, pointerPath tenant func ≠ some dest)
    (hput : ∃ b m, s'.tree.get dest = some (.file b m))
    (hget : ∀ p, p ≠ dest → s.temps p ≠ some t → s'.tree.get p = s.tree.get p) :
    Harmless t s s' := by
  refine ⟨fun tenant func path hp b m => ?_, fun d hd => ?_, fun v p hv ht => ?_⟩
  · rw [hget path (fun h => hptr _ _ (h ▸ hp)) fun h => pointerPath_not_temp hp (s.temp_named _ _ h)]
  · rintro ⟨b, m, hb⟩
    by_cases hdd : wasmPath d = dest
    · unfold HasBlob
      rwa [hdd]
    · exact ⟨b, m, (hget _ hdd fun h => wasmPath_not_temp hd (s.temp_named _ _ h)).trans hb⟩
  · refine ⟨by rw [htemps]; exact ht, fun b m hb => ?_⟩
    rwa [hget p (fun h => hdest (h ▸ s.temp_named p v ht)) (by simp [ht, hv])] at hb

omit [DecidableEq τ] in
theorem harmless_del {s : State τ} {p : PathBuf} (ht : s.temps p = some t) :
    Harmless t s (s.setTree (s.tree.del p)) := by
  have hget : ∀ q, q ≠ p → (s.setTree (s.tree.del p)).tree.get q = s.tree.get q :=
    fun q hq => DirTree.get_del_ne _ hq
  refine ⟨fun tenant func path hp b m => ?_, fun d hd => ?_, fun v q hv hq => ⟨hq, fun b m hb => ?_⟩⟩
  · rw [hget path fun h => pointerPath_not_temp hp (by rw [h]; exact s.temp_named p t ht)]
  · rintro ⟨b, m, hb⟩
    exact ⟨b, m, (hget _ fun h => wasmPath_not_temp hd (by rw [h]; exact s.temp_named p t ht)).trans hb⟩
  · rwa [hget q (fun h => hv (Option.some.inj ((h ▸ hq).symm.trans ht)))] at hb

theorem mark_quiet {tenant func : Str} {c : FsCall} {r : FsRes c}
    (h : c.quiet = true ∨ (∃ e, r = .error e) ∨ ∃ p, c = .removeFile p) :
    mark tenant func (.inl c) r = none := by
  cases c <;> cases r <;> simp_all [mark, pointerWrite, FsCall.quiet]

theorem marked_other {v : τ} {q : UploadEvent} (hv : v ≠ t) (h : s'.trace = (t, q) :: s.trace) :
    marked u v s' = marked u v s := by
  rw [marked, h, Trace.of_cons_ne hv.symm]
  rfl

theorem marked_self {c : UploadCall} {r : UploadRes c} (h : s'.trace = (t, ⟨c, r⟩) :: s.trace) :
    marked u t s' = (mark (u t).tenant (u t).func c r).or (marked u t s) := by
  rw [marked, h, Trace.of_cons_self, latest_cons]
  rfl

/-- **A harmless step** is within the guarantee and takes nothing from what is known. -/
theorem knows_fileStep (hs : Knows u hashtext t K s) {c : FsCall} {r : FsRes c}
    (he : (uploadThread u hashtext t).exec s (.inl c) r s')
    (hm : mark (u t).tenant (u t).func (.inl c) r = none)
    (h : Harmless t s.state.files s'.state.files) :
    (uploadThread u hashtext t).guar (.inl c) s s' ∧ Knows u hashtext t K s' := by
  obtain ⟨⟨ch, hx⟩, htr, -⟩ := he
  obtain ⟨hx, hdb⟩ := uploadExec_file hx
  have hmark : ∀ v, marked u v s' = marked u v s := by
    intro v
    by_cases hv : v = t
    · subst hv
      rw [marked_self htr, hm, Option.none_or]
    · exact marked_other hv htr
  have hrow : ∀ tenant func, s'.state.db.committed tenant func = s.state.db.committed tenant func :=
    fun _ _ => by rw [hdb]
  have hinv : UploadInv u s' := by
    refine ⟨fun tenant func => (hs.inv.agree tenant func).imp
      (·.congr (h.pointer _ _) (hrow _ _)) ?_, fun tenant func d hd => ?_⟩
    · simp only [hmark]
      exact id
    · obtain ⟨hv, hb⟩ := hs.inv.blobs tenant func d (hrow _ _ ▸ hd)
      exact ⟨hv, h.blob d hv hb⟩
  refine ⟨⟨hinv, fun v hv => ⟨hinv, by rw [hdb], fun k => by rw [hdb]; exact id,
    by rw [htr, Trace.of_cons_ne hv.symm], fun p => h.temps v p hv,
    by rw [hdb], h.blob, fun _ _ => hrow _ _, fun _ _ => h.pointer _ _⟩⟩, hinv, by rw [hdb, hs.tx],
    by rw [hdb]; exact hs.locked, by rw [hmark, hs.mark], ?_, by rw [hdb]; exact hs.tenantId,
    fun d hd => ⟨(hs.blob d hd).1, h.blob d (hs.blob d hd).1 (hs.blob d hd).2⟩,
    fun hl o ho => (hrow _ _).trans (hs.row hl o ho),
    fun hl o ho => (hs.pointer hl o ho).congr (h.pointer _ _)⟩
  rw [htr, Trace.of_cons_self, List.any_cons, hs.failed]
  rfl

/-- What an upload knows, as the assertion of a thread on the files. -/
theorem upload_actor (K : Known) : Actor (fun s => s.state.files) (uploadThread u hashtext t).inl t
    (fun _ => True) (Knows u hashtext t K) where
  exec _ he := by
    obtain ⟨⟨ch, hx⟩, -⟩ := he
    exact ⟨ch.file, trivial, (uploadExec_file hx).1⟩
  stable c := knows_stable (some (.inl c))
  temps _ hr ht := hr.temps _ ht
  same hc hs he hv := knows_fileStep hs he (mark_quiet (hc.imp_right .inl)) (by
    rw [hv]
    exact .refl ..)
  quiet hc hs he hq := knows_fileStep hs he (mark_quiet (.inl hc)) (harmless_quiet hq)
  cleanup hs ht he hv := knows_fileStep hs he (mark_quiet (.inr (.inr ⟨_, rfl⟩))) (by
    rw [hv]
    exact harmless_del ht)

omit [DecidableEq τ] in
/-- Publishing a blob or a compiled component. -/
theorem harmless_published {σ : Type} (view : σ → State τ) {T : Thread σ FsCall FsRes}
    {A : Choice → Prop} {dest tmp : PathBuf} {bytes : Bytes} {m : Nat} {s s' : σ}
    (h : Published view T t A dest bytes tmp m s s') (hdest : ¬ TempPath dest)
    (hptr : ∀ tenant func, pointerPath tenant func ≠ some dest) :
    Harmless t (view s) (view s') := by
  obtain ⟨hput, hget⟩ := renamed_get h.view_eq h.mine hdest h.notDir
  refine harmless_of_get ?_ hdest hptr ⟨_, _, hput⟩ hget
  rw [h.view_eq]
  rfl

omit [DecidableEq τ] in
theorem harmless_touched {σ : Type} (view : σ → State τ) {T : Thread σ FsCall FsRes}
    {A : Choice → Prop} {p : PathBuf} {bytes : Bytes} {m now : Nat} {s s' : σ}
    (h : Touched view T A p bytes m now s s') (hp : ¬ TempPath p)
    (hptr : ∀ tenant func, pointerPath tenant func ≠ some p) :
    Harmless t (view s) (view s') := by
  have hne : p ≠ [] := by
    rintro rfl
    have := h.was
    cases this
  rw [h.view_eq]
  exact harmless_of_get rfl hp hptr ⟨bytes, now, DirTree.get_put _ _ hne⟩
    fun q hq _ => DirTree.get_put_ne _ _ hq

theorem knows_publish_blob {A : Choice → Prop} {dest tmp : PathBuf} {bytes : Bytes} {m : Nat}
    (hs : Knows u hashtext t K s) (hdest : ¬ TempPath dest)
    (hptr : ∀ tenant func, pointerPath tenant func ≠ some dest)
    (h : Published (fun s => s.state.files) (uploadThread u hashtext t).inl t A dest bytes tmp m
      s s') :
    (uploadThread u hashtext t).inl.guar (.rename tmp dest) s s' ∧ Knows u hashtext t K s' :=
  knows_fileStep hs h.exec (by simp [mark, pointerWrite, hptr])
    (harmless_published (fun s : UploadState τ => s.state.files) h hdest hptr)

theorem knows_touch {A : Choice → Prop} {p : PathBuf} {bytes : Bytes} {m now : Nat}
    (hs : Knows u hashtext t K s) (hp : ¬ TempPath p)
    (hptr : ∀ tenant func, pointerPath tenant func ≠ some p)
    (h : Touched (fun s => s.state.files) (uploadThread u hashtext t).inl A p bytes m now s s') :
    (uploadThread u hashtext t).inl.guar (.touch p) s s' ∧ Knows u hashtext t K s' :=
  knows_fileStep hs h.exec (by simp [mark, pointerWrite])
    (harmless_touched (fun s : UploadState τ => s.state.files) h hp hptr)

/-- **A change of the upload's own pointer**, under the tenant's lock. -/
theorem knows_pointerStep (hs : Knows u hashtext t K s) (hl : K.locked = true) {path : PathBuf}
    (hp : pointerPath (u t).tenant (u t).func = some path) {c : FsCall} {r : FsRes c}
    (he : (uploadThread u hashtext t).exec s (.inl c) r s') (hmarked : marked u t s' = some true)
    (htemps : s'.state.files.temps = s.state.files.temps)
    (hget : ∀ p, p ≠ path → s.state.files.temps p ≠ some t →
      s'.state.files.tree.get p = s.state.files.tree.get p) {digest : Option Str}
    (hptr : PointerIs s'.state.files (u t).tenant (u t).func digest) :
    (uploadThread u hashtext t).guar (.inl c) s s' ∧
      Knows u hashtext t { K with mark := some true, pointer := some digest } s' := by
  obtain ⟨⟨ch, hx⟩, htr, -⟩ := he
  obtain ⟨-, hdb⟩ := uploadExec_file hx
  have hrow : ∀ tenant func, s'.state.db.committed tenant func = s.state.db.committed tenant func :=
    fun _ _ => by rw [hdb]
  -- every other pointer stays
  have hother : ∀ tenant func, ¬ ((u t).tenant = tenant ∧ (u t).func = func) →
      SamePointer tenant func s.state.files s'.state.files := by
    intro tenant func hne q hq b m
    rw [hget q (fun heq => hne (pointerPath_inj hp (heq ▸ hq)))
      fun ht => pointerPath_not_temp hq (s.state.files.temp_named _ _ ht)]
  have hblob : ∀ d, isValidDigest d = true → HasBlob d s.state.files → HasBlob d s'.state.files := by
    rintro d hd' ⟨b, m', hb⟩
    exact ⟨b, m', (hget _ (wasmPath_ne_pointer hd' hp)
      fun ht => wasmPath_not_temp hd' (s.state.files.temp_named _ _ ht)).trans hb⟩
  have hinv : UploadInv u s' := by
    refine ⟨fun tenant func => ?_, fun tenant func d hd' => ?_⟩
    · by_cases hname : (u t).tenant = tenant ∧ (u t).func = func
      · exact .inr ⟨t, hname.1, hname.2, hmarked⟩
      · refine (hs.inv.agree tenant func).imp (·.congr (hother _ _ hname) (hrow _ _)) ?_
        rintro ⟨v, hvt, hvf, hv⟩
        refine ⟨v, hvt, hvf, ?_⟩
        by_cases hvv : v = t
        · exact hvv ▸ hmarked
        · rwa [marked_other hvv htr]
    · obtain ⟨hvalid, hb⟩ := hs.inv.blobs tenant func d (hrow _ _ ▸ hd')
      exact ⟨hvalid, hblob d hvalid hb⟩
  have hrely : ∀ v, v ≠ t → Rely u hashtext v s s' := by
    refine fun v hv => ⟨hinv, by rw [hdb], fun k => by rw [hdb]; exact id,
      by rw [htr, Trace.of_cons_ne hv.symm], fun p ht => ⟨by rw [htemps]; exact ht, fun b m hb => ?_⟩,
      by rw [hdb], hblob, fun _ _ => hrow _ _, fun hlv func => hother _ _ fun hname => hv ?_⟩
    · rwa [hget p (fun heq => pointerPath_not_temp hp (heq ▸ s.state.files.temp_named p v ht))
        (by simp [ht, hv])] at hb
    · -- two holders of one lock
      have := hs.locked hl
      rw [hname.1, hlv] at this
      exact Option.some.inj this
  refine ⟨⟨hinv, hrely⟩, ?_⟩
  exact
    { inv := hinv
      tx := by rw [hdb]; exact hs.tx
      locked := by rw [hdb]; exact hs.locked
      mark := hmarked
      failed := by
        rw [htr, Trace.of_cons_self, List.any_cons, hs.failed]
        rfl
      tenantId := by rw [hdb]; exact hs.tenantId
      blob := fun d hd' => ⟨(hs.blob d hd').1, hblob d (hs.blob d hd').1 (hs.blob d hd').2⟩
      row := fun hl o ho => (hrow _ _).trans (hs.row hl o ho)
      pointer := fun _ o ho => by cases ho; exact hptr }

/-- The pointer write. -/
theorem knows_publish_pointer {A : Choice → Prop} {path tmp : PathBuf} {digest : Str} {m : Nat}
    (hs : Knows u hashtext t K s) (hl : K.locked = true)
    (hp : pointerPath (u t).tenant (u t).func = some path) (hd : isValidDigest digest = true)
    (h : Published (fun s => s.state.files) (uploadThread u hashtext t).inl t A path
      (.ofStr digest) tmp m s s') :
    (uploadThread u hashtext t).inl.guar (.rename tmp path) s s' ∧
      Knows u hashtext t { K with mark := some true, pointer := some (some digest) } s' := by
  obtain ⟨hput, hget⟩ := renamed_get h.view_eq h.mine (pointerPath_not_temp hp) h.notDir
  have htemps : s'.state.files.temps = s.state.files.temps := by
    have := h.view_eq
    rw [this]
    rfl
  refine knows_pointerStep hs hl hp h.exec ?_ htemps hget ⟨hd, path, digest, m, hp, ?_, hput⟩
  · rw [marked_self h.exec.2.1]
    simp [mark, pointerWrite, hp]
  · exact trim_digest hd

/-- The removal of the pointer, by an upload that has written it before. -/
theorem knows_remove_pointer {path : PathBuf} (hs : Knows u hashtext t K s) (hl : K.locked = true)
    (hm : K.mark = some true) (hp : pointerPath (u t).tenant (u t).func = some path)
    {r : FsRes (.removeFile path)}
    (he : (uploadThread u hashtext t).exec s (.inl (.removeFile path)) r s')
    (hr : ∀ e, r = .error e → e = .notFound) :
    (uploadThread u hashtext t).guar (.inl (.removeFile path)) s s' ∧
      Knows u hashtext t { K with mark := some true, pointer := some none } s' := by
  obtain ⟨ch, hx⟩ := he.1
  obtain ⟨hx, -⟩ := uploadExec_file hx
  have hmarked : marked u t s' = some true := by
    rw [marked_self he.2.1, mark_quiet (.inr (.inr ⟨path, rfl⟩)), Option.none_or, hs.mark, hm]
  have hnone : ∀ {s₁ : State τ}, s₁.tree.get path = none →
      PointerIs s₁ (u t).tenant (u t).func none := by
    intro s₁ hn q hq b m
    rw [Option.some.inj (hq.symm.trans hp), hn]
    exact nofun
  obtain ⟨b, m, rfl, hb, hv⟩ | ⟨e, rfl, hv, -, hn⟩ := exec_removeFile hx
  · have hne : path ≠ [] := by
      rintro rfl
      cases hb
    refine knows_pointerStep hs hl hp he hmarked (by rw [hv]; rfl) (fun p hpp _ => ?_) (hnone ?_)
    · rw [hv]
      exact DirTree.get_del_ne _ hpp
    · rw [hv]
      exact DirTree.get_del _ hne
  · refine knows_pointerStep hs hl hp he hmarked (by rw [hv]) (fun _ _ _ => by rw [hv]) (hnone ?_)
    rw [hv]
    exact hn (hr e rfl)

/-! ## Steps on the database -/

/-- A step of `t` that changes no committed row but those of its own name. -/
theorem rely_db {c : DbCall} {r : DbRes c}
    (he : (uploadThread u hashtext t).exec s (.inr c) r s') (hinv : UploadInv u s')
    (hrow : ∀ tenant, s.state.db.locks (hashtext tenant) ≠ some t →
      ∀ func, s'.state.db.committed tenant func = s.state.db.committed tenant func) :
    (uploadThread u hashtext t).guar (.inr c) s s' := by
  obtain ⟨⟨ch, hx⟩, htr, -⟩ := he
  obtain ⟨hx, hfiles⟩ := uploadExec_db hx
  have hframe := Db.exec_frame hx
  refine ⟨hinv, fun v hv => ⟨hinv, hframe.txs v hv, fun k hk => (hframe.locks v k hv).2 hk,
    by rw [htr, Trace.of_cons_ne hv.symm], fun p ht => ?_, hframe.tenantIds, fun d _ => ?_,
    fun hl => ?_, fun _ func path _ b m => ?_⟩⟩
  · rw [hfiles]
    exact ⟨ht, fun _ _ => id⟩
  · rw [hfiles]
    exact id
  · exact hrow _ fun ht => hv (Option.some.inj (hl.symm.trans ht))
  · rw [hfiles]

/-- A statement other than a commit: only the transaction and the locks of `t` change. -/
theorem knows_statement (hs : Knows u hashtext t K s) {c : DbCall} {r : DbRes c} (hc : c ≠ .commit)
    (he : (uploadThread u hashtext t).exec s (.inr c) r s') (locked : Bool)
    (hl : locked = true → s'.state.db.locks (hashtext (u t).tenant) = some t)
    (hfacts : locked = true → K.locked = true ∨ K.row = none ∧ K.pointer = none) :
    (uploadThread u hashtext t).guar (.inr c) s s' ∧
      Knows u hashtext t { K with tx := s'.state.db.txs t, locked } s' := by
  obtain ⟨⟨ch, hx⟩, htr, hok⟩ := he
  obtain ⟨hx', hfiles⟩ := uploadExec_db hx
  have hframe := Db.exec_frame hx'
  have hrow : ∀ tenant func, s'.state.db.committed tenant func = s.state.db.committed tenant func :=
    fun _ _ => by rw [Db.committed, Db.committed, hframe.tenantIds, hframe.functions hc]
  have hmark : ∀ v, marked u v s' = marked u v s := by
    intro v
    by_cases hv : v = t
    · subst hv
      rw [marked_self htr]
      cases c <;> first | rfl | exact absurd rfl hc
    · exact marked_other hv htr
  have hinv : UploadInv u s' := by
    refine ⟨fun tenant func => (hs.inv.agree tenant func).imp
      (·.congr (by rw [hfiles]; exact fun _ _ _ _ => .rfl) (hrow _ _)) ?_, fun tenant func d hd => ?_⟩
    · simp only [hmark]
      exact id
    · rw [hfiles]
      exact hs.inv.blobs tenant func d (hrow _ _ ▸ hd)
  refine ⟨rely_db ⟨⟨ch, hx⟩, htr, hok⟩ hinv fun _ _ => hrow _, hinv, rfl, hl,
    (hmark t).trans hs.mark, ?_, fun i hi => ?_, fun d hd => ?_, fun hl' h hh => ?_,
    fun hl' h hh => ?_⟩
  · rw [htr, Trace.of_cons_self, List.any_cons, hs.failed]
    cases c <;> first | rfl | exact absurd rfl hc
  · rw [hframe.tenantIds]
    exact hs.tenantId i hi
  · rw [hfiles]
    exact hs.blob d hd
  · obtain hk | hk := hfacts hl'
    · exact (hrow _ _).trans (hs.row hk h hh)
    · cases hk.1.symm.trans hh
  · rw [hfiles]
    obtain hk | hk := hfacts hl'
    · exact hs.pointer hk h hh
    · cases hk.2.symm.trans hh

/-- **The end of a transaction by a commit**: either its rows are committed, which are of its own
name, or the committed rows stay. -/
theorem knows_commit (hs : Knows u hashtext t K s) (hl : K.locked = true) {r : DbRes .commit}
    (he : (uploadThread u hashtext t).exec s (.inr .commit) r s')
    (hrow : ∀ tenant func, ¬ ((u t).tenant = tenant ∧ (u t).func = func) →
      s'.state.db.committed tenant func = s.state.db.committed tenant func)
    (hown : ∀ d, s'.state.db.committed (u t).tenant (u t).func = some d →
      isValidDigest d = true ∧ HasBlob d s.state.files)
    (hagree : marked u t s' = some true ∨ Agree s'.state (u t).tenant (u t).func) :
    (uploadThread u hashtext t).guar (.inr .commit) s s' ∧ UploadInv u s' := by
  obtain ⟨⟨ch, hx⟩, htr, hok⟩ := he
  obtain ⟨hx', hfiles⟩ := uploadExec_db hx
  have hinv : UploadInv u s' := by
    refine ⟨fun tenant func => ?_, fun tenant func d hd => ?_⟩
    · by_cases hname : (u t).tenant = tenant ∧ (u t).func = func
      · obtain ⟨rfl, rfl⟩ := hname
        exact hagree.symm.imp_right fun hm => ⟨t, rfl, rfl, hm⟩
      · refine (hs.inv.agree tenant func).imp
          (·.congr (by rw [hfiles]; exact fun _ _ _ _ => .rfl) (hrow _ _ hname)) ?_
        rintro ⟨v, hvt, hvf, hv⟩
        refine ⟨v, hvt, hvf, ?_⟩
        have hne : v ≠ t := by
          rintro rfl
          exact hname ⟨hvt, hvf⟩
        rwa [marked_other hne htr]
    · rw [hfiles]
      by_cases hname : (u t).tenant = tenant ∧ (u t).func = func
      · obtain ⟨rfl, rfl⟩ := hname
        exact hown d hd
      · exact hs.inv.blobs tenant func d (hrow _ _ hname ▸ hd)
  refine ⟨rely_db ⟨⟨ch, hx⟩, htr, hok⟩ hinv fun tenant hlock func =>
    hrow _ _ fun hname => hlock ?_, hinv⟩
  exact hname.1 ▸ hs.locked hl

end

end Warpline
