import Warpline.Conc.Trace
import Warpline.Core.Proof.CacheCoherence
import Warpline.Core.Proof.RegistryPaths

/-!
# Staging and publishing fail cleanly

A `stage` that ends in `Compile` or `ImportMismatch` has only read, and a `publish` that fails has
changed no pointer, whatever happens to the files meanwhile. Where it succeeds and no blob is
collected, the blob stays, and an activation of its digest makes an invocation load it.

The two failures are read off the calls made by the time of the result (`Thread.noting`). For the
success every other operation is judged by its calls (`RegistryCall`): none of them removes a blob or
writes another function's pointer.
-/

set_option autoImplicit false

namespace Warpline

open Conc Fs

/-! ## Failures -/

section
variable {tenant func : Str}

theorem compile_calls (W : Wasm) (engine : W.Engine) (wasm : Bytes) :
    (compile W engine wasm cwasmDir).run.Calls fun c => c.readOnly = true := by
  refine .liftE (cached_calls W engine _ _) fun c => ?_
  cases c with
  | some component => trivial
  | none =>
    show Prog.Calls _ (componentNew W engine wasm >>= fun component =>
      pure (component, W.digest wasm, true)).run
    unfold componentNew
    split <;> trivial

/-- By the time `stage` has failed to compile or to typecheck, it has only read. -/
theorem noted_stage (W : Wasm) (engine : W.Engine) (wasm : Bytes) :
    Sat (Thread.noting (fun _ _ => True) fun (c : FsCall) _ => c.readOnly = true)
      (fun r b => r = .error .compile ∨ r = .error .importMismatch → b)
      (stage W engine wasm).run True := by
  refine Sat.bindE (Sat.mapErr ((Sat.noted_calls (fun _ _ hc _ => hc)
    (compile_calls W engine wasm) trivial).mono fun r b hb => ?_))
  rcases r with e | ⟨component, digest, fresh⟩
  · exact fun _ => hb
  show Sat _ _ (typecheckComponent W engine component >>= _).run b
  unfold typecheckComponent
  split
  swap
  · exact fun _ => hb
  -- from here on every error is one of the registry
  have hregistry : ∀ {α β : Type} {p : ExceptT Error FsM α} {f : α → ExceptT PublishError FsM β}
      {Q : Except PublishError β → Prop → Prop} {b : Prop},
      (∀ e b, Q (.error (intoPublishErr e)) b) →
      (∀ a b, Sat (Thread.noting (fun _ _ => True) fun (c : FsCall) _ => c.readOnly = true) Q
        (f a).run b) →
      Sat (Thread.noting (fun _ _ => True) fun (c : FsCall) _ => c.readOnly = true) Q
        (Prog.mapErr intoPublishErr p >>= f).run b := by
    intro α β p f Q b he hf
    refine Sat.bindE (Sat.mapErr (Sat.noting_trivial.mono fun r b _ => ?_))
    cases r with
    | error e => exact he e b
    | ok a => exact hf a b
  have herror : ∀ (e : Error) (b : Prop), ((Except.error (intoPublishErr e) :
      Except PublishError Staged) = .error .compile ∨
        (Except.error (intoPublishErr e) : Except PublishError Staged) = .error .importMismatch) →
      b := by
    intro e b h
    obtain h | h := h <;> cases e <;> cases h
  have hsource : ∀ b, Sat (Thread.noting (fun _ _ => True) fun (c : FsCall) _ => c.readOnly = true)
      (fun r b => r = .error .compile ∨ r = .error .importMismatch → b) (do
        Prog.mapErr intoPublishErr (writeWasmSource digest wasm)
        pure ⟨digest⟩ : ExceptT PublishError FsM Staged).run b := by
    intro b
    refine hregistry herror fun _ b h => ?_
    obtain h | h := h <;> cases h
  cases fresh with
  | true => exact hregistry herror fun _ b => hsource b
  | false => exact Sat.liftE (Sat.noting_trivial.mono fun _ b _ => hsource b)

end

/-! ## What a call of the registry changes -/

section
variable {tenant func : Str} {writes : Bool}

theorem RegistryDir.length_le {dir : PathBuf} (h : RegistryDir tenant dir) : dir.length ≤ 2 := by
  cases h <;> simp

theorem BlobPath.length {p : PathBuf} (h : BlobPath p) : p.length = 2 := by
  cases h <;> rfl

theorem TempOf.tempPath {p : PathBuf} (h : TempOf tenant p) : TempPath p := by
  obtain ⟨dir, suffix, -, rfl⟩ := h
  exact ⟨dir, suffix, rfl⟩

theorem RegistryCall.createDirAll_inv {dir : PathBuf}
    (h : RegistryCall tenant func writes (.createDirAll dir)) : RegistryDir tenant dir := by
  cases h with
  | reading hc => cases hc
  | createDirAll h => exact h

theorem RegistryCall.touch_inv {p : PathBuf} (h : RegistryCall tenant func writes (.touch p)) :
    BlobPath p := by
  cases h with
  | reading hc => cases hc
  | touch h => exact h

theorem RegistryCall.removeFile_inv {p : PathBuf}
    (h : RegistryCall tenant func writes (.removeFile p)) :
    TempOf tenant p ∨ writes = true ∧ p = pointerForm tenant func := by
  cases h with
  | reading hc => cases hc
  | removeTemp h => exact .inl h
  | removePointer hw => exact .inr ⟨hw, rfl⟩

theorem RegistryCall.rename_inv {src dest : PathBuf}
    (h : RegistryCall tenant func writes (.rename src dest)) :
    TempOf tenant src ∧ (BlobPath dest ∨ writes = true ∧ dest = pointerForm tenant func) := by
  cases h with
  | reading hc => cases hc
  | renameBlob h hd => exact ⟨h, .inl hd⟩
  | renamePointer hw h => exact ⟨h, .inr ⟨hw, rfl⟩⟩

variable {τ : Type} [DecidableEq τ] {t : τ} {ch : Choice} {s s' : State τ} {c : FsCall} {r : FsRes c}

/-- A pointer stays as it is, but for the one that may be written. -/
theorem RegistryCall.get_pointer (h : RegistryCall tenant func writes c)
    (hx : exec t ch s c = some (r, s')) {tenant' func' : Str} {path : PathBuf}
    (hp : pointerPath tenant' func' = some path)
    (hne : writes = true → (tenant', func') ≠ (tenant, func)) :
    s'.tree.get path = s.tree.get path := by
  have htemp := pointerPath_not_temp hp
  have hlen := pointerPath_length hp
  have hother : ¬ (writes = true ∧ path = pointerForm tenant func) := by
    rintro ⟨hw, hpath⟩
    obtain ⟨rfl, rfl⟩ := pointerForm_inj ((pointerPath_form hp).1.symm.trans hpath)
    exact hne hw rfl
  have hblob : ¬ BlobPath path := by
    intro hb
    have := hb.length
    omega
  refine exec_get_of_ne hx htemp (fun dir hc hpre => ?_) (fun hc => ?_) (fun hc => ?_)
    fun q => ⟨fun hc => ?_, fun hc => ?_⟩
  · subst hc
    have := h.createDirAll_inv.length_le
    have := hpre.length_le
    omega
  · subst hc
    exact hblob h.touch_inv
  · subst hc
    exact h.removeFile_inv.elim (fun ht => htemp ht.tempPath) hother
  · subst hc
    exact htemp h.rename_inv.1.tempPath
  · subst hc
    exact h.rename_inv.2.elim hblob hother

/-- A source blob stays. -/
theorem RegistryCall.hasBlob (h : RegistryCall tenant func writes c)
    (hx : exec t ch s c = some (r, s')) {digest : Str} (hd : isValidDigest digest = true)
    (hs : HasBlob digest s) : HasBlob digest s' := by
  obtain ⟨b, m, hb⟩ := hs
  have htemp := wasmPath_not_temp hd
  have hne : wasmPath digest ≠ [] := by
    rw [wasmPath_eq hd]
    exact PathBuf.child_ne_nil _ _
  by_cases hq : c.quiet = true
  · exact ⟨b, m, (exec_quiet hq hx).get_file htemp hb⟩
  have hkeep : s'.tree.get (wasmPath digest) = s.tree.get (wasmPath digest) → HasBlob digest s' :=
    fun he => ⟨b, m, he.trans hb⟩
  cases c with
  | touch p =>
    obtain ⟨b', m', -, hb', hv⟩ | ⟨e, -, hv, -⟩ := exec_touch hx
    · by_cases hp : wasmPath digest = p
      · exact ⟨b', ch.now, by rw [hv, ← hp]; exact DirTree.get_put _ _ hne⟩
      · exact hkeep (by rw [hv]; exact DirTree.get_put_ne _ _ hp)
    · exact hkeep (by rw [hv])
  | removeFile p =>
    have hp : wasmPath digest ≠ p := by
      rintro rfl
      obtain ht | ⟨-, hform⟩ := h.removeFile_inv
      · exact htemp ht.tempPath
      · have := congrArg List.length hform
        rw [(blob_wasm hd).length] at this
        cases this
    obtain ⟨b', m', -, -, hv⟩ | ⟨e, -, hv, -⟩ := exec_removeFile hx
    · exact hkeep (by rw [hv]; exact DirTree.get_del_ne _ hp)
    · exact hkeep (by rw [hv])
  | rename src dest =>
    have hsrc : wasmPath digest ≠ src := by
      rintro rfl
      exact htemp h.rename_inv.1.tempPath
    obtain ⟨b', m', -, -, -, -, hv⟩ | ⟨e, -, hv, -⟩ := exec_rename hx
    · by_cases hp : wasmPath digest = dest
      · exact ⟨b', m', by rw [hv, ← hp]; exact DirTree.get_put _ _ hne⟩
      · refine hkeep ?_
        rw [hv, State.renamed, State.setTree_tree, DirTree.get_put_ne _ _ hp,
          DirTree.get_del_ne _ hsrc]
    · exact hkeep (by rw [hv])
  | _ => exact absurd rfl hq

end

section
variable {tenant func : Str}

/-- The calls that leave every pointer alone. -/
def PointersKept : (c : FsCall) → FsRes c → Prop
  | .rename _ _, .error _ => True
  | c, _ => ∃ tenant func, RegistryCall tenant func false c

theorem RegistryCall.pointersKept {c : FsCall} {r : FsRes c}
    (h : RegistryCall tenant func false c) : PointersKept c r := by
  cases c with
  | rename src dest =>
    cases r with
    | error e => trivial
    | ok _ => exact ⟨tenant, func, h⟩
  | _ => exact ⟨tenant, func, h⟩

theorem PointersKept.get_pointer {τ : Type} [DecidableEq τ] {t : τ} {ch : Choice} {s s' : State τ}
    {c : FsCall} {r : FsRes c} (h : PointersKept c r) (hx : exec t ch s c = some (r, s'))
    {path : PathBuf} (hp : pointerPath tenant func = some path) :
    s'.tree.get path = s.tree.get path := by
  have hcall : (∃ tenant func, RegistryCall tenant func false c) →
      s'.tree.get path = s.tree.get path :=
    fun ⟨_, _, h⟩ => h.get_pointer hx hp fun hw => by cases hw
  cases c with
  | rename src dest =>
    cases r with
    | error e =>
      obtain ⟨b, m, he, -⟩ | ⟨e', -, rfl, -⟩ := exec_rename hx
      · cases he
      · rfl
    | ok _ => exact hcall h
  | _ => exact hcall h

theorem noted_activate {staged : Staged} {b : Prop} (hb : b) :
    Sat (Thread.noting GoodAnswer PointersKept) (fun r b => r.toBool = false → b)
      (activate tenant func staged).run b := by
  unfold activate
  split
  · exact fun _ => hb
  refine Sat.mapErr ?_
  unfold writePointer
  split
  · exact fun _ => hb
  split
  · exact fun _ => hb
  rename_i path hp
  have hdir := (path_pointer hp).2
  have hcall : ∀ {c : FsCall} {r : FsRes c} {b b' : Prop}, RegistryCall tenant func false c → b →
      (Thread.noting GoodAnswer PointersKept).exec b c r b' → b' := by
    intro c r b b' hc hb he
    rw [he.2]
    exact ⟨hc.pointersKept, hb⟩
  refine (sat_atomicWrite_calls (R := fun b => b) (S := fun _ => True) (P := TempOf tenant)
    (fun _ => Thread.noting_stable) hb ?_ ?_ ?_ ?_).mono fun r b h => ?_
  · exact fun hb he => ⟨trivial, hcall (.createDirAll hdir) hb he⟩
  · intro b r b' hb he
    refine ⟨trivial, hcall (.createTemp hdir) hb he, fun tmp hr => ?_⟩
    subst hr
    obtain ⟨suffix, hsuffix⟩ := he.1
    exact ⟨path.parent, suffix, hdir, hsuffix⟩
  · exact fun htmp hc hb he => ⟨trivial, hcall (hc.registry htmp) hb he⟩
  · intro tmp b r b' htmp hb he
    refine ⟨trivial, ?_⟩
    cases r with
    | ok _ => trivial
    | error e =>
      show b'
      rw [he.2]
      exact ⟨trivial, hb⟩
  · cases r with
    | ok _ => exact fun h => by cases h
    | error e => exact fun _ => h

/-- By the time `publish` has failed, it has changed no pointer. -/
theorem noted_publish (W : Wasm) (engine : W.Engine) (wasm : Bytes) :
    Sat (Thread.noting GoodAnswer PointersKept) (fun r b => r.toBool = false → b)
      (publish W engine tenant func wasm).run True := by
  unfold publish
  split
  · exact fun _ => trivial
  refine Sat.bindE ((Sat.noted (Q := fun _ => True) (fun _ _ hc _ => hc.pointersKept)
    (judged_stage W engine : Sat (registryThread tenant func false) _ _ _) trivial).mono
    fun r b hb => ?_)
  cases r with
  | error e => exact fun _ => hb.2
  | ok staged =>
    refine Sat.bindE ((noted_activate hb.2).mono fun r b hb => ?_)
    cases r with
    | error e => exact hb
    | ok _ => exact fun h => by cases h

end

/-! ## Any number of operations -/

section
variable {W : Wasm} {L : LruCrate Str (CacheEntry W.HandlerPre)} {κ τ : Type} [DecidableEq κ]
  [DecidableEq τ]

/-- The operations over files and caches that may change in any way in between. -/
def looseSystem (L : LruCrate Str (CacheEntry W.HandlerPre)) (F : Fleet W κ τ) :
    System τ (Modules L κ τ) (LoadCall W) LoadRes :=
  { moduleSystem L F with env := fun _ _ _ => True }

abbrev TracedModules (L : LruCrate Str (CacheEntry W.HandlerPre)) (κ τ : Type) :=
  Config τ (Traced τ (Modules L κ τ) (LoadCall W) LoadRes) (LoadCall W) LoadRes fun _ => ModuleOut W

def modulesFrom (F : Fleet W κ τ) (ops : τ → ModuleOp) (s₀ : Modules L κ τ) :
    TracedModules L κ τ :=
  ⟨⟨s₀, []⟩, fun t => (ops t).run (F.engine (F.runtime t))⟩

theorem moduleExec_good {F : Fleet W κ τ} {me : τ} {ch : Choice} {s s' : Modules L κ τ}
    {c : LoadCall W} {r : LoadRes c} (h : moduleExec F me ch s c = some (r, s')) :
    onLeft GoodAnswer c r := by
  cases c with
  | inl c => exact exec_goodAnswer (moduleExec_file h).1
  | inr c => trivial

variable {F : Fleet W κ τ} {ops : τ → ModuleOp} {s₀ : Modules L κ τ} {C : TracedModules L κ τ}
  {t : τ}

/-- A failed `stage` has only read. -/
theorem stage_only_reads (hr : Reach (looseSystem L F).traced (modulesFrom F ops s₀) C)
    {wasm : Bytes} (hop : ops t = .stage wasm) {e : PublishError}
    (hret : C.prog t = .ret (.staged (.error e))) (he : e = .compile ∨ e = .importMismatch)
    {c : FsCall} {r : FsRes c} (hm : (t, ⟨.inl c, r⟩) ∈ C.shared.trace) : c.readOnly = true := by
  have hsat : Sat (Thread.noting (onLeft fun _ _ => True)
      (onLeft fun (c : FsCall) (_ : FsRes c) => c.readOnly = true))
      (fun out b => ∀ r, out = .staged r → r = .error .compile ∨ r = .error .importMismatch → b)
      ((ops t).run (F.engine (F.runtime t))) True := by
    rw [hop]
    refine Sat.bind (Sat.of_inl ((noted_stage W _ wasm).mono fun r b hb r' hr => ?_))
    cases hr
    exact hb
  have hgood : ∀ pend s c r s', (looseSystem L F).exec pend t s c r s' →
      onLeft (fun _ _ => True) c r := by
    rintro - - (c | c) - - - <;> trivial
  have hall := hr.noted rfl hgood hsat hret _ rfl (he.imp (congrArg _) (congrArg _))
  exact hall _ (Trace.mem_of.2 hm)

/-- A failed `publish` has changed no pointer. -/
theorem publish_keeps_pointers (hr : Reach (looseSystem L F).traced (modulesFrom F ops s₀) C)
    {tenant func : Str} {wasm : Bytes} (hop : ops t = .publish tenant func wasm) {e : PublishError}
    (hret : C.prog t = .ret (.staged (.error e))) {c : FsCall} {r : FsRes c}
    (hm : (t, ⟨.inl c, r⟩) ∈ C.shared.trace) : PointersKept c r := by
  have hsat : Sat (Thread.noting (onLeft GoodAnswer) (onLeft PointersKept))
      (fun out b => ∀ r, out = .staged r → r.toBool = false → b)
      ((ops t).run (F.engine (F.runtime t))) True := by
    rw [hop]
    refine Sat.bind (Sat.of_inl ((noted_publish W _ wasm).mono fun r b hb r' hr => ?_))
    cases hr
    exact hb
  have hall := hr.noted rfl (fun _ _ _ _ _ ⟨_, hx⟩ => moduleExec_good hx) hsat hret _ rfl rfl
  exact hall _ (Trace.mem_of.2 hm)

/-! ## What the operations other than `gc` call -/

/-- The pointer an operation writes. -/
def ModuleOp.pointer? : ModuleOp → Option (Str × Str)
  | .activate tenant func _ | .activateDigest tenant func _ | .deactivate tenant func
  | .publish tenant func _ => some (tenant, func)
  | .stage _ | .gc _ | .fetch _ _ => none

/-- A call of the registry that writes no pointer but the operation's. -/
def ModuleOp.Makes (op : ModuleOp) : LoadCall W → Prop :=
  Sum.elim (fun c => ∃ tenant func writes, RegistryCall tenant func writes c ∧
    (writes = true → op.pointer? = some (tenant, func))) fun _ => True

abbrev opJudge (W : Wasm) (op : ModuleOp) : Thread Unit (LoadCall W) LoadRes :=
  Thread.judged (onLeft GoodAnswer) op.Makes

/-- Programs judged by `(tenant, func)`. -/
theorem judged_names {op : ModuleOp} {tenant func : Str} {writes : Bool} {α : Type}
    {Q : α → Unit → Prop} {p : LoadM W α} {s : Unit}
    (hw : writes = true → op.pointer? = some (tenant, func))
    (h : Sat (loadJudge W tenant func writes) Q p s) : Sat (opJudge W op) Q p s := by
  refine h.weaken (fun _ _ _ _ he => he) (fun _ _ _ hr => hr) fun _ c _ _ _ hc => ?_
  cases c with
  | inl c => exact ⟨tenant, func, writes, hc, hw⟩
  | inr c => trivial

theorem judged_fetchDigest {tenant func digest : Str} {writes : Bool} (engine : W.Engine)
    (hd : isValidDigest digest = true) {s : Unit} :
    Sat (loadJudge W tenant func writes) (fun _ _ => True) (fetchDigest engine digest).run s := by
  unfold fetchDigest
  refine judged_cacheHit fun hit s => ?_
  cases hit with
  | some pre => trivial
  | none =>
    refine Sat.bindE ((judged_loadExisting engine hd).mono fun r s _ => ?_)
    rcases r with e | (pre | _)
    · trivial
    · trivial
    · exact judged_getOrLoad engine hd

theorem judged_fetchNamed {tenant func : Str} {writes : Bool} (engine : W.Engine) {s : Unit} :
    Sat (loadJudge W tenant func writes) (fun _ _ => True)
      (fetchNamed engine tenant func).run s := by
  unfold fetchNamed
  refine Sat.bindE ((judged_onDisk judged_readPointer).mono fun r s hr => ?_)
  rcases r with e | (_ | digest)
  · trivial
  · trivial
  · exact Sat.liftE ((judged_fetchDigest engine (hr digest rfl)).mono fun _ _ _ => trivial)

theorem judged_moduleOp {op : ModuleOp} (hop : ∀ grace, op ≠ .gc grace) (engine : W.Engine)
    {s : Unit} : Sat (opJudge W op) (fun _ _ => True) (op.run engine) s := by
  have hfiles : ∀ {ε α : Type} {tenant func : Str} {writes : Bool} {p : ExceptT ε FsM α}
      {f : Except ε α → ModuleOut W} {s : Unit},
      (writes = true → op.pointer? = some (tenant, func)) →
      Sat (registryThread tenant func writes) (fun _ _ => True) p.run s →
        Sat (opJudge W op) (fun _ _ => True) (p.run.inl >>= fun r => .ret (f r)) s :=
    fun hw h => Sat.bind ((judged_names hw (Sat.judged_inl h)).mono fun _ _ _ => trivial)
  cases op with
  | stage wasm =>
    exact hfiles (fun h => by cases h)
      (judged_stage W engine : Sat (registryThread [] [] false) _ _ _)
  | activate tenant func staged => exact hfiles (fun _ => rfl) judged_activate
  | activateDigest tenant func digest => exact hfiles (fun _ => rfl) judged_activateDigest
  | deactivate tenant func => exact hfiles (fun _ => rfl) judged_deactivate
  | publish tenant func wasm => exact hfiles (fun _ => rfl) (judged_publish W engine)
  | gc grace => exact absurd rfl (hop grace)
  | fetch tenant func =>
    exact Sat.bind ((judged_names (fun h : false = true => by cases h)
      (judged_fetchNamed engine)).mono fun _ _ _ => trivial)

/-! ## Staging, then loading -/

/-- `stage`, then `activate`, then what an invocation does to get its component. -/
def stageThenFetch (engine : W.Engine) (tenant func : Str) (wasm : Bytes) :
    ExceptT PublishError (LoadM W) (Staged × Except Error (Option W.HandlerPre)) := do
  let staged ← onDisk (stage W engine wasm)
  onDisk (activate tenant func staged)
  let fetched ← ((fetch engine tenant func).run : LoadM W _)
  pure (staged, fetched)

/-- What is at one of `paths` is read without an I/O error. -/
def ReadsBack (paths : List PathBuf) (s : Modules L κ τ) : (c : LoadCall W) → LoadRes c → Prop
  | .inl (.read p), (r : Except IoError Bytes) =>
    p ∈ paths → ∀ b m, s.files.tree.get p = some (.file b m) → r = .ok b
  | .inl (.readToString p), (r : Except IoError Str) =>
    p ∈ paths → ∀ str m, s.files.tree.get p = some (.file (.ofStr str) m) → r = .ok str
  | _, _ => True

/-- What the others leave to the uploader of `digest`. -/
structure Undisturbed (digest tenant func : Str) (s s' : Modules L κ τ) : Prop where
  blob : HasBlob digest s.files → HasBlob digest s'.files
  pointer : ∀ path, pointerPath tenant func = some path →
    s'.files.tree.get path = s.files.tree.get path

/-- The setting of `t`, which uploads `digest` for `(tenant, func)`. -/
def uploaderThread (F : Fleet W κ τ) (ops : τ → ModuleOp) (digest tenant func : Str)
    (paths : List PathBuf) (t : τ) : Thread (Modules L κ τ) (LoadCall W) LoadRes where
  exec := fun s c r s' =>
    (∃ ch, moduleExec F t ch s c = some (r, s')) ∧ ReadsBack paths s c r ∧ (ops t).Makes c
  rely := fun _ s s' => ModulesRely F ops t s s' ∧ Undisturbed digest tenant func s s'
  guar := fun _ s s' => Coherent F ops s' ∧ ∀ u, u ≠ t → ModulesRely F ops u s s'

theorem ModuleOp.Makes.hasBlob {op : ModuleOp} {F : Fleet W κ τ} {ch : Choice}
    {s s' : Modules L κ τ} {c : LoadCall W} {r : LoadRes c} (h : op.Makes c)
    (hx : moduleExec F t ch s c = some (r, s')) {digest : Str} (hd : isValidDigest digest = true)
    (hs : HasBlob digest s.files) : HasBlob digest s'.files := by
  cases c with
  | inl c =>
    obtain ⟨tenant, func, writes, hc, -⟩ := h
    exact hc.hasBlob (moduleExec_file hx).1 hd hs
  | inr c =>
    cases c with
    | hit digest =>
      cases hx
      exact hs
    | insert digest pre weight =>
      cases hx
      exact hs

theorem ModuleOp.Makes.get_pointer {op : ModuleOp} {F : Fleet W κ τ} {ch : Choice}
    {s s' : Modules L κ τ} {c : LoadCall W} {r : LoadRes c} (h : op.Makes c)
    (hx : moduleExec F t ch s c = some (r, s')) {tenant func : Str} {path : PathBuf}
    (hp : pointerPath tenant func = some path) (hop : op.pointer? ≠ some (tenant, func)) :
    s'.files.tree.get path = s.files.tree.get path := by
  cases c with
  | inl c =>
    obtain ⟨tenant', func', writes, hc, hw⟩ := h
    refine hc.get_pointer (moduleExec_file hx).1 hp fun hwrites heq => hop ?_
    rw [hw hwrites, heq]
  | inr c =>
    cases c with
    | hit digest =>
      cases hx
      rfl
    | insert digest pre weight =>
      cases hx
      rfl

end

section
variable {W : Wasm} {L : LruCrate Str (CacheEntry W.HandlerPre)} {κ τ : Type} [DecidableEq κ]
  [DecidableEq τ] {F : Fleet W κ τ} {ops : τ → ModuleOp} {kept : Option Str} {t : τ}
  {digest tenant func : Str} {paths : List PathBuf} {s : Modules L κ τ} {wasm : Bytes}

/-- As long as the blob is there, it can be read. -/
theorem sat_uploader_blob {α : Type} {Q : α → Modules L κ τ → Prop} {p : LoadM W α}
    (hd : isValidDigest digest = true) (hpath : wasmPath digest ∈ paths)
    (hs : HasBlob digest s.files) (h : Sat (moduleThread F ops (some digest) t) Q p s) :
    Sat (uploaderThread F ops digest tenant func paths t)
      (fun a s => Q a s ∧ HasBlob digest s.files) p s := by
  refine h.under (fun s => HasBlob digest s.files) hs ?_ ?_ ?_ ?_
  · exact fun _ _ _ hb hr => hr.2.blob hb
  · intro s c r s' hb he
    refine ⟨he.1, fun digest' hk => ?_⟩
    cases hk
    rcases c with c | c
    · cases c with
      | read p =>
        rintro rfl
        obtain ⟨b, m, hb⟩ := hb
        exact ⟨b, m, hb, he.2.1 hpath b m hb⟩
      | _ => trivial
    · trivial
  · exact fun _ _ _ hr => hr.1
  · intro s c r s' hb he hg
    obtain ⟨⟨ch, hx⟩, -, hmakes⟩ := he
    exact ⟨hg, hmakes.hasBlob hx hd hb⟩

theorem uploader_actor : Actor Modules.files
    (uploaderThread F ops digest tenant func paths t : Thread (Modules L κ τ) _ _).inl t
    (fun _ => True) (Coherent F ops) :=
  (module_actor : Actor Modules.files (moduleThread F ops none t : Thread (Modules L κ τ) _ _).inl t
      (fun _ => True) (Coherent F ops)).weaken
    (fun he => ⟨he.1, fun _ hk => by cases hk⟩) (fun hr => hr.1) fun _ hg => hg

/-- What `compile` returns is compiled from published bytes, cached or not. -/
theorem sat_compileCoherent (hu : Uploaded ops wasm) (hs : Coherent F ops s) :
    Sat (moduleThread F ops kept t : Thread (Modules L κ τ) _ _).inl
      (fun r s => Coherent F ops s ∧ ∀ component digest fresh,
        r = .ok (component, digest, fresh) → digest = W.digest wasm ∧
          CompiledComponent F ops (F.runtime t) (W.digest wasm) component ∧
          (fresh = true → W.componentNew (F.engine (F.runtime t)) wasm = some component))
      (compile W (F.engine (F.runtime t)) wasm cwasmDir).run s := by
  have hcached : Sat (moduleThread F ops kept t : Thread (Modules L κ τ) _ _).inl
      (fun r s => Coherent F ops s ∧ ∀ component, r = some component →
        CompiledComponent F ops (F.runtime t) (W.digest wasm) component)
      (cached W (F.engine (F.runtime t)) cwasmDir (W.digest wasm)) s := by
    have hexists : ∀ p, (pathExists p).Calls fun c => c.readOnly = true :=
      fun p => .bind (.perform rfl) fun _ => trivial
    refine Sat.bind ((module_actor.sat_reading (hexists _) hs).mono fun found s hs => ?_)
    split
    · refine Sat.bind ((sat_loadCwasm hs).mono fun loaded s hr => ?_)
      refine ⟨hr.1, fun component hc => ?_⟩
      cases loaded with
      | error e => cases hc
      | ok c =>
        cases hc
        exact hr.2 _ rfl
    · exact ⟨hs, fun _ h => by cases h⟩
  refine Sat.liftE (hcached.mono fun found s hr => ?_)
  obtain ⟨hs, hcomp⟩ := hr
  cases found with
  | some component =>
    refine ⟨hs, fun c d f h => ?_⟩
    cases h
    exact ⟨rfl, hcomp _ rfl, fun h => by cases h⟩
  | none =>
    show Sat _ _ (componentNew W (F.engine (F.runtime t)) wasm >>= fun component =>
      pure (component, W.digest wasm, true)).run s
    unfold componentNew
    split
    · rename_i component hc
      refine ⟨hs, fun c d f h => ?_⟩
      cases h
      exact ⟨rfl, ⟨wasm, hu, rfl, hc⟩, fun _ => hc⟩
    · exact ⟨hs, fun _ _ _ h => by cases h⟩

theorem sat_uploader_files {α : Type} {Q : α → Modules L κ τ → Prop} {p : FsM α}
    (h : Sat (moduleThread F ops none t : Thread (Modules L κ τ) _ _).inl Q p s) :
    Sat (uploaderThread F ops digest tenant func paths t).inl Q p s :=
  h.weaken (fun _ _ _ _ he => ⟨he.1, fun _ hk => by cases hk⟩) (fun _ _ _ hr => hr.1)
    fun _ _ _ _ _ hg => hg

theorem published_uploader {dest tmp : PathBuf} {b : Bytes} {m : Nat} {s' : Modules L κ τ}
    (h : Published Modules.files (uploaderThread F ops digest tenant func paths t).inl t
      (fun _ => True) dest b tmp m s s') :
    Published Modules.files (moduleThread F ops none t : Thread (Modules L κ τ) _ _).inl t
      (fun _ => True) dest b tmp m s s' :=
  ⟨h.mine, h.held, h.clock, h.notDir, ⟨h.exec.1, fun _ hk => by cases hk⟩, h.view_eq⟩

theorem touched_uploader {p : PathBuf} {b : Bytes} {m now : Nat} {s' : Modules L κ τ}
    (h : Touched Modules.files (uploaderThread F ops digest tenant func paths t).inl
      (fun _ => True) p b m now s s') :
    Touched Modules.files (moduleThread F ops none t : Thread (Modules L κ τ) _ _).inl
      (fun _ => True) p b m now s s' :=
  ⟨h.was, h.clock, ⟨h.exec.1, fun _ hk => by cases hk⟩, h.view_eq⟩

/-- `stage`: where it succeeds the blob is there, and its component fits the handler world. -/
theorem sat_stageKept (hF : Reproducible F ops) (hu : Uploaded ops wasm) (hs : Coherent F ops s) :
    Sat (uploaderThread F ops (W.digest wasm) tenant func paths t).inl
      (fun r s => ∀ staged, r = .ok staged → Coherent F ops s ∧ staged.digest = W.digest wasm ∧
        HasBlob (W.digest wasm) s.files ∧
        ∃ pre, Compiled F ops (F.runtime t) (W.digest wasm) pre)
      (stage W (F.engine (F.runtime t)) wasm).run s := by
  have hw := W.digest_valid wasm
  refine (uploader_actor.sat_stageOf (S := fun s => Coherent F ops s ∧
    HasBlob (W.digest wasm) s.files) uploader_actor (sat_uploader_files (sat_compileCoherent hu hs))
    ?_ ?_ ?_ (fun h _ => h) ?_).mono fun r s hr => ?_
  · intro s s' tmp m c x hc hx hs h
    exact module_publish hs (genuine_cwasm hF hu hc hx) (cwasmPath_not_temp W _ hw)
      (published_uploader h)
  · intro s s' b m now hs h
    exact module_touch hs (cwasmPath_not_temp W _ hw) (touched_uploader h)
  · intro s s' b m now hs h
    obtain ⟨hg, hs'⟩ := module_touch hs (wasmPath_not_temp hw) (touched_uploader h)
    refine ⟨hg, hs', b, now, ?_⟩
    rw [h.view_eq]
    refine DirTree.get_put _ _ fun he => ?_
    have hwas := h.was
    rw [he] at hwas
    cases hwas
  · intro s s' tmp m hs h
    obtain ⟨hg, hs'⟩ := module_publish hs (genuine_wasm hu) (wasmPath_not_temp hw)
      (published_uploader h)
    exact ⟨hg, hs', wasm, m, (renamed_get h.view_eq h.mine (wasmPath_not_temp hw) h.notDir).1⟩
  · intro staged hok
    subst hok
    obtain ⟨⟨hs, hb⟩, hd, component, pre, ⟨b, hu', hb', hc⟩, hp⟩ := hr
    exact ⟨hs, hd, hb, pre, b, component, hu', hb', hc, hp⟩

/-- `activate`: where it succeeds the pointer holds the digest. -/
theorem sat_activateKept {staged : Staged} (hs : Coherent F ops s) :
    Sat (moduleThread F ops kept t : Thread (Modules L κ τ) _ _).inl
      (fun r s => ∀ a, r = .ok a → Coherent F ops s ∧ ∃ path m,
        pointerPath tenant func = some path ∧
          s.files.tree.get path = some (.file (.ofStr staged.digest) m))
      (activate tenant func staged).run s := by
  refine (module_actor.sat_activate (S := fun s => Coherent F ops s ∧ ∃ path m,
    pointerPath tenant func = some path ∧
      s.files.tree.get path = some (.file (.ofStr staged.digest) m)) hs fun hp _ hs h => ?_).mono
    fun r s hr => ?_
  · obtain ⟨hg, hs'⟩ := module_publish hs (genuine_pointer hp) (pointerPath_not_temp hp) h
    exact ⟨hg, hs', _, _, hp, (renamed_get h.view_eq h.mine (pointerPath_not_temp hp) h.notDir).1⟩
  · intro a hok
    subst hok
    exact hr

/-- An invocation finds the digest the pointer holds, and loads it. -/
theorem sat_fetchKept (hF : Reproducible F ops) {path : PathBuf} {m : Nat}
    (hd : isValidDigest digest = true) (hp : pointerPath tenant func = some path)
    (hblob : wasmPath digest ∈ paths) (hpath : path ∈ paths) (hs : Coherent F ops s)
    (hb : HasBlob digest s.files) (hm : s.files.tree.get path = some (.file (.ofStr digest) m))
    (hpre : ∃ pre, Compiled F ops (F.runtime t) digest pre) :
    Sat (uploaderThread F ops digest tenant func paths t)
      (fun r _ => ∃ pre, r = .ok (some pre) ∧ Compiled F ops (F.runtime t) digest pre)
      (fetch (F.engine (F.runtime t)) tenant func).run s := by
  have hread : Sat (uploaderThread F ops digest tenant func paths t).inl
      (fun r s => r = .ok (some digest) ∧ Coherent F ops s ∧ HasBlob digest s.files)
      (readPointer tenant func).run s := by
    unfold readPointer
    rw [hp]
    refine Sat.bind (Sat.perform (fun s => Coherent F ops s ∧ HasBlob digest s.files ∧
      s.files.tree.get path = some (.file (.ofStr digest) m)) ?_ ⟨hs, hb, hm⟩ ?_)
    · rintro s s' ⟨hs, hb, hm⟩ hr
      exact ⟨hr.1.inv, hr.2.blob hb, (hr.2.pointer path hp).trans hm⟩
    · rintro s r s' ⟨hs, hb, hm⟩ he
      obtain ⟨⟨ch, hx⟩, hback, -⟩ := id he
      have hsame := exec_readOnly (c := .readToString path) rfl (moduleExec_file hx).1
      obtain ⟨hg, hs'⟩ := uploader_actor.same (.inl rfl) hs he hsame
      refine ⟨hg, ?_⟩
      obtain rfl : r = .ok digest := hback hpath digest m hm
      show Sat _ _ (if (!isValidDigest (Str.trim digest)) = true then _ else _) s'
      rw [trim_digest hd, if_neg (by simp [hd])]
      exact ⟨rfl, hs', by rw [hsame]; exact hb⟩
  rw [fetch_eq]
  refine Sat.bindE (Sat.mono (Q := fun r _ => ∃ pre, r = .ok (some (digest, .ok pre)) ∧
    Compiled F ops (F.runtime t) digest pre) ?_ fun r s hr => ?_)
  · refine Sat.bindE (Sat.of_inl (hread.mono fun r s hr => ?_))
    obtain ⟨rfl, hs, hb⟩ := hr
    refine Sat.liftE ((sat_uploader_blob hd hblob hb (sat_fetchDigest hF hd hs)).mono
      fun r s hr => ?_)
    obtain ⟨pre, rfl⟩ := hr.1.2.available rfl hpre
    exact ⟨pre, rfl, hr.1.2.sound pre rfl⟩
  · obtain ⟨pre, rfl, hpre⟩ := hr
    exact ⟨pre, rfl, hpre⟩

end

/-! ## One upload beside any number of operations -/

section
variable {W : Wasm} {L : LruCrate Str (CacheEntry W.HandlerPre)} {κ τ : Type} [DecidableEq κ]
  [DecidableEq τ]

/-- The operations, and for `none` an upload. -/
def withUpload (op : ModuleOp) (ops : τ → ModuleOp) : Option τ → ModuleOp
  | none => op
  | some u => ops u

abbrev UploadOut (W : Wasm) (β : Type) : Option τ → Type
  | none => β
  | some _ => ModuleOut W

/-- `p` beside the operations. -/
def besideStart {β : Type} (F : Fleet W κ (Option τ)) (ops : τ → ModuleOp) (p : LoadM W β)
    (s₀ : Modules L κ (Option τ)) :
    Config (Option τ) (Modules L κ (Option τ)) (LoadCall W) LoadRes (UploadOut W β) :=
  ⟨s₀, fun
    | none => p
    | some u => (ops u).run (F.engine (F.runtime (some u)))⟩

/-- The runs in which the upload reads the files at `paths` without an I/O error. -/
def readingSystem (L : LruCrate Str (CacheEntry W.HandlerPre)) (F : Fleet W κ (Option τ))
    (paths : List PathBuf) : System (Option τ) (Modules L κ (Option τ)) (LoadCall W) LoadRes :=
  (moduleSystem L F).restrict fun _ t s c r => t = none → ReadsBack paths s c r

/-- The setting of each thread: the others leave the upload alone. -/
def besideThread (F : Fleet W κ (Option τ)) (ops : Option τ → ModuleOp) (digest tenant func : Str)
    (paths : List PathBuf) : Option τ → Thread (Modules L κ (Option τ)) (LoadCall W) LoadRes
  | none => uploaderThread F ops digest tenant func paths none
  | some u =>
    { exec := fun s c r s' => (moduleThread F ops none (some u)).exec s c r s' ∧
        (ops (some u)).Makes c
      rely := (moduleThread F ops none (some u)).rely
      guar := fun c s s' => (moduleThread F ops none (some u)).guar c s s' ∧
        Undisturbed digest tenant func s s' }

variable {F : Fleet W κ (Option τ)} {op : ModuleOp} {ops : τ → ModuleOp}
  {tenant func digest : Str} {wasm : Bytes} {paths : List PathBuf} {s₀ : Modules L κ (Option τ)}

omit [DecidableEq τ] in
theorem Disturbed.undisturbed {s s' : Modules L κ (Option τ)} (hd : isValidDigest digest = true)
    (h : Disturbed F s s') : Undisturbed digest tenant func s s' := by
  cases h with
  | @damaged digest' engine b₀ m₀ b m hd' hf hb =>
    have hget : ∀ p, p ≠ cwasmDir.join (cacheFileName W engine digest') →
        (s.files.tree.put (cwasmDir.join (cacheFileName W engine digest')) (.file b m)).get p =
          s.files.tree.get p := fun p hp => DirTree.get_put_ne _ _ hp
    refine ⟨fun ⟨b', m', hb'⟩ => ⟨b', m', ?_⟩, fun path hp => ?_⟩
    · exact (hget _ (wasmPath_ne_cwasm W _ hd hd')).trans hb'
    · exact hget _ (cwasmPath_ne_pointer W _ hd' hp).symm
  | @deleted digest' engine hd' =>
    have hget : ∀ p, p ≠ cwasmDir.join (cacheFileName W engine digest') →
        (s.files.tree.del (cwasmDir.join (cacheFileName W engine digest'))).get p =
          s.files.tree.get p := fun p hp => DirTree.get_del_ne _ hp
    refine ⟨fun ⟨b', m', hb'⟩ => ⟨b', m', ?_⟩, fun path hp => ?_⟩
    · exact (hget _ (wasmPath_ne_cwasm W _ hd hd')).trans hb'
    · exact hget _ (cwasmPath_ne_pointer W _ hd' hp).symm
  | evicted hi => exact ⟨id, fun _ _ => rfl⟩

theorem beside_compatible (op : ModuleOp) (ops : τ → ModuleOp) (tenant func : Str)
    (paths : List PathBuf) (hd : isValidDigest digest = true) :
    Compatible ((readingSystem L F paths).restrict fun _ t _ c _ =>
        (withUpload op ops t).Makes c)
      (besideThread F (withUpload op ops) digest tenant func paths)
      (Coherent F (withUpload op ops)) where
  exec pend t s c r s' _ hs hx := by
    obtain ⟨⟨⟨ch, hx⟩, hread⟩, hmakes⟩ := hx
    cases t with
    | none => exact ⟨⟨ch, hx⟩, hread rfl, hmakes⟩
    | some u => exact ⟨⟨⟨ch, hx⟩, fun _ hk => by cases hk⟩, hmakes⟩
  guar pend t u s c r s' hne _ hs hx hg := by
    cases t with
    | none =>
      cases u with
      | none => exact absurd rfl hne
      | some u => exact hg.2 (some u) hne.symm
    | some t =>
      cases u with
      | none => exact ⟨hg.1.2 none hne.symm, hg.2⟩
      | some u => exact hg.1.2 (some u) hne.symm
  env pend u s s' hs h := by
    have hrely := (Disturbed.coherent hs h).2 u
    cases u with
    | none => exact ⟨hrely, h.undisturbed hd⟩
    | some u => exact hrely
  inv t s c s' _ hg := by
    cases t with
    | none => exact hg.1
    | some u => exact hg.1.1
  envInv _ _ _ hs h := (Disturbed.coherent hs h).1

/-- The operations beside the upload, in their own settings. -/
theorem sat_beside (hF : Reproducible F (withUpload op ops))
    (hd : isValidDigest digest = true)
    (hown : ∀ path, pointerPath tenant func = some path →
      ∀ u, (ops u).pointer? ≠ some (tenant, func))
    (hs : Coherent F (withUpload op ops) s₀) (u : τ) :
    Sat (besideThread F (withUpload op ops) digest tenant func paths (some u))
      (fun _ _ => True) ((ops u).run (F.engine (F.runtime (some u)))) s₀ := by
  have hop : Sat (moduleThread F (withUpload op ops) none (some u))
      (fun _ _ => True) ((ops u).run (F.engine (F.runtime (some u)))) s₀ :=
    (sat_moduleOp (t := some u) hF hs).mono fun _ _ _ => trivial
  refine hop.weaken (fun _ _ _ _ he => he.1) (fun _ _ _ hr => hr) fun s c r s' he hg => ⟨hg, ?_⟩
  obtain ⟨⟨⟨ch, hx⟩, -⟩, hmakes⟩ := he
  exact ⟨hmakes.hasBlob hx hd, fun path hp => hmakes.get_pointer hx hp (hown path hp u)⟩

/-- **An upload beside any operations but `gc`**: what is proved of it in its own setting. -/
theorem upload_run {β : Type} {p : LoadM W β} {Q : β → Modules L κ (Option τ) → Prop}
    {C : Config (Option τ) (Modules L κ (Option τ)) (LoadCall W) LoadRes (UploadOut W β)}
    (hgc : ∀ u grace, ops u ≠ .gc grace) (hF : Reproducible F (withUpload op ops))
    (hd : isValidDigest digest = true)
    (hown : ∀ path, pointerPath tenant func = some path →
      ∀ u, (ops u).pointer? ≠ some (tenant, func))
    (hs : Coherent F (withUpload op ops) s₀)
    (hjudged : Sat (opJudge W op) (fun _ _ => True) p ())
    (hstable : ∀ a, (uploaderThread F (withUpload op ops) digest tenant func paths
      none).Stable none (Q a))
    (hsat : Sat (uploaderThread F (withUpload op ops) digest tenant func paths none)
      Q p s₀)
    (hr : Reach (readingSystem L F paths) (besideStart F ops p s₀) C) {a : β}
    (ha : C.prog none = .ret a) : Q a C.shared := by
  have hrun := hr.restrict_judged (G := onLeft GoodAnswer)
    (P := fun t => (withUpload op ops t).Makes)
    (fun _ _ _ _ _ _ ⟨⟨_, hx⟩, _⟩ => moduleExec_good hx) fun t => by
      cases t with
      | none => exact hjudged
      | some u => exact judged_moduleOp (hgc u) _
  refine Reach.post (t := none) (a := a) (Q := fun t a s => match t, a with
    | none, a => Q a s
    | some _, _ => True) (beside_compatible op ops tenant func paths hd) ?_ hs ?_ hrun ha
  · rintro (_ | u) a
    · exact hstable a
    · exact fun _ _ _ _ => trivial
  · rintro (_ | u)
    · exact hsat
    · exact sat_beside hF hd hown hs u

theorem stageThenFetch_judged (engine : W.Engine) {s : Unit} :
    Sat (opJudge W (.publish tenant func wasm)) (fun _ _ => True)
      (stageThenFetch engine tenant func wasm).run s := by
  have hfiles : ∀ {ε α : Type} {p : ExceptT ε FsM α} {s : Unit},
      Sat (registryThread tenant func true) (fun _ _ => True) p.run s →
        Sat (opJudge W (.publish tenant func wasm)) (fun _ _ => True) (onDisk p).run s :=
    fun h => judged_names (fun _ => rfl) (Sat.judged_inl h)
  refine Sat.bindE ((hfiles (judged_stage W engine)).mono fun r s _ => ?_)
  rcases r with e | staged
  · trivial
  refine Sat.bindE ((hfiles judged_activate).mono fun r s _ => ?_)
  rcases r with e | _
  · trivial
  refine Sat.liftE (Sat.mono (Q := fun _ _ => True) ?_ fun _ _ _ => trivial)
  rw [fetch_eq]
  refine judged_names (fun h : false = true => by cases h)
    (Sat.bindE ((judged_fetchNamed engine : Sat (loadJudge W tenant func false) _ _ _).mono
      fun r s _ => ?_))
  rcases r with e | (_ | ⟨digest, (e | pre)⟩) <;> trivial

/-- `stage`, `activate` and the load, in the uploader's setting. -/
theorem sat_stageThenFetch {t : Option τ} {ops : Option τ → ModuleOp} (hF : Reproducible F ops)
    (hu : Uploaded ops wasm) (hs : Coherent F ops s₀) (hblob : wasmPath (W.digest wasm) ∈ paths)
    (hpath : ∀ path, pointerPath tenant func = some path → path ∈ paths) :
    Sat (uploaderThread F ops (W.digest wasm) tenant func paths t)
      (fun r _ => ∀ staged fetched, r = .ok (staged, fetched) → staged.digest = W.digest wasm ∧
        ∃ pre, fetched = .ok (some pre) ∧ Compiled F ops (F.runtime t) (W.digest wasm) pre)
      (stageThenFetch (F.engine (F.runtime t)) tenant func wasm).run s₀ := by
  have hd := W.digest_valid wasm
  refine Sat.bindE (Sat.of_inl ((sat_stageKept hF hu hs).mono fun r s hr => ?_))
  rcases r with e | staged
  · exact fun _ _ h => by cases h
  obtain ⟨hs, hdigest, hb, hpre⟩ := hr staged rfl
  refine Sat.bindE ((sat_uploader_blob hd hblob hb (Sat.of_inl (sat_activateKept hs))).mono
    fun r s hr => ?_)
  obtain ⟨hact, hb⟩ := hr
  rcases r with e | a
  · exact fun _ _ h => by cases h
  obtain ⟨hs, path, m, hp, hm⟩ := hact a rfl
  rw [hdigest] at hm
  refine Sat.liftE ((sat_fetchKept hF hd hp hblob (hpath path hp) hs hb hm hpre).mono
    fun r s hr => ?_)
  intro staged' fetched h
  cases h
  exact ⟨hdigest, hr⟩

end

/-! ## The main result -/

/-- What a `stage` or a `publish` that fails has done. -/
structure FailsCleanly {W : Wasm} {L : LruCrate Str (CacheEntry W.HandlerPre)} {κ τ : Type}
    [DecidableEq τ] (ops : τ → ModuleOp) (C : TracedModules L κ τ) : Prop where
  /-- No call of a `stage` that does not compile or typecheck changes any file. -/
  stage : ∀ t wasm e, ops t = .stage wasm → C.prog t = .ret (.staged (.error e)) →
    e = .compile ∨ e = .importMismatch →
    ∀ (c : FsCall) (r : FsRes c), (t, ⟨.inl c, r⟩) ∈ C.shared.trace →
      ∀ ch (s s' : State τ), Fs.exec t ch s c = some (r, s') → s' = s
  /-- No call of a `publish` that fails changes a pointer. -/
  publish : ∀ t tenant func wasm e, ops t = .publish tenant func wasm →
    C.prog t = .ret (.staged (.error e)) →
    ∀ (c : FsCall) (r : FsRes c), (t, ⟨.inl c, r⟩) ∈ C.shared.trace →
      ∀ ch (s s' : State τ), Fs.exec t ch s c = some (r, s') →
        ∀ tenant' func' path, pointerPath tenant' func' = some path →
          s'.tree.get path = s.tree.get path

section
variable {W : Wasm} {L : LruCrate Str (CacheEntry W.HandlerPre)} {κ τ : Type} [DecidableEq κ]
  [DecidableEq τ]

theorem modules_failsCleanly {F : Fleet W κ τ} {ops : τ → ModuleOp} {s₀ : Modules L κ τ}
    {C : TracedModules L κ τ}
    (hr : Reach (looseSystem L F).traced (modulesFrom F ops s₀) C) : FailsCleanly ops C where
  stage _ _ _ hop hret he _ _ hm _ _ _ hx :=
    exec_readOnly (stage_only_reads hr hop hret he hm) hx
  publish _ _ _ _ _ hop hret _ _ hm _ _ _ hx _ _ _ hp :=
    (publish_keeps_pointers hr hop hret hm).get_pointer hx hp

variable {F : Fleet W κ (Option τ)} {ops : τ → ModuleOp} {tenant func : Str} {wasm : Bytes}
  {s₀ : Modules L κ (Option τ)}

/-- A staged blob is there from then on. -/
theorem staged_blob (hgc : ∀ u grace, ops u ≠ .gc grace)
    (hF : Reproducible F (withUpload (.stage wasm) ops))
    (hs : Coherent F (withUpload (.stage wasm) ops) s₀)
    {C : Config (Option τ) (Modules L κ (Option τ)) (LoadCall W) LoadRes
      (UploadOut W (Except PublishError Staged))}
    (hr : Reach (moduleSystem L F)
      (besideStart F ops (onDisk (stage W (F.engine (F.runtime none)) wasm)).run s₀) C)
    {staged : Staged} (hret : C.prog none = .ret (.ok staged)) :
    staged.digest = W.digest wasm ∧ HasBlob staged.digest C.shared.files := by
  have hr : Reach (readingSystem L F [])
      (besideStart F ops (onDisk (stage W (F.engine (F.runtime none)) wasm)).run s₀) C := by
    refine hr.mono (fun _ _ _ c _ _ hx => ⟨hx, fun _ => ?_⟩) fun _ _ _ => id
    rcases c with c | c
    · cases c with
      | read p => exact fun h => by cases h
      | readToString p => exact fun h => by cases h
      | _ => trivial
    · trivial
  have hnone : pointerPath [] [] = none := rfl
  have hQ := upload_run
    (Q := fun r s => ∀ staged, r = .ok staged → staged.digest = W.digest wasm ∧
      HasBlob (W.digest wasm) s.files) hgc hF (W.digest_valid wasm)
    (fun path (hp : pointerPath [] [] = some path) => by rw [hnone] at hp; cases hp) hs ?_ ?_ ?_ hr hret
  · obtain ⟨hd, hb⟩ := hQ staged rfl
    exact ⟨hd, hd ▸ hb⟩
  · exact judged_names (fun h : false = true => by cases h)
      (Sat.judged_inl (judged_stage W _ : Sat (registryThread [] [] false) _ _ _))
  · intro r s s' h hrely staged hok
    exact ⟨(h staged hok).1, hrely.2.blob (h staged hok).2⟩
  · refine Sat.of_inl ((sat_stageKept hF ⟨none, rfl⟩ hs).mono fun r s hr staged hok => ?_)
    obtain ⟨-, hd, hb, -⟩ := hr staged hok
    exact ⟨hd, hb⟩

/-- A staged digest that is activated is loaded. -/
theorem staged_loads (hgc : ∀ u grace, ops u ≠ .gc grace)
    (hown : ∀ u, (ops u).pointer? ≠ some (tenant, func))
    (hF : Reproducible F (withUpload (.publish tenant func wasm) ops))
    (hs : Coherent F (withUpload (.publish tenant func wasm) ops) s₀)
    {C : Config (Option τ) (Modules L κ (Option τ)) (LoadCall W) LoadRes (UploadOut W _)}
    (hr : Reach (readingSystem L F (wasmPath (W.digest wasm) :: (pointerPath tenant func).toList))
      (besideStart F ops (stageThenFetch (F.engine (F.runtime none)) tenant func wasm).run s₀) C)
    {staged : Staged} {fetched : Except Error (Option W.HandlerPre)}
    (hret : C.prog none = .ret (.ok (staged, fetched))) :
    staged.digest = W.digest wasm ∧ ∃ c pre,
      W.componentNew (F.engine (F.runtime none)) wasm = some c ∧
        W.instantiatePre (F.engine (F.runtime none)) c = some pre ∧ fetched = .ok (some pre) := by
  have hu : Uploaded (withUpload (.publish tenant func wasm) ops) wasm := ⟨none, rfl⟩
  have hQ := upload_run (Q := fun
      (r : Except PublishError (Staged × Except Error (Option W.HandlerPre))) _ =>
      ∀ staged fetched, r = .ok (staged, fetched) → staged.digest = W.digest wasm ∧
        ∃ pre, fetched = .ok (some pre) ∧ Compiled F (withUpload (.publish tenant func wasm) ops)
          (F.runtime none) (W.digest wasm) pre)
    hgc hF (W.digest_valid wasm) (fun _ _ => hown) hs (stageThenFetch_judged _)
    (fun _ _ _ h _ => h)
    (sat_stageThenFetch hF hu hs (List.mem_cons_self ..) fun path hp => by simp [hp]) hr hret
  obtain ⟨hd, pre, hfetched, hpre⟩ := hQ staged fetched rfl
  obtain ⟨c, hc, hp⟩ := hpre.unique hF hu rfl
  exact ⟨hd, c, pre, hc, hp, hfetched⟩

/-- **Staging and publishing fail cleanly**, in any run and from any files; and where nothing is
collected a staged blob stays, and once it is activated it is loaded. The bytes of the blobs that
are there at the start count as published by operations, which need not take a step. -/
theorem stage_publish_clean (W : Wasm) (L : LruCrate Str (CacheEntry W.HandlerPre)) :
    (∀ (F : Fleet W κ τ) (ops : τ → ModuleOp) (s₀ : Modules L κ τ) (C : TracedModules L κ τ),
      Reach (looseSystem L F).traced (modulesFrom F ops s₀) C → FailsCleanly ops C) ∧
    (∀ (F : Fleet W κ (Option τ)) (ops : τ → ModuleOp) (wasm : Bytes)
      (s₀ : Modules L κ (Option τ)) (C : Config (Option τ) _ (LoadCall W) LoadRes (UploadOut W _)),
      (∀ u grace, ops u ≠ .gc grace) → Reproducible F (withUpload (.stage wasm) ops) →
      Coherent F (withUpload (.stage wasm) ops) s₀ →
      Reach (moduleSystem L F)
        (besideStart F ops (onDisk (stage W (F.engine (F.runtime none)) wasm)).run s₀) C →
      ∀ staged, C.prog none = .ret (.ok staged) →
        staged.digest = W.digest wasm ∧ HasBlob staged.digest C.shared.files) ∧
    ∀ (F : Fleet W κ (Option τ)) (ops : τ → ModuleOp) (tenant func : Str) (wasm : Bytes)
      (s₀ : Modules L κ (Option τ)) (C : Config (Option τ) _ (LoadCall W) LoadRes (UploadOut W _)),
      (∀ u grace, ops u ≠ .gc grace) → (∀ u, (ops u).pointer? ≠ some (tenant, func)) →
      Reproducible F (withUpload (.publish tenant func wasm) ops) →
      Coherent F (withUpload (.publish tenant func wasm) ops) s₀ →
      Reach (readingSystem L F (wasmPath (W.digest wasm) :: (pointerPath tenant func).toList))
        (besideStart F ops (stageThenFetch (F.engine (F.runtime none)) tenant func wasm).run s₀) C →
      ∀ staged fetched, C.prog none = .ret (.ok (staged, fetched)) →
        staged.digest = W.digest wasm ∧ ∃ c pre,
          W.componentNew (F.engine (F.runtime none)) wasm = some c ∧
            W.instantiatePre (F.engine (F.runtime none)) c = some pre ∧ fetched = .ok (some pre) :=
  ⟨fun _ _ _ _ hr => modules_failsCleanly hr,
    fun _ _ _ _ _ hgc hF hs hr _ hret => staged_blob hgc hF hs hr hret,
    fun _ _ _ _ _ _ _ hgc hown hF hs hr _ _ hret => staged_loads hgc hown hF hs hr hret⟩

/-- A call without a fault reads what is there. -/
theorem readsBack_of_noFault {σ : Type} [DecidableEq σ] {F : Fleet W κ σ} {t : σ} {ch : Choice}
    {s s' : Modules L κ σ} {c : LoadCall W} {r : LoadRes c} (paths : List PathBuf)
    (h : moduleExec F t ch s c = some (r, s')) (hf : ch.fault = false) : ReadsBack paths s c r := by
  rcases c with c | c
  swap
  · trivial
  have hx := (moduleExec_file h).1
  cases c with
  | read p =>
    intro _ b m hb
    obtain ⟨b', m', rfl, hb'⟩ | ⟨e, -, hfault | hn⟩ := exec_read hx
    · rw [hb'] at hb
      cases hb
      rfl
    · rw [hf] at hfault
      cases hfault
    · exact absurd hb (hn b m)
  | readToString p =>
    intro _ str m hb
    obtain ⟨str', m', rfl, hb'⟩ | ⟨e, -, hfault | hn, -⟩ := exec_readToString hx
    · rw [hb', Option.some.injEq, Node.file.injEq] at hb
      exact congrArg Except.ok (Bytes.ofStr_inj.1 hb.1)
    · rw [hf] at hfault
      cases hfault
    · exact absurd hb (hn str m)
  | _ => trivial

end

/-! ## Runs -/

def idleFetch (_ : Bool) : ModuleOp := .fetch ['t'] ['f']

def bytesFleet (σ : Type) : Fleet Wasm.plain Unit σ :=
  ⟨fun _ => (0 : Nat), fun _ => 4, fun _ => 1000, fun _ => ()⟩

/-- `Wasm.plain` is reproducible where only one component is uploaded. -/
theorem reproducible_one {σ : Type} {ops : σ → ModuleOp} {wasm : Bytes}
    (hone : ∀ b, Uploaded ops b → b = wasm) : Reproducible (bytesFleet σ) ops := by
  refine ⟨fun b b' hb hb' _ => (hone b hb).trans (hone b' hb').symm, fun _ _ _ => rfl,
    fun _ _ _ => rfl, fun k b c x hc hx => ?_⟩
  cases hc
  cases hx
  rfl

theorem uploaded_idle {op : ModuleOp} {wasm : Bytes} (hop : op.wasm? = some wasm) (b : Bytes)
    (h : Uploaded (withUpload op idleFetch) b) : b = wasm := by
  obtain ⟨_ | t, ht⟩ := h
  · exact (Option.some.inj (hop.symm.trans ht)).symm
  · cases ht

def atomicWriteRun (suffix : Char) : List Choice :=
  [.ofNow 0, .ofSuffix 0 [suffix]] ++ List.replicate 4 (.ofNow 0)

/-- A fresh `stage`. -/
def stageRun : List Choice :=
  (.ofNow 0 :: atomicWriteRun 'x') ++ (.ofNow 0 :: atomicWriteRun 'y')

/-- A `publish` whose pointer cannot be renamed. -/
def failedPublishChoices : List Choice :=
  stageRun ++ [.ofNow 0, .ofSuffix 0 ['z'], .ofNow 0, .ofNow 0, .ofNow 0,
    { Choice.ofNow 0 with fault := true }, .ofNow 0]

def fetchChoices : List Choice := stageRun ++ atomicWriteRun 'z' ++ List.replicate 6 (.ofNow 0)

def failingPublish (_ : Bool) : ModuleOp := .publish ['t'] ['f'] [.raw [7]]

def publishFailed (C : TracedModules plainCache Unit Bool) : Bool :=
  match C.prog false with
  | .ret (.staged (.error (.io .other))) => true
  | _ => false

abbrev UploadConfig (β : Type) :=
  Config (Option Bool) (Modules plainCache Unit (Option Bool)) (LoadCall Wasm.plain) LoadRes
    (UploadOut Wasm.plain β)

/-- The upload `p` in an empty modules directory. -/
def uploadAlone {β : Type} (op : ModuleOp) (p : LoadM Wasm.plain β) : UploadConfig β :=
  besideStart (bytesFleet (Option Bool)) idleFetch p
    (modulesStart plainCache (bytesFleet (Option Bool)) (withUpload op idleFetch)).shared

def returned {α : Type} (C : UploadConfig (Except PublishError α)) : Option α :=
  match C.prog none with
  | .ret (.ok a) => some a
  | _ => none

theorem returned_eq {α : Type} {C : UploadConfig (Except PublishError α)} {a : α}
    (h : returned C = some a) : C.prog none = .ret (.ok a) := by
  unfold returned at h
  split at h
  · rename_i a' hret
    cases h
    exact hret
  · cases h

/-- The moves of the upload, without a fault. -/
def uploadMove (ch : Choice) (_ : Option Bool → Option (LoadCall Wasm.plain)) (t : Option Bool)
    (s : Modules plainCache Unit (Option Bool)) (c : LoadCall Wasm.plain) :
    Option (LoadRes c × Modules plainCache Unit (Option Bool)) :=
  if ch.fault then none else moduleExec (bytesFleet (Option Bool)) t ch s c

theorem uploadMove_sound (paths : List PathBuf) (ch : Choice)
    (pend : Option Bool → Option (LoadCall Wasm.plain)) (t : Option Bool)
    (s : Modules plainCache Unit (Option Bool)) (c : LoadCall Wasm.plain) (r : LoadRes c)
    (s' : Modules plainCache Unit (Option Bool)) (h : uploadMove ch pend t s c = some (r, s')) :
    (readingSystem plainCache (bytesFleet (Option Bool)) paths).exec pend t s c r s' := by
  unfold uploadMove at h
  split at h
  · cases h
  · rename_i hf
    exact ⟨⟨ch, h⟩, fun _ => readsBack_of_noFault paths h (by simpa using hf)⟩

theorem stage_publish_clean_runs :
    (∃ C : TracedModules plainCache Unit Bool,
      C.prog false = .ret (.staged (.error (.io .other))) ∧ C.shared.trace.length = 21 ∧
        FailsCleanly failingPublish C) ∧
    (∃ (C : UploadConfig (Except PublishError Staged)) (staged : Staged),
      C.prog none = .ret (.ok staged) ∧ staged.digest = plainDigest [.raw [7]] ∧
        HasBlob staged.digest C.shared.files) ∧
    ∃ (C : UploadConfig (Except PublishError (Staged × Except Error (Option Bytes))))
      (staged : Staged) (fetched : Except Error (Option Bytes)),
      C.prog none = .ret (.ok (staged, fetched)) ∧ staged.digest = plainDigest [.raw [7]] ∧
        fetched = .ok (some [.raw [7]]) := by
  obtain ⟨hfail, hblob, hload⟩ := stage_publish_clean (κ := Unit) (τ := Bool) Wasm.plain plainCache
  refine ⟨?_, ?_, ?_⟩
  · have hrun : ((modulesFrom (bytesFleet Bool) failingPublish
        (modulesStart plainCache (bytesFleet Bool) failingPublish).shared).play
          (tracing fun ch _ t s c => moduleExec (bytesFleet Bool) t ch s c)
          (failedPublishChoices.map (Prod.mk false))).any (fun C => publishFailed C &&
            decide (C.shared.trace.length = 21)) = true := by
      decide +kernel
    rw [Option.any_eq_true] at hrun
    obtain ⟨C, hplay, hC⟩ := hrun
    rw [Bool.and_eq_true, decide_eq_true_eq] at hC
    refine ⟨C, ?_, hC.2, hfail _ _ _ C (play_reach (tracing_sound
      (S := looseSystem plainCache (bytesFleet Bool)) fun ch _ _ _ _ _ _ h => ⟨ch, h⟩) hplay)⟩
    have hret := hC.1
    unfold publishFailed at hret
    split at hret
    · assumption
    · cases hret
  · have hrun : ((uploadAlone (.stage [.raw [7]])
        (onDisk (stage Wasm.plain (0 : Nat) [.raw [7]])).run).play uploadMove
          (stageRun.map (Prod.mk none))).any (fun C => (returned C).isSome) = true := by
      decide +kernel
    rw [Option.any_eq_true] at hrun
    obtain ⟨C, hplay, hC⟩ := hrun
    obtain ⟨staged, hstaged⟩ := Option.isSome_iff_exists.1 hC
    have hret := returned_eq hstaged
    have hreach := play_reach (uploadMove_sound []) hplay
    exact ⟨C, staged, hret, hblob (bytesFleet (Option Bool)) idleFetch [.raw [7]] _ C
      (fun _ _ h => by cases h) (reproducible_one (uploaded_idle rfl)) (coherent_start _ _)
      (hreach.mono (fun _ _ _ _ _ _ hx => hx.1) fun _ _ _ => id) staged hret⟩
  · have hrun : ((uploadAlone (.publish ['t'] ['f'] [.raw [7]])
        (stageThenFetch (W := Wasm.plain) (0 : Nat) ['t'] ['f'] [.raw [7]]).run).play uploadMove
          (fetchChoices.map (Prod.mk none))).any (fun C => (returned C).isSome) = true := by
      decide +kernel
    rw [Option.any_eq_true] at hrun
    obtain ⟨C, hplay, hC⟩ := hrun
    obtain ⟨⟨staged, fetched⟩, hstaged⟩ := Option.isSome_iff_exists.1 hC
    have hret := returned_eq hstaged
    obtain ⟨hd, c, pre, hc, hp, rfl⟩ := hload (bytesFleet (Option Bool)) idleFetch ['t'] ['f']
      [.raw [7]] _ C (fun _ _ h => by cases h) (fun _ h => by cases h)
      (reproducible_one (uploaded_idle rfl)) (coherent_start _ _)
      (play_reach (uploadMove_sound _) hplay) staged fetched hret
    cases hc
    cases hp
    exact ⟨C, staged, _, hret, hd, rfl⟩

end Warpline
