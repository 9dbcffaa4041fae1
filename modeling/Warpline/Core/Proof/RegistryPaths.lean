import Warpline.Conc.Trace
import Warpline.Core.Facade
import Warpline.Core.Proof.AtomicWrite

/-!
# The paths of the registry

`RegistryPath tenant func` are the paths below the modules directory that a call of `(tenant, func)`
may touch, spelled out component by component. Every program of the registry is judged
(`Thread.judged`) by these and by its result: a digest it hands on is one. The only answer that
matters is that of `createTemp`, which names an entry of the directory it was given.

`registry_confined`: in every run of any number of calls, whatever the files hold meanwhile, all
paths a call touches are such; a call with a malformed name or digest touches none and is an error.
-/

set_option autoImplicit false

namespace Warpline

open Conc Fs

/-! ## The forms of a path -/

/-- `^[a-z0-9][a-z0-9_-]{0,62}$`. -/
def IsName (s : Str) : Prop :=
  ∃ c rest, s = c :: rest ∧ rest.length ≤ 62 ∧ (c.isLower = true ∨ c.isDigit = true) ∧
    ∀ x ∈ rest, x.isLower = true ∨ x.isDigit = true ∨ x = '_' ∨ x = '-'

/-- 64 lowercase hex characters. -/
def IsHex64 (s : Str) : Prop :=
  s.length = 64 ∧ ∀ c ∈ s, ('0' ≤ c ∧ c ≤ '9') ∨ ('a' ≤ c ∧ c ≤ 'f')

def pointerForm (tenant func : Str) : PathBuf :=
  [.ofStr "tenants".toList, .ofStr tenant, .ofStr func]

def wasmForm (digest : Str) : PathBuf := [.ofStr "wasm".toList, .ofStr (digest ++ ".wasm".toList)]

def cwasmForm (digest compat : Str) : PathBuf :=
  [.ofStr "cwasm".toList, .ofStr (digest ++ '-' :: compat ++ ".cwasm".toList)]

/-- The directories of the registry that a call for `tenant` uses. -/
inductive RegistryDir (tenant : Str) : PathBuf → Prop
  | wasm : RegistryDir tenant [.ofStr "wasm".toList]
  | cwasm : RegistryDir tenant [.ofStr "cwasm".toList]
  | tenants : RegistryDir tenant [.ofStr "tenants".toList]
  | tenant (h : IsName tenant) : RegistryDir tenant [.ofStr "tenants".toList, .ofStr tenant]

/-- The paths that a call for `(tenant, func)` may touch. -/
inductive RegistryPath (tenant func : Str) : PathBuf → Prop
  | dir {p : PathBuf} (h : RegistryDir tenant p) : RegistryPath tenant func p
  | temp {p : PathBuf} (h : RegistryDir tenant p) (suffix : Str) :
      RegistryPath tenant func (p.child (tempName suffix))
  | pointer (ht : IsName tenant) (hf : IsName func) :
      RegistryPath tenant func (pointerForm tenant func)
  | wasm {digest : Str} (hd : IsHex64 digest) : RegistryPath tenant func (wasmForm digest)
  | cwasm {digest compat : Str} (hd : IsHex64 digest) (hc : IsHex64 compat) :
      RegistryPath tenant func (cwasmForm digest compat)

/-- The paths a call names; `create_dir_all` looks at every directory on the way. -/
def callPaths : FsCall → List PathBuf
  | .createDirAll dir => dir.inits.tail
  | .rename src dest => [src, dest]
  | .readDir p | .metadata p | .read p | .readToString p | .touch p | .createTemp p
  | .writeAll p _ | .syncAll p | .setPermissions p | .removeFile p => [p]

/-- The paths a call touches, with its answer. -/
def touchedPaths : (c : FsCall) → FsRes c → List PathBuf
  | .createTemp dir, .ok tmp => [dir, tmp]
  | c, _ => callPaths c

/-- A call whose names or whose digest are malformed. -/
def RegistryOp.Malformed (op : RegistryOp) : Prop :=
  ¬ IsName op.tenant ∨ ¬ IsName op.func ∨ ∃ digest, op.digest? = some digest ∧ ¬ IsHex64 digest

/-! ## The code's checks -/

theorem isValidDigest_iff {s : Str} : isValidDigest s = true ↔ IsHex64 s := by
  have hhex : ∀ c : Char, isHex c = true ↔ ('0' ≤ c ∧ c ≤ '9') ∨ ('a' ≤ c ∧ c ≤ 'f') := by
    intro c
    simp [isHex]
  simp only [isValidDigest, Bool.and_eq_true, beq_iff_eq, List.all_eq_true, hhex, IsHex64]
  refine and_congr_left fun h => ?_
  rw [utf8Len_of_isHex fun c hc => (hhex c).2 (h c hc)]

theorem utf8Size_of_name {c : Char}
    (h : c.isLower = true ∨ c.isDigit = true ∨ c = '_' ∨ c = '-') : c.utf8Size = 1 := by
  rw [Char.utf8Size_eq_one_iff, UInt32.le_iff_toNat_le]
  obtain h | h | rfl | rfl := h
  · simp only [Char.isLower, ge_iff_le, Bool.and_eq_true, decide_eq_true_eq,
      UInt32.le_iff_toNat_le] at h
    exact Nat.le_trans h.2 (by decide)
  · simp only [Char.isDigit, ge_iff_le, Bool.and_eq_true, decide_eq_true_eq,
      UInt32.le_iff_toNat_le] at h
    exact Nat.le_trans h.2 (by decide)
  · decide
  · decide

theorem validName_iff {s : Str} : validName s = true ↔ IsName s := by
  have hlen : ∀ rest : Str, (∀ x ∈ rest, x.isLower = true ∨ x.isDigit = true ∨ x = '_' ∨ x = '-') →
      Str.utf8Len rest = rest.length := by
    intro rest h
    rw [Str.utf8Len, List.map_congr_left fun c hc => utf8Size_of_name (h c hc)]
    simp
  cases s with
  | nil => simp [validName, IsName]
  | cons c rest =>
    have htail : ∀ x : Char, ((x.isLower || x.isDigit) || x == '_' || x == '-') = true ↔
        x.isLower = true ∨ x.isDigit = true ∨ x = '_' ∨ x = '-' := by
      intro x
      simp [or_assoc]
    simp only [validName, Bool.and_eq_true, decide_eq_true_eq, List.all_eq_true, htail,
      Bool.or_eq_true, Str.utf8Len_cons, IsName, List.cons.injEq]
    constructor
    · rintro ⟨⟨hl, hc⟩, hrest⟩
      rw [hlen rest hrest, utf8Size_of_name (hc.imp_right .inl)] at hl
      exact ⟨c, rest, ⟨rfl, rfl⟩, by omega, hc, hrest⟩
    · rintro ⟨c', rest', ⟨rfl, rfl⟩, hl, hc, hrest⟩
      rw [hlen rest hrest, utf8Size_of_name (hc.imp_right .inl)]
      exact ⟨⟨by omega, hc⟩, hrest⟩

/-! ## The paths the code builds -/

section
variable {tenant func digest : Str} {path : PathBuf}

theorem dir_wasm : RegistryDir tenant wasmDir := RegistryDir.wasm

theorem dir_cwasm : RegistryDir tenant cwasmDir := RegistryDir.cwasm

theorem path_wasm (h : isValidDigest digest = true) :
    RegistryPath tenant func (wasmPath digest) := by
  rw [wasmPath_eq h]
  exact .wasm (isValidDigest_iff.1 h)

theorem path_cwasm (W : Wasm) (engine : W.Engine) (h : isValidDigest digest = true) :
    RegistryPath tenant func (cwasmDir.join (cacheFileName W engine digest)) := by
  rw [cwasmPath_eq W engine h]
  exact .cwasm (isValidDigest_iff.1 h) (isValidDigest_iff.1 (W.compatHash_valid engine))

theorem pointerPath_form (h : pointerPath tenant func = some path) :
    path = pointerForm tenant func ∧ IsName tenant ∧ IsName func := by
  obtain ⟨ht, hf, rfl⟩ := pointerPath_eq_some.1 h
  exact ⟨rfl, validName_iff.1 ht, validName_iff.1 hf⟩

theorem path_pointer (h : pointerPath tenant func = some path) :
    RegistryPath tenant func path ∧ RegistryDir tenant path.parent := by
  obtain ⟨rfl, ht, hf⟩ := pointerPath_form h
  exact ⟨.pointer ht hf, .tenant ht⟩

/-- On the way to a directory of the registry there are directories of the registry only. -/
theorem RegistryDir.ancestors {dir : PathBuf} (h : RegistryDir tenant dir) :
    ∀ p ∈ dir.inits.tail, RegistryPath tenant func p := by
  intro p hp
  cases h with
  | wasm =>
    obtain rfl : p = _ := by simpa using hp
    exact .dir .wasm
  | cwasm =>
    obtain rfl : p = _ := by simpa using hp
    exact .dir .cwasm
  | tenants =>
    obtain rfl : p = _ := by simpa using hp
    exact .dir .tenants
  | tenant ht =>
    have hp : p = [.ofStr "tenants".toList] ∨ p = [.ofStr "tenants".toList, .ofStr tenant] := by
      simpa using hp
    obtain rfl | rfl := hp
    · exact .dir .tenants
    · exact .dir (.tenant ht)

/-! ## Programs on the files -/

/-- A temporary file in one of these directories. -/
def TempOf (tenant : Str) (p : PathBuf) : Prop :=
  ∃ dir suffix, RegistryDir tenant dir ∧ p = dir.child (tempName suffix)

/-- The path of a module, as a source or compiled. -/
inductive BlobPath : PathBuf → Prop
  | wasm {digest : Str} (hd : IsHex64 digest) : BlobPath (wasmForm digest)
  | cwasm {digest compat : Str} (hd : IsHex64 digest) (hc : IsHex64 compat) :
      BlobPath (cwasmForm digest compat)

/-- The calls made for `(tenant, func)`, with those that write its pointer or without. -/
inductive RegistryCall (tenant func : Str) (writes : Bool) : FsCall → Prop
  | reading {c : FsCall} {p : PathBuf} (hc : c.readOnly = true) (hp : callPaths c = [p])
      (h : RegistryPath tenant func p) : RegistryCall tenant func writes c
  | createDirAll {dir : PathBuf} (h : RegistryDir tenant dir) :
      RegistryCall tenant func writes (.createDirAll dir)
  | createTemp {dir : PathBuf} (h : RegistryDir tenant dir) :
      RegistryCall tenant func writes (.createTemp dir)
  | writeAll {tmp : PathBuf} (h : TempOf tenant tmp) (b : Bytes) :
      RegistryCall tenant func writes (.writeAll tmp b)
  | syncAll {tmp : PathBuf} (h : TempOf tenant tmp) :
      RegistryCall tenant func writes (.syncAll tmp)
  | setPermissions {tmp : PathBuf} (h : TempOf tenant tmp) :
      RegistryCall tenant func writes (.setPermissions tmp)
  | removeTemp {tmp : PathBuf} (h : TempOf tenant tmp) :
      RegistryCall tenant func writes (.removeFile tmp)
  | renameBlob {tmp dest : PathBuf} (h : TempOf tenant tmp) (hd : BlobPath dest) :
      RegistryCall tenant func writes (.rename tmp dest)
  | touch {p : PathBuf} (h : BlobPath p) : RegistryCall tenant func writes (.touch p)
  | renamePointer {tmp : PathBuf} (hw : writes = true) (h : TempOf tenant tmp) (ht : IsName tenant)
      (hf : IsName func) : RegistryCall tenant func writes (.rename tmp (pointerForm tenant func))
  | removePointer (hw : writes = true) (ht : IsName tenant) (hf : IsName func) :
      RegistryCall tenant func writes (.removeFile (pointerForm tenant func))

/-- A temporary file is an entry of its directory. -/
def GoodAnswer : (c : FsCall) → FsRes c → Prop
  | .createTemp dir, .ok tmp => ∃ suffix, tmp = dir.child (tempName suffix)
  | _, _ => True

abbrev registryThread (tenant func : Str) (writes : Bool) : Thread Unit FsCall FsRes :=
  Thread.judged GoodAnswer (RegistryCall tenant func writes)

variable {writes : Bool}

theorem BlobPath.registry {p : PathBuf} (h : BlobPath p) : RegistryPath tenant func p := by
  cases h with
  | wasm hd => exact .wasm hd
  | cwasm hd hc => exact .cwasm hd hc

theorem blob_wasm (h : isValidDigest digest = true) : BlobPath (wasmPath digest) := by
  rw [wasmPath_eq h]
  exact .wasm (isValidDigest_iff.1 h)

theorem blob_cwasm (W : Wasm) (engine : W.Engine) (h : isValidDigest digest = true) :
    BlobPath (cwasmDir.join (cacheFileName W engine digest)) := by
  rw [cwasmPath_eq W engine h]
  exact .cwasm (isValidDigest_iff.1 h) (isValidDigest_iff.1 (W.compatHash_valid engine))

theorem judged_call {c : FsCall} {s : Unit} (hc : RegistryCall tenant func writes c) :
    Sat (registryThread tenant func writes) (fun r _ => GoodAnswer c r) (Prog.perform c) s :=
  Sat.judged_perform hc fun _ hr => hr

/-- A call whose answer says nothing. -/
theorem judged_any {c : FsCall} {s : Unit} (hc : RegistryCall tenant func writes c) :
    Sat (registryThread tenant func writes) (fun _ _ => True) (Prog.perform c) s :=
  (judged_call hc).mono fun _ _ _ => trivial

/-- A reading call with one path. -/
theorem judged_path {c : FsCall} {s : Unit} (hc : c.readOnly = true) (hp : callPaths c = [path])
    (h : RegistryPath tenant func path) :
    Sat (registryThread tenant func writes) (fun _ _ => True) (Prog.perform c) s :=
  judged_any (.reading hc hp h)

theorem TempCall.registry {tmp : PathBuf} {bytes : Bytes} {c : FsCall} (h : TempCall tmp bytes c)
    (htmp : TempOf tenant tmp) : RegistryCall tenant func writes c := by
  cases h with
  | writeAll => exact .writeAll htmp bytes
  | syncAll => exact .syncAll htmp
  | setPermissions => exact .setPermissions htmp
  | removeFile => exact .removeTemp htmp

/-- `atomic_write` over a path that its temporary file may be renamed to. -/
theorem judged_atomicWrite {dir dest : PathBuf} {bytes : Bytes} {s : Unit}
    (hdir : RegistryDir tenant dir)
    (hdest : ∀ {tmp}, TempOf tenant tmp → RegistryCall tenant func writes (.rename tmp dest)) :
    Sat (registryThread tenant func writes) (fun _ _ => True) (atomicWrite dir dest bytes).run s := by
  refine (sat_atomicWrite_calls (R := fun _ => True) (S := fun _ => True) (P := TempOf tenant)
    (fun _ _ _ _ _ => trivial) trivial
    (fun _ _ => ⟨RegistryCall.createDirAll hdir, trivial⟩) ?_ ?_ ?_).mono
    fun _ _ _ => trivial
  · intro _ r _ _ he
    refine ⟨RegistryCall.createTemp hdir, trivial, fun tmp hr => ?_⟩
    subst hr
    obtain ⟨suffix, hsuffix⟩ := he
    exact ⟨dir, suffix, hdir, hsuffix⟩
  · intro tmp c _ r _ htmp hc _ _
    exact ⟨hc.registry htmp, trivial⟩
  · intro tmp _ r _ htmp _ _
    exact ⟨hdest htmp, by cases r <;> trivial⟩

theorem judged_writePointer {s : Unit} : Sat (registryThread tenant func true) (fun _ _ => True)
    (writePointer tenant func digest).run s := by
  unfold writePointer
  split
  · trivial
  split
  · trivial
  · rename_i path hp
    obtain ⟨hform, ht, hf⟩ := pointerPath_form hp
    refine judged_atomicWrite (path_pointer hp).2 fun htmp => ?_
    rw [hform]
    exact .renamePointer rfl htmp ht hf

theorem judged_removePointer {s : Unit} : Sat (registryThread tenant func true) (fun _ _ => True)
    (removePointer tenant func).run s := by
  unfold removePointer
  split
  · trivial
  · rename_i path hp
    obtain ⟨rfl, ht, hf⟩ := pointerPath_form hp
    refine Sat.bind ((judged_any (.removePointer rfl ht hf)).mono fun r _ _ => ?_)
    rcases r with (_ | _) | _ <;> trivial

/-- What is read from a pointer is a digest. -/
theorem judged_readPointer {s : Unit} : Sat (registryThread tenant func writes)
    (fun r _ => ∀ digest, r = .ok (some digest) → isValidDigest digest = true)
    (readPointer tenant func).run s := by
  unfold readPointer
  split
  · intro digest h
    cases h
  rename_i path hp
  refine Sat.bind ((judged_path rfl rfl (path_pointer hp).1).mono fun r _ _ => ?_)
  rcases r with (_ | _) | contents
  · intro digest h
    cases h
  · intro digest h
    cases h
  · dsimp only
    split
    · intro digest h
      cases h
    · rename_i hd
      intro digest h
      cases h
      simpa using hd

/-! ## Blobs and publishing -/

theorem judged_loadCwasm (W : Wasm) (engine : W.Engine) {s : Unit} :
    Sat (registryThread tenant func writes) (fun _ _ => True)
      (loadCwasm W engine cwasmDir digest).run s := by
  unfold loadCwasm
  split
  · rename_i hd
    refine Sat.bindE ((Sat.mapErr (Q := fun _ _ => True)
      (judged_path rfl rfl (path_cwasm W engine hd))).mono fun r s _ => ?_)
    rcases r with e | bytes
    · trivial
    · dsimp only
      split <;> trivial
  · trivial

theorem judged_persistCwasm (W : Wasm) (engine : W.Engine) {component : W.Component} {s : Unit}
    (hd : isValidDigest digest = true) : Sat (registryThread tenant func writes) (fun _ _ => True)
      (persistCwasm W component engine cwasmDir digest).run s := by
  unfold persistCwasm
  split
  · trivial
  · refine Sat.bindE ((judged_atomicWrite dir_cwasm fun htmp => .renameBlob htmp
      (blob_cwasm W engine hd)).mono fun r s _ => ?_)
    cases r <;> trivial

theorem judged_writeWasmSource {wasm : Bytes} {s : Unit} : Sat (registryThread tenant func writes)
    (fun _ _ => True) (writeWasmSource digest wasm).run s := by
  unfold writeWasmSource
  split
  · trivial
  rename_i hd
  have hblob : BlobPath (wasmPath digest) := blob_wasm (by simpa using hd)
  refine Sat.liftE ((judged_any (.touch hblob)).mono fun r s _ => ?_)
  rcases r with (_ | _) | _
  · exact judged_atomicWrite dir_wasm fun htmp => .renameBlob htmp hblob
  · trivial
  · trivial

theorem judged_compile (W : Wasm) (engine : W.Engine) {wasm : Bytes} {s : Unit} :
    Sat (registryThread tenant func writes)
      (fun r _ => ∀ component digest fresh, r = .ok (component, digest, fresh) →
        isValidDigest digest = true) (compile W engine wasm cwasmDir).run s := by
  have hd := W.digest_valid wasm
  refine Sat.liftE (Sat.bind (Sat.bind ((judged_path rfl rfl
    (path_cwasm W engine hd)).mono fun found s _ => ?_)))
  have hok : ∀ {component : W.Component} {fresh : Bool} {c : W.Component} {d : Str} {f : Bool},
      (Except.ok (component, W.digest wasm, fresh) : Except Error _) = .ok (c, d, f) →
        isValidDigest d = true := by
    intro component fresh c d f h
    cases h
    exact hd
  have hnew : Sat (registryThread tenant func writes)
      (fun r _ => ∀ component digest fresh, r = .ok (component, digest, fresh) →
        isValidDigest digest = true)
      (componentNew W engine wasm >>= fun component =>
        pure (component, W.digest wasm, true) : ExceptT Error FsM _).run s := by
    unfold componentNew
    split
    · intro c d f h
      exact hok h
    · intro c d f h
      cases h
  cases found with
  | error e => exact hnew
  | ok m =>
    refine Sat.bind ((judged_loadCwasm W engine).mono fun loaded s _ => ?_)
    cases loaded with
    | error e => exact hnew
    | ok component =>
      intro c d f h
      exact hok h

theorem judged_stage (W : Wasm) (engine : W.Engine) {wasm : Bytes} {s : Unit} :
    Sat (registryThread tenant func writes) (fun _ _ => True) (stage W engine wasm).run s := by
  refine Sat.bindE (Sat.mapErr ((judged_compile W engine).mono fun r s hr => ?_))
  rcases r with e | ⟨component, digest, fresh⟩
  · trivial
  have hd := hr component digest fresh rfl
  show Sat _ _ (typecheckComponent W engine component >>= _).run s
  unfold typecheckComponent
  split
  swap
  · trivial
  have hsource : ∀ s, Sat (registryThread tenant func writes) (fun _ _ => True) (do
      Prog.mapErr intoPublishErr (writeWasmSource digest wasm)
      pure ⟨digest⟩ : ExceptT PublishError FsM Staged).run s := by
    intro s
    refine Sat.bindE (Sat.mapErr (judged_writeWasmSource.mono fun r s _ => ?_))
    cases r <;> trivial
  cases fresh with
  | true =>
    show Sat _ _ (Prog.mapErr intoPublishErr
      (persistCwasm W component engine cwasmDir digest) >>= fun _ => _).run s
    refine Sat.bindE (Sat.mapErr ((judged_persistCwasm W engine hd).mono fun r s _ => ?_))
    cases r with
    | error e => trivial
    | ok _ => exact hsource s
  | false =>
    show Sat _ _ ((liftM (touch (cwasmDir.join (cacheFileName W engine digest))) :
      ExceptT PublishError FsM _) >>= fun _ => _).run s
    exact Sat.liftE ((judged_any (.touch (blob_cwasm W engine hd))).mono fun _ s _ => hsource s)

theorem judged_activate {staged : Staged} {s : Unit} : Sat (registryThread tenant func true)
    (fun _ _ => True) (activate tenant func staged).run s := by
  unfold activate
  split
  · trivial
  · exact Sat.mapErr judged_writePointer

theorem judged_active {s : Unit} : Sat (registryThread tenant func writes) (fun _ _ => True)
    (active tenant func).run s := by
  unfold active
  split
  · trivial
  · refine Sat.bindE (Sat.mapErr (judged_readPointer.mono fun r s _ => ?_))
    cases r <;> trivial

theorem judged_deactivate {s : Unit} : Sat (registryThread tenant func true) (fun _ _ => True)
    (deactivate tenant func).run s := by
  unfold deactivate
  split
  · trivial
  · exact Sat.mapErr judged_removePointer

theorem judged_activateDigest {s : Unit} : Sat (registryThread tenant func true) (fun _ _ => True)
    (activateDigest tenant func digest).run s := by
  unfold activateDigest
  split
  · trivial
  split
  · trivial
  rename_i hd
  have hd : isValidDigest digest = true := by simpa using hd
  unfold wasmExists
  rw [if_pos hd]
  refine Sat.liftE (Sat.bind ((judged_path rfl rfl (path_wasm hd)).mono fun r s _ => ?_))
  cases r with
  | error e => trivial
  | ok m =>
    show Sat _ _ (ExceptT.run (if (!m.isDir) = true then _ else _)) s
    split
    · exact judged_activate
    · trivial

theorem judged_publish (W : Wasm) (engine : W.Engine) {wasm : Bytes} {s : Unit} :
    Sat (registryThread tenant func true) (fun _ _ => True)
      (publish W engine tenant func wasm).run s := by
  unfold publish
  split
  · trivial
  refine Sat.bindE ((judged_stage W engine).mono fun r s _ => ?_)
  rcases r with e | staged
  · trivial
  refine Sat.bindE (judged_activate.mono fun r s _ => ?_)
  cases r <;> trivial

/-! ## Loading -/

variable {W : Wasm}

abbrev loadJudge (W : Wasm) (tenant func : Str) (writes : Bool) : Thread Unit (LoadCall W) LoadRes :=
  Thread.judged (onLeft GoodAnswer) (Sum.elim (RegistryCall tenant func writes) fun _ => True)

theorem judged_onDisk {α : Type} {Q : Except Error α → Prop} {p : ExceptT Error FsM α} {s : Unit}
    (h : Sat (registryThread tenant func writes) (fun r _ => Q r) p.run s) :
    Sat (loadJudge W tenant func writes) (fun r _ => Q r) (onDisk p).run s :=
  Sat.judged_inl h

/-- A program on the files whose error is looked at, and what follows. -/
theorem judged_attempt {ε α β : Type} {Q : Except Error β → Unit → Prop} {p : FsM (Except ε α)}
    {f : Except ε α → ExceptT Error (LoadM W) β} {s : Unit}
    (hp : Sat (registryThread tenant func writes) (fun _ _ => True) p s)
    (hf : ∀ r s, Sat (loadJudge W tenant func writes) Q (f r).run s) :
    Sat (loadJudge W tenant func writes) Q (attempt p >>= f).run s :=
  Sat.liftE ((Sat.judged_inl hp).mono fun r s _ => hf r s)

theorem judged_cacheHit {β : Type} {Q : Except Error β → Unit → Prop}
    {f : Option W.HandlerPre → ExceptT Error (LoadM W) β} {s : Unit}
    (hf : ∀ r s, Sat (loadJudge W tenant func writes) Q (f r).run s) :
    Sat (loadJudge W tenant func writes) Q
      ((liftM (cacheHit digest : LoadM W _) : ExceptT Error (LoadM W) _) >>= f).run s := by
  refine Sat.liftE ?_
  intro s₁ _ r s₂ _
  exact ⟨trivial, hf r s₂⟩

/-- A loaded component is typechecked and cached. -/
theorem judged_insertPre {β : Type} {engine : W.Engine} {component : W.Component} {weight : Usize}
    {a : W.HandlerPre → β} {s : Unit} :
    Sat (loadJudge W tenant func writes) (fun _ _ => True) (do
      let pre ← instantiatePre engine component
      cacheInsert digest pre weight
      pure (a pre) : ExceptT Error (LoadM W) β).run s := by
  unfold instantiatePre
  split
  · intro s₁ _ _ s₂ _
    exact ⟨trivial, trivial⟩
  · trivial

/-- What is looked up and not found in the cache is a digest. -/
theorem judged_lookup {s : Unit} : Sat (loadJudge W tenant func writes)
    (fun r _ => ∀ digest, r = .ok (.miss digest) → isValidDigest digest = true)
    (lookup (W := W) tenant func).run s := by
  unfold lookup
  refine Sat.bindE ((judged_onDisk judged_readPointer).mono fun r s hr => ?_)
  rcases r with e | (_ | digest)
  · intro d h
    cases h
  · intro d h
    cases h
  have hd := hr digest rfl
  refine judged_cacheHit fun hit s => ?_
  cases hit with
  | some pre =>
    intro d h
    cases h
  | none =>
    intro d h
    cases h
    exact hd

theorem judged_loadExisting (engine : W.Engine) (hd : isValidDigest digest = true) {s : Unit} :
    Sat (loadJudge W tenant func writes) (fun _ _ => True) (loadExisting engine digest).run s := by
  unfold loadExisting
  refine judged_cacheHit fun hit s => ?_
  cases hit with
  | some pre => trivial
  | none =>
    refine judged_attempt (judged_loadCwasm W engine) fun r s => ?_
    rcases r with e | component
    · trivial
    refine judged_attempt (judged_path rfl rfl (path_cwasm W engine hd)) fun m s => ?_
    cases m <;> exact judged_insertPre

theorem judged_recompile (engine : W.Engine) (hd : isValidDigest digest = true) {s : Unit} :
    Sat (loadJudge W tenant func writes) (fun _ _ => True) (recompile engine digest).run s := by
  unfold recompile
  refine judged_attempt (judged_path rfl rfl (path_wasm hd)) fun r s => ?_
  rcases r with e | wasm
  · trivial
  have hnew : Sat (registryThread tenant func writes) (fun _ _ => True)
      (componentNew W engine wasm).run s := by
    unfold componentNew
    split <;> trivial
  refine Sat.bindE ((judged_onDisk hnew).mono fun r s _ => ?_)
  rcases r with e | component
  · trivial
  refine judged_attempt (judged_persistCwasm W engine hd) fun r s => ?_
  cases r <;> exact judged_insertPre

theorem judged_getOrLoad (engine : W.Engine) (hd : isValidDigest digest = true) {s : Unit} :
    Sat (loadJudge W tenant func writes) (fun _ _ => True) (getOrLoad engine digest).run s := by
  unfold getOrLoad
  refine Sat.bindE ((judged_loadExisting engine hd).mono fun r s _ => ?_)
  rcases r with e | (pre | _)
  · trivial
  · trivial
  · exact judged_recompile engine hd

/-! ## Invoking -/

/-- A task of an invocation of `(tenant, func)`. -/
def TaskOf (tenant func : Str) : Task → Prop
  | .lookup tenant' func' => tenant' = tenant ∧ func' = func
  | .loadExisting digest | .getOrLoad digest => isValidDigest digest = true
  | .stage _ => True

/-- What a task hands on. -/
def TaskYields : (task : Task) → task.Out W → Prop
  | .lookup _ _, r => ∀ digest, r = .ok (.miss digest) → isValidDigest digest = true
  | _, _ => True

/-- A task that is joined hands on what its kind of task yields. -/
def GoodJoin : (c : HostCall W) → HostRes c → Prop
  | .join _ task, (some (.ok out) : Option (Except JoinError (task.Out W))) => TaskYields task out
  | _, _ => True

/-- A call of the runtime whose task is of `(tenant, func)`. -/
def JoinsOf (tenant func : Str) : HostCall W → Prop
  | .join _ task => TaskOf tenant func task
  | _ => True

abbrev hostJudge (W : Wasm) (tenant func : Str) : Thread Unit (HostCall W) HostRes :=
  Thread.judged GoodJoin (JoinsOf tenant func)

abbrev facadeJudge (W : Wasm) (tenant func : Str) : Thread Unit (FacadeCall W) FacadeRes :=
  Thread.judged (onLeft (onLeft GoodAnswer))
    (Sum.elim (Sum.elim (RegistryCall tenant func true) fun _ => True) fun _ => True)

theorem judged_task (engine : W.Engine) {task : Task} (h : TaskOf tenant func task) {s : Unit} :
    Sat (loadJudge W tenant func true) (fun r _ => TaskYields task r) (task.program engine) s := by
  cases task with
  | lookup tenant' func' =>
    obtain ⟨rfl, rfl⟩ := h
    exact judged_lookup
  | loadExisting digest => exact (judged_loadExisting engine h).mono fun _ _ _ => trivial
  | getOrLoad digest => exact (judged_getOrLoad engine h).mono fun _ _ _ => trivial
  | stage wasm => exact (Sat.judged_inl (judged_stage W engine)).mono fun _ _ _ => trivial

/-- **Serving the tasks**: what holds of an invocation whose tasks yield what they should holds when
they are run. -/
theorem judged_served {α : Type} {Q : α → Prop} (engine : W.Engine) {p : HostM W α} {s : Unit}
    (h : Sat (hostJudge W tenant func) (fun a _ => Q a) p s) :
    Sat (facadeJudge W tenant func) (fun a _ => Q a) (served engine p) s := by
  induction p generalizing s with
  | ret a => exact h
  | call c k ih =>
    cases c with
    | join handle task =>
      have hnext : ∀ r s, GoodJoin (.join handle task) r →
          Sat (facadeJudge W tenant func) (fun a _ => Q a) (served engine (k r)) s :=
        fun r s hr => ih r (h s .refl r s hr).2
      have htask : TaskOf tenant func task := (h s .refl none s trivial).1
      refine Sat.bind ((Sat.judged_inl (judged_task engine htask)).mono fun out s hout => ?_)
      rintro s₁ - (r : Option (Except JoinError (task.Out W))) s₂ -
      refine ⟨trivial, hnext _ _ ?_⟩
      rcases r with _ | (_ | _)
      · trivial
      · trivial
      · exact hout
    | _ =>
      intro s₁ hs r s₂ _
      refine ⟨trivial, ih r ?_⟩
      exact (h s .refl r s₂ trivial).2

/-- Programs that wait for no task. -/
def NoJoin (c : HostCall W) : Prop := ∀ handle task, c ≠ .join handle task

theorem judged_noJoin {α : Type} {p : HostM W α} (hp : p.Calls NoJoin) {s : Unit} :
    Sat (hostJudge W tenant func) (fun _ _ => True) p s := by
  refine hp.sat (R := fun _ => True) (fun _ _ _ _ _ _ => trivial) (fun c _ _ _ hc _ _ => ?_) trivial
  refine ⟨?_, trivial⟩
  show JoinsOf tenant func c
  cases c with
  | join handle task => exact absurd rfl (hc handle task)
  | _ => trivial

theorem judged_spawnBlocking {ε : Type} {task : Task} {permit : Bool} {s : Unit}
    (h : TaskOf tenant func task) :
    Sat (hostJudge W tenant func)
      (fun (r : Except (Exit ε) (Except JoinError (task.Out W))) _ =>
        ∀ out, r = .ok (.ok out) → TaskYields task out) (spawnBlocking task permit).run s := by
  refine Sat.liftE ?_
  intro s₁ _ handle s₂ _
  refine ⟨trivial, Sat.bind ((Sat.judged_perform (Q := GoodJoin (.join handle task)) h
    fun _ hr => hr).mono fun r s hr => ?_)⟩
  rcases r with _ | (_ | out)
  · intro out h
    cases h
  · intro out h
    cases h
  · intro out h
    cases h
    exact hr

theorem loadResult_ok {α : Type} {what : String} {r : Except JoinError (Except Error α)} {s : Unit} :
    Sat (hostJudge W tenant func) (fun q _ => ∀ a, q = .ok a → r = .ok (.ok a))
      (loadResult what r).run s := by
  rcases r with _ | (_ | _)
  · intro a h
    cases h
  · intro a h
    cases h
  · intro a h
    cases h
    rfl

theorem judged_loadPre {s : Unit} : Sat (hostJudge W tenant func) (fun _ _ => True)
    (loadPre (W := W) tenant func).run s := by
  unfold loadPre
  refine Sat.bindE ((judged_spawnBlocking
    (show TaskOf tenant func (.lookup tenant func) from ⟨rfl, rfl⟩)).mono fun r s hr => ?_)
  rcases r with e | r
  · trivial
  refine Sat.bindE (loadResult_ok.mono fun found s hfound => ?_)
  rcases found with e | (_ | pre | digest)
  · trivial
  · trivial
  · trivial
  have hd : isValidDigest digest = true := hr _ (congrArg Except.ok (hfound _ rfl)) digest rfl
  -- the blob of the pointer's digest
  refine Sat.bindE ((judged_spawnBlocking
    (show TaskOf tenant func (.loadExisting digest) from hd)).mono fun r s _ => ?_)
  rcases r with e | r
  · trivial
  refine Sat.bindE (loadResult_ok.mono fun loaded s _ => ?_)
  rcases loaded with e | (pre | _)
  · trivial
  · trivial
  refine Sat.bindE (Sat.mono (Q := fun _ _ => True)
    (judged_noJoin (.bind (.perform fun _ _ h => by cases h) fun r => by cases r <;> trivial))
    fun r s _ => ?_)
  rcases r with e | _
  · trivial
  refine Sat.bindE ((judged_spawnBlocking
    (show TaskOf tenant func (.getOrLoad digest) from hd)).mono fun r s _ => ?_)
  rcases r with e | r
  · trivial
  exact loadResult_ok.mono fun _ _ _ => trivial

theorem runGuest_noJoin {cfg : RuntimeConfig} {meter : Bool} {pre : W.HandlerPre}
    {input : List UInt8} {limits : Limits} :
    (runGuest cfg meter pre tenant func input limits).run.Calls NoJoin := by
  have hfinish : ∀ usage ok, (MeterGuard.finish (W := W) meter tenant func usage ok).Calls NoJoin := by
    intro usage ok
    unfold MeterGuard.finish
    split
    · exact .perform fun _ _ h => by cases h
    · trivial
  have hdrop : ∀ done, (MeterGuard.drop (W := W) meter done tenant func).Calls NoJoin := by
    intro done
    unfold MeterGuard.drop
    split
    · trivial
    split
    · refine .bind (.perform fun _ _ h => by cases h) fun ticks => ?_
      exact .bind (.perform fun _ _ h => by cases h) fun wall => .perform fun _ _ h => by cases h
    · trivial
  refine .bind (.perform fun _ _ h => by cases h) fun run => ?_
  cases run with
  | none => exact .bind (hdrop false) fun _ => trivial
  | some run =>
    refine .bind (.perform fun _ _ h => by cases h) fun ticks => ?_
    refine .bind (.perform fun _ _ h => by cases h) fun wall => ?_
    exact .bind (hfinish _ _) fun _ => .bind (hdrop true) fun _ => trivial

theorem judged_invoke (cfg : RuntimeConfig) (meter : Bool) {input : List UInt8} {limits : Limits}
    {s : Unit} : Sat (hostJudge W tenant func) (fun _ _ => True)
      (invoke (W := W) cfg meter tenant func input limits).run s := by
  have hcall : ∀ (c : HostCall W) s, NoJoin c →
      Sat (hostJudge W tenant func) (fun _ _ => True) (Prog.perform c) s :=
    fun c s hc => judged_noJoin (.perform hc)
  unfold invoke
  split
  · trivial
  split
  · trivial
  refine Sat.liftE ((hcall (.acquireSlot tenant) s fun _ _ h => by cases h).mono fun slot s _ => ?_)
  cases slot with
  | false => trivial
  | true =>
  refine Sat.guarded (Sat.mono (Q := fun _ _ => True) ?_
    fun r s _ => hcall _ s fun _ _ h => by cases h)
  cases admissionWeight cfg limits with
  | none => trivial
  | some weight =>
  refine Sat.liftE ((hcall (.tryAcquireMany weight) s fun _ _ h => by cases h).mono
    fun admission s _ => ?_)
  cases admission with
  | false => trivial
  | true =>
  refine Sat.guarded (Sat.mono (Q := fun _ _ => True) ?_
    fun r s _ => hcall _ s fun _ _ h => by cases h)
  refine Sat.bindE (judged_loadPre.mono fun r s _ => ?_)
  cases r with
  | error e => trivial
  | ok pre => exact judged_noJoin runGuest_noJoin

/-! ## All calls together -/

theorem TempOf.registry {p : PathBuf} (h : TempOf tenant p) : RegistryPath tenant func p := by
  obtain ⟨dir, suffix, hdir, rfl⟩ := h
  exact .temp hdir suffix

theorem RegistryCall.paths {c : FsCall} (h : RegistryCall tenant func writes c) :
    ∀ p ∈ callPaths c, RegistryPath tenant func p := by
  have hone : ∀ {q : PathBuf}, RegistryPath tenant func q →
      ∀ p ∈ [q], RegistryPath tenant func p := by
    intro q hq p hp
    rwa [List.mem_singleton.1 hp]
  have htwo : ∀ {q q' : PathBuf}, RegistryPath tenant func q → RegistryPath tenant func q' →
      ∀ p ∈ [q, q'], RegistryPath tenant func p := by
    intro q q' hq hq' p hp
    obtain rfl | hp := List.mem_cons.1 hp
    · exact hq
    · exact hone hq' p hp
  cases h with
  | reading _ hp h => exact hp ▸ hone h
  | createDirAll h => exact h.ancestors
  | createTemp h => exact hone (.dir h)
  | writeAll h | syncAll h | setPermissions h | removeTemp h => exact hone h.registry
  | renameBlob h hd => exact htwo h.registry hd.registry
  | touch h => exact hone h.registry
  | renamePointer _ h ht hf => exact htwo h.registry (.pointer ht hf)
  | removePointer _ ht hf => exact hone (.pointer ht hf)

/-- What a call touches is within what it may name. -/
theorem touched_confined {c : FsCall} {r : FsRes c} (hc : RegistryCall tenant func writes c)
    (hr : GoodAnswer c r) : ∀ p ∈ touchedPaths c r, RegistryPath tenant func p := by
  intro p hp
  cases c with
  | createTemp dir =>
    cases r with
    | error e => exact hc.paths p hp
    | ok tmp =>
      obtain ⟨suffix, rfl⟩ := hr
      cases hc with
      | reading h => cases h
      | createTemp hdir =>
        obtain rfl | hp := List.mem_cons.1 hp
        · exact .dir hdir
        · rw [List.mem_singleton.1 hp]
          exact .temp hdir suffix
  | _ => exact hc.paths p hp

/-- A call with a malformed name or digest has failed before it makes a call. -/
theorem malformed_run {op : RegistryOp} (h : op.Malformed) (engine : W.Engine)
    (cfg : RuntimeConfig) (meter : Bool) :
    ∃ out, op.run engine cfg meter = .ret out ∧ out.isError = true := by
  have hnames : (!validName op.tenant || !validName op.func) = true ∨
      ∃ digest, op.digest? = some digest ∧ isValidDigest digest = false := by
    obtain h | h | ⟨digest, hd, h⟩ := h
    · rw [← validName_iff] at h
      exact .inl (by simp [h])
    · rw [← validName_iff] at h
      exact .inl (by simp [h])
    · rw [← isValidDigest_iff] at h
      exact .inr ⟨digest, hd, by simpa using h⟩
  by_cases hn : (!validName op.tenant || !validName op.func) = true
  · cases op <;> simp only [RegistryOp.tenant, RegistryOp.func] at hn
    case activate tenant func staged =>
      exact ⟨.done (.error .invalidName), by rw [RegistryOp.run, activate, if_pos hn]; rfl, rfl⟩
    case active tenant func =>
      exact ⟨.active (.error .invalidName), by rw [RegistryOp.run, active, if_pos hn]; rfl, rfl⟩
    case deactivate tenant func =>
      exact ⟨.done (.error .invalidName), by rw [RegistryOp.run, deactivate, if_pos hn]; rfl, rfl⟩
    case activateDigest tenant func digest =>
      exact ⟨.done (.error .invalidName), by rw [RegistryOp.run, activateDigest, if_pos hn]; rfl,
        rfl⟩
    case publish tenant func wasm =>
      exact ⟨.published (.error .invalidName), by rw [RegistryOp.run, publish, if_pos hn]; rfl, rfl⟩
    case invoke tenant func input limits =>
      exact ⟨.invoked (.error (.error .invalidName)), by rw [RegistryOp.run, invoke, if_pos hn]; rfl,
        rfl⟩
  · obtain ⟨digest, hd, hmal⟩ := hnames.resolve_left hn
    cases op with
    | activate tenant func staged =>
      cases hd
      simp only [RegistryOp.tenant, RegistryOp.func] at hn
      refine ⟨.done (.error (.registry (.corrupt
        "invalid digest: expected 64 lowercase hex characters"))), ?_, rfl⟩
      rw [RegistryOp.run, activate, if_neg hn, writePointer, if_pos (by simp [hmal])]
      rfl
    | activateDigest tenant func =>
      cases hd
      simp only [RegistryOp.tenant, RegistryOp.func] at hn
      refine ⟨.done (.error (.registry (.corrupt
        "invalid digest: expected 64 lowercase hex characters"))), ?_, rfl⟩
      rw [RegistryOp.run, activateDigest, if_neg hn, if_pos (by simp [hmal])]
      rfl
    | _ => cases hd

theorem judged_run (op : RegistryOp) (engine : W.Engine) (cfg : RuntimeConfig) (meter : Bool)
    {s : Unit} : Sat (facadeJudge W op.tenant op.func) (fun _ _ => True)
      (op.run engine cfg meter) s := by
  have hfiles : ∀ {ε α : Type} {p : ExceptT ε FsM α} {f : Except ε α → RegistryOut} {s : Unit},
      Sat (registryThread op.tenant op.func true) (fun _ _ => True) p.run s →
        Sat (facadeJudge W op.tenant op.func) (fun _ _ => True)
          (onFacade p >>= fun r => pure (f r)) s :=
    fun h => Sat.bind ((Sat.judged_inl (Sat.judged_inl h)).mono fun _ _ _ => trivial)
  cases op with
  | activate tenant func staged => exact hfiles judged_activate
  | active tenant func => exact hfiles judged_active
  | deactivate tenant func => exact hfiles judged_deactivate
  | activateDigest tenant func digest => exact hfiles judged_activateDigest
  | publish tenant func wasm => exact hfiles (judged_publish W engine)
  | invoke tenant func input limits =>
    exact Sat.bind ((judged_served (Q := fun _ => True) engine
      (judged_invoke cfg meter)).mono fun _ _ _ => trivial)

theorem pointerForm_inj {tenant' func' : Str}
    (h : pointerForm tenant func = pointerForm tenant' func') : tenant = tenant' ∧ func = func' := by
  simpa [pointerForm] using h

theorem wasmForm_inj {digest' : Str} (h : wasmForm digest = wasmForm digest') :
    digest = digest' := by
  simpa [wasmForm] using h

theorem cwasmForm_inj {digest' compat compat' : Str} (hd : IsHex64 digest) (hd' : IsHex64 digest')
    (h : cwasmForm digest compat = cwasmForm digest' compat') :
    digest = digest' ∧ compat = compat' := by
  have h : digest ++ '-' :: compat ++ ".cwasm".toList = digest' ++ '-' :: compat' ++ ".cwasm".toList :=
    by simpa [cwasmForm] using h
  obtain ⟨h₁, h₂⟩ := List.append_inj (List.append_cancel_right h) (hd.1.trans hd'.1.symm)
  exact ⟨h₁, (List.cons.inj h₂).2⟩

section
variable {τ : Type} [DecidableEq τ]

theorem exec_goodAnswer {me : τ} {ch : Choice} {s s' : State τ} {c : FsCall} {r : FsRes c}
    (h : exec me ch s c = some (r, s')) : GoodAnswer c r := by
  cases c with
  | createTemp dir =>
    obtain ⟨suffix, rfl, -⟩ | ⟨e, rfl, -⟩ := exec_createTemp h
    · exact ⟨suffix, rfl⟩
    · trivial
  | _ => trivial

theorem registryExec_good {me : τ} {ch : RegistryChoice W} {s s' : State τ} {c : FacadeCall W}
    {r : FacadeRes c} (h : registryExec me ch s c = some (r, s')) :
    onLeft (onLeft GoodAnswer) c r := by
  rcases c with (c | c) | c
  · exact exec_goodAnswer h
  · trivial
  · trivial

/-- The calls `ops` of the facade, all at once. -/
def registryStart (ops : τ → RegistryOp) (engine : τ → W.Engine) (cfg : τ → RuntimeConfig)
    (meter : τ → Bool) (s : State τ) :
    Config τ (Traced τ (State τ) (FacadeCall W) FacadeRes) (FacadeCall W) FacadeRes
      fun _ => RegistryOut :=
  ⟨⟨s, []⟩, fun t => (ops t).run (engine t) (cfg t) (meter t)⟩

/-- **Confinement**: whatever the pointers, the blobs and the caches hold and however the calls
interleave, a call stays on the paths of its names and of digests, malformed ones make no call at
all, and different names or digests have different paths. -/
theorem registry_confined (ops : τ → RegistryOp) (engine : τ → W.Engine) (cfg : τ → RuntimeConfig)
    (meter : τ → Bool) (s₀ : State τ)
    (C : Config τ (Traced τ (State τ) (FacadeCall W) FacadeRes) (FacadeCall W) FacadeRes
      fun _ => RegistryOut)
    (hr : Reach (registrySystem W τ).traced (registryStart ops engine cfg meter s₀) C) :
    (∀ t c r, (t, ⟨.inl (.inl c), r⟩) ∈ C.shared.trace →
      ∀ p ∈ touchedPaths c r, RegistryPath (ops t).tenant (ops t).func p) ∧
    (∀ t, (ops t).Malformed →
      (∃ out, C.prog t = .ret out ∧ out.isError = true) ∧ C.shared.trace.of t = []) ∧
    (∀ tenant func tenant' func', pointerForm tenant func = pointerForm tenant' func' →
      tenant = tenant' ∧ func = func') ∧
    (∀ digest digest', wasmForm digest = wasmForm digest' → digest = digest') ∧
    ∀ digest digest' compat compat', IsHex64 digest → IsHex64 digest' →
      cwasmForm digest compat = cwasmForm digest' compat' → digest = digest' := by
  refine ⟨fun t c r hm => ?_, fun t hmal => ?_, fun _ _ _ _ => pointerForm_inj,
    fun _ _ => wasmForm_inj, fun _ _ _ _ hd hd' h => (cwasmForm_inj hd hd' h).1⟩
  · -- every call of `t` is judged by `t`'s names
    obtain ⟨-, hcalls⟩ := hr.judged (G := onLeft (onLeft GoodAnswer))
      (Q := fun _ _ => True) (fun _ _ _ _ _ _ ⟨_, h⟩ => registryExec_good h)
      fun t => judged_run (ops t) (engine t) (cfg t) (meter t)
    obtain hm | ⟨hc, hgood⟩ := hcalls t (.inl (.inl c)) r hm
    · cases hm
    · exact touched_confined hc hgood
  · obtain ⟨out, hret, herr⟩ := malformed_run hmal (engine t) (cfg t) (meter t)
    exact ⟨⟨out, hr.ret hret, herr⟩, hr.of_ret hret⟩

end

/-! ## A run -/

def servedCalls : Bool → RegistryOp
  | false => .activateDigest ['t'] ['f'] "../../etc/passwd".toList
  | true => .activate ['t'] ['f'] ⟨List.replicate 64 'a'⟩

/-- A choice for the files alone. -/
def fileChoice (ch : Choice) : RegistryChoice Wasm.plain where
  file := ch
  cache
    | .hit _ => (none : Option Bytes)
    | .insert _ _ _ => ()
  host
    | .acquireSlot _ | .tryAcquireMany _ => true
    | .dropSlot _ | .releaseMany _ | .record _ _ _ _ => ()
    | .acquirePermit => (none : Option Unit)
    | .spawnBlocking _ _ => (0 : Nat)
    | .join _ task => (none : Option (Except JoinError (task.Out Wasm.plain)))
    | .run _ _ _ _ _ => (none : Option Sandbox.Run)
    | .loadTicks | .elapsed => (0 : UInt64)

theorem registry_confined_activate : ∃ C,
    (registryStart (W := Wasm.plain) servedCalls (fun _ => (0 : Nat)) (fun _ => ⟨1, 1, 1, 1, 1⟩)
      (fun _ => false) (.ofTree ⟨∅⟩)).play
        (tracing fun ch _ t s c => registryExec t (fileChoice ch) s c)
        [(true, .ofNow 1), (true, .ofSuffix 1 ['x']), (true, .ofNow 1), (true, .ofNow 1),
          (true, .ofNow 1), (true, .ofNow 1)] = some C ∧
      C.shared.trace.length = 6 ∧
      (∀ c r, (true, ⟨.inl (.inl c), r⟩) ∈ C.shared.trace →
        ∀ p ∈ touchedPaths c r, RegistryPath ['t'] ['f'] p) ∧
      (∃ out, C.prog false = .ret out ∧ out.isError = true) ∧ C.shared.trace.of false = [] := by
  have hrun : ((registryStart (W := Wasm.plain) servedCalls (fun _ => (0 : Nat))
      (fun _ => ⟨1, 1, 1, 1, 1⟩) (fun _ => false) (.ofTree ⟨∅⟩)).play
        (tracing fun ch _ t s c => registryExec t (fileChoice ch) s c)
        [(true, .ofNow 1), (true, .ofSuffix 1 ['x']), (true, .ofNow 1), (true, .ofNow 1),
          (true, .ofNow 1), (true, .ofNow 1)]).any
        (fun C => decide (C.shared.trace.length = 6)) = true := by
    decide +kernel
  rw [Option.any_eq_true] at hrun
  obtain ⟨C, hplay, hC⟩ := hrun
  have hreach := play_reach (tracing_sound (S := registrySystem Wasm.plain Bool)
    fun ch _ _ _ _ _ _ h => ⟨fileChoice ch, h⟩) hplay
  obtain ⟨hpaths, hmal, -⟩ := registry_confined _ _ _ _ _ C hreach
  exact ⟨C, hplay, of_decide_eq_true hC, hpaths true,
    hmal false (.inr (.inr ⟨_, rfl, fun h => absurd h.1 (by decide)⟩))⟩

end

end Warpline
