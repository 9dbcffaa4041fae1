import Warpline.Core.Cache

/-!
# The module registry (`registry.rs`)

Paths, pointer files and source blobs below the modules directory.
-/

set_option autoImplicit false

namespace Warpline

open Conc Fs

/-! ## Layout -/

def modulesDir : PathBuf := []

def cwasmDir : PathBuf := modulesDir.join "cwasm".toList

def wasmDir : PathBuf := modulesDir.join "wasm".toList

def tenantsDir : PathBuf := modulesDir.join "tenants".toList

def wasmPath (digest : Str) : PathBuf := wasmDir.join (digest ++ ".wasm".toList)

/-- `path.is_file()`. -/
def isFile (path : PathBuf) : FsM Bool := do
  match ← metadata path with
  | .ok m => return !m.isDir
  | .error _ => return false

def wasmExists (digest : Str) : FsM Bool :=
  if isValidDigest digest then isFile (wasmPath digest) else return false

def pointerPath (tenant func : Str) : Option PathBuf :=
  if !validName tenant || !validName func then none
  else some ((tenantsDir.join tenant).join func)

/-! Every path the registry builds is a plain entry of its directory, and no temporary file. -/

theorem wasmPath_eq {digest : Str} (h : isValidDigest digest = true) :
    wasmPath digest = wasmDir.child (.ofStr (digest ++ ".wasm".toList)) := by
  obtain ⟨hlen, hc⟩ := isValidDigest_spec h
  refine PathBuf.join_eq_child (fun hm => ?_) (by simp) fun heq => ?_
  · rcases List.mem_append.1 hm with hm | hm
    · exact (hc _ hm).1 rfl
    · exact absurd hm (by decide)
  · have := congrArg List.length heq
    simp at this

theorem cwasmPath_eq (W : Wasm) (engine : W.Engine) {digest : Str}
    (h : isValidDigest digest = true) :
    cwasmDir.join (cacheFileName W engine digest) =
      cwasmDir.child (.ofStr (cacheFileName W engine digest)) := by
  obtain ⟨hlen, hc⟩ := isValidDigest_spec h
  obtain ⟨hlen', hc'⟩ := isValidDigest_spec (W.compatHash_valid engine)
  refine PathBuf.join_eq_child (fun hm => ?_) (by simp [cacheFileName]) fun heq => ?_
  · rcases List.mem_append.1 hm with hm | hm
    · rcases List.mem_append.1 hm with hm | hm
      · exact (hc _ hm).1 rfl
      · rcases List.mem_cons.1 hm with hm | hm
        · exact absurd hm (by decide)
        · exact (hc' _ hm).1 rfl
    · exact absurd hm (by decide)
  · have := congrArg List.length heq
    simp [cacheFileName] at this
    omega

theorem pointerPath_eq_some {tenant func : Str} {path : PathBuf} :
    pointerPath tenant func = some path ↔ validName tenant = true ∧ validName func = true ∧
      path = (tenantsDir.child (.ofStr tenant)).child (.ofStr func) := by
  unfold pointerPath
  by_cases ht : validName tenant = true
  · by_cases hf : validName func = true
    · have hjoin : ∀ (p : PathBuf) {s : Str}, validName s = true → p.join s = p.child (.ofStr s) :=
        fun p s h => PathBuf.join_eq_child (validName_spec h).1 (validName_spec h).2.2
          fun h1 => (validName_spec h).2.1 (by simp [h1])
      simp [ht, hf, hjoin, eq_comm]
    · simp [ht, hf]
  · simp [ht]

/-- A file name that does not start with `.` is no temporary file's. -/
theorem not_temp_of_head {dir : PathBuf} {c : Char} {name : Str} (hc : c ≠ '.') :
    ¬ TempPath (dir.child (.ofStr (c :: name))) := by
  intro ht
  obtain ⟨rest, hrest⟩ := ht.name_prefix
  exact hc (List.cons.inj hrest).1.symm

/-- A digest starts with a hex character. -/
theorem digest_cons {digest : Str} (h : isValidDigest digest = true) :
    ∃ c rest, digest = c :: rest ∧ c ≠ '.' := by
  obtain ⟨hlen, hc⟩ := isValidDigest_spec h
  cases digest with
  | nil => cases hlen
  | cons c rest => exact ⟨c, rest, rfl, (hc c (.head _)).2.1⟩

theorem wasmPath_not_temp {digest : Str} (h : isValidDigest digest = true) :
    ¬ TempPath (wasmPath digest) := by
  rw [wasmPath_eq h]
  obtain ⟨c, rest, rfl, hc⟩ := digest_cons h
  exact not_temp_of_head hc

theorem cwasmPath_not_temp (W : Wasm) (engine : W.Engine) {digest : Str}
    (h : isValidDigest digest = true) :
    ¬ TempPath (cwasmDir.join (cacheFileName W engine digest)) := by
  rw [cwasmPath_eq W engine h]
  obtain ⟨c, rest, rfl, hc⟩ := digest_cons h
  exact not_temp_of_head hc

theorem pointerPath_not_temp {tenant func : Str} {path : PathBuf}
    (h : pointerPath tenant func = some path) : ¬ TempPath path := by
  obtain ⟨-, hf, rfl⟩ := pointerPath_eq_some.1 h
  cases func with
  | nil => exact absurd rfl (validName_spec hf).2.2
  | cons c rest =>
    exact not_temp_of_head fun hc => (validName_spec hf).2.1 (hc ▸ List.mem_cons_self)

theorem wasmPath_ne_cwasm (W : Wasm) (engine : W.Engine) {digest digest' : Str}
    (h : isValidDigest digest = true) (h' : isValidDigest digest' = true) :
    wasmPath digest ≠ cwasmDir.join (cacheFileName W engine digest') := by
  rw [wasmPath_eq h, cwasmPath_eq W engine h']
  intro heq
  exact absurd (PathBuf.child_inj.1 heq).1 (by decide)

theorem pointerPath_length {tenant func : Str} {path : PathBuf}
    (h : pointerPath tenant func = some path) : path.length = 3 := by
  obtain ⟨-, -, rfl⟩ := pointerPath_eq_some.1 h
  have htenants : tenantsDir.length = 1 := by decide
  simp [PathBuf.child, htenants]

theorem pointerPath_inj {tenant func tenant' func' : Str} {path : PathBuf}
    (h : pointerPath tenant func = some path) (h' : pointerPath tenant' func' = some path) :
    tenant = tenant' ∧ func = func' := by
  obtain ⟨-, -, rfl⟩ := pointerPath_eq_some.1 h
  obtain ⟨-, -, heq⟩ := pointerPath_eq_some.1 h'
  rw [PathBuf.child_inj, PathBuf.child_inj, Bytes.ofStr_inj, Bytes.ofStr_inj] at heq
  exact ⟨heq.1.2, heq.2⟩

theorem wasmPath_ne_pointer {digest tenant func : Str} {path : PathBuf}
    (h : isValidDigest digest = true) (hp : pointerPath tenant func = some path) :
    wasmPath digest ≠ path := by
  rintro rfl
  have hlen := pointerPath_length hp
  have hdir : wasmDir.length = 1 := by decide
  simp [wasmPath_eq h, PathBuf.child, hdir] at hlen

theorem cwasmPath_ne_pointer (W : Wasm) (engine : W.Engine) {digest tenant func : Str}
    {path : PathBuf} (h : isValidDigest digest = true) (hp : pointerPath tenant func = some path) :
    cwasmDir.join (cacheFileName W engine digest) ≠ path := by
  rintro rfl
  have hlen := pointerPath_length hp
  have hdir : cwasmDir.length = 1 := by decide
  simp [cwasmPath_eq W engine h, PathBuf.child, hdir] at hlen

/-! ## Pointers -/

def writePointer (tenant func digest : Str) : ExceptT Error FsM Unit :=
  if !isValidDigest digest then
    throw (.corrupt "invalid digest: expected 64 lowercase hex characters")
  else match pointerPath tenant func with
    | none => throw (.corrupt "invalid tenant or function name")
    | some path => atomicWrite path.parent path (.ofStr digest)

def removePointer (tenant func : Str) : ExceptT Error FsM Unit :=
  match pointerPath tenant func with
  | none => pure ()
  | some path => ExceptT.mk do
    match ← removeFile path with
    | .error .other => return .error (.io .other)
    | _ => return .ok ()

/-- `path.display()`, below the modules directory. -/
def display (path : PathBuf) : String :=
  String.ofList (List.intercalate ['/'] (path.map Bytes.toStringLossy))

def readPointer (tenant func : Str) : ExceptT Error FsM (Option Str) :=
  match pointerPath tenant func with
  | none => pure none
  | some path => ExceptT.mk do
    match ← readToString path with
    | .error .notFound => return .ok none
    | .error e => return .error (.io e)
    | .ok contents =>
      let digest := Str.trim contents
      if !isValidDigest digest then
        return .error (.corrupt ("corrupt pointer file " ++ display path ++ ": not a valid digest"))
      else return .ok (some digest)

/-! ## Source blobs -/

def writeWasmSource (digest : Str) (wasmBytes : Bytes) : ExceptT Error FsM Unit :=
  if !isValidDigest digest then
    throw (.corrupt "invalid digest: expected 64 lowercase hex characters")
  else do
    let dest := wasmPath digest
    let touched ← touch dest
    match touched with
    | .ok _ => pure ()
    | .error .notFound => atomicWrite wasmDir dest wasmBytes
    | .error e => throw (.io e)

/-! ## Garbage collection -/

def olderThan (path : PathBuf) (grace : Nat) : FsM Bool := do
  match ← metadata path with
  | .ok m => return decide (grace ≤ m.elapsed)
  | .error _ => return false

def removed (path : PathBuf) : FsM Bool := do
  let res ← removeFile path
  return res.toBool

/-- `older_than(path, grace) && remove_file(path).is_ok()`. -/
def collect (grace : Nat) (path : PathBuf) : FsM Bool := do
  if ← olderThan path grace then removed path else return false

/-- The body of the loops over a listing, which count what they remove: `name` is removed if it
is selected and old. -/
def collectEntry (selected : Bytes → Bool) (grace : Nat) (dir : PathBuf) (count : Nat)
    (name : Bytes) : FsM Nat := do
  if selected name then
    if ← collect grace (dir.child name) then return count + 1 else return count
  else return count

def isTempName (name : Bytes) : Bool := ".tmp".toList.isPrefixOf name.toStringLossy

def sweepStaleTempFiles (dir : PathBuf) (grace : Nat) : FsM Nat := do
  match ← readDir dir with
  | .error _ => return 0
  | .ok entries =>
    -- entries that cannot be read are skipped
    (listed entries).foldlM (collectEntry isTempName grace dir) 0

/-- One entry of a directory under `tenants/`: the digest it holds, if it is a pointer. -/
def pointerEntry (dir : PathBuf) (referenced : List Str) (entry : Except IoError Bytes) :
    ExceptT Error FsM (List Str) :=
  match entry with
  | .error e => throw (.io e)
  | .ok name =>
    if isTempName name then pure referenced
    else ExceptT.mk do
      match ← readToString (dir.child name) with
      | .error .notFound => return .ok referenced
      | .error e => return .error (.io e)
      | .ok contents =>
        let digest := Str.trim contents
        if isValidDigest digest then return .ok (digest :: referenced) else return .ok referenced

/-- One entry of `tenants/`: the digests below it and, if it is a directory, its path. -/
def tenantEntry (acc : List Str × List PathBuf) (entry : Except IoError Bytes) :
    ExceptT Error FsM (List Str × List PathBuf) :=
  match entry with
  | .error e => throw (.io e)
  | .ok name => do
    let dir := tenantsDir.child name
    let fileType ← io (metadata dir)
    if !fileType.isDir then pure acc
    else do
      let entries ← io (readDir dir)
      let referenced ← entries.foldlM (pointerEntry dir) acc.1
      pure (referenced, acc.2 ++ [dir])

/-- Pass 1: every referenced digest and every tenant directory. -/
def gcReferenced : ExceptT Error FsM (List Str × List PathBuf) := do
  let tenants ← readDir tenantsDir
  match tenants with
  | .ok entries => entries.foldlM tenantEntry ([], [])
  | .error .notFound => pure ([], [])
  | .error e => throw (.io e)

/-- Whether `wasm/name` is a blob no pointer references. -/
def collectibleWasm (referenced : List Str) (name : Str) : Bool :=
  match Str.stripSuffix name ".wasm".toList with
  | some digest => !referenced.contains digest
  | none => false

/-- Whether `cwasm/name` is unreferenced or compiled for another engine. -/
def collectibleCwasm (referenced : List Str) (currentCompat name : Str) : Bool :=
  match Str.stripSuffix name ".cwasm".toList with
  | some rest =>
    match Str.splitOnce '-' rest with
    | some (digest, compat) => !referenced.contains digest || compat != currentCompat
    | none => false
  | none => false

/-- `wasm/` or `cwasm/` in pass 2: stale temporary files, then every old collectible blob. -/
def gcDir (dir : PathBuf) (collectible : Str → Bool) (grace : Nat) : ExceptT Error FsM Nat := do
  if ← pathExists dir then
    let swept ← sweepStaleTempFiles dir grace
    let entries ← io (readDir dir)
    entries.foldlM (fun count entry =>
      match entry with
      | .error e => throw (.io e)
      | .ok name =>
        liftM (collectEntry (fun name => collectible name.toStringLossy) grace dir count name)) swept
  else pure 0

/-- Pass 2: delete. -/
def gcRemove (W : Wasm) (engine : W.Engine) (grace : Nat) (referenced : List Str)
    (tenantDirs : List PathBuf) : ExceptT Error FsM Nat := do
  let swept ← (tenantDirs.foldlM (fun count dir => do
    let n ← sweepStaleTempFiles dir grace
    return count + n) 0 : FsM Nat)
  let wasm ← gcDir wasmDir (collectibleWasm referenced) grace
  let cwasm ← gcDir cwasmDir (collectibleCwasm referenced (W.compatHash engine)) grace
  pure (swept + wasm + cwasm)

def gcUnreferencedBlobs (W : Wasm) (engine : W.Engine) (grace : Nat) : ExceptT Error FsM Nat := do
  let (referenced, tenantDirs) ← gcReferenced
  gcRemove W engine grace referenced tenantDirs

end Warpline
