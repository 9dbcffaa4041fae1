import Warpline.Conc.Prog
import Warpline.Fs.Tree

/-!
# File-system calls

What one call does to the tree, for the thread `me` that makes it. Everything a call may leave
open is in a `Choice`: the clock, an injected fault, the order of a listing, the name of a
temporary file.

A temporary file belongs to the thread it was handed to, which writes to it through its handle:
the handle keeps working when the file's name is gone. Names are never handed out twice.

`Fs/Effect.lean` says of each call what it can change and what it answers.
-/

set_option autoImplicit false

namespace Fs

inductive IoError
  | notFound
  | other
  deriving DecidableEq, Repr

/-- `Metadata`, with `modified().elapsed()` read along with it. -/
structure Metadata where
  isDir : Bool
  len : Nat
  elapsed : Nat
  deriving DecidableEq, Repr

inductive FsCall
  | readDir (dir : PathBuf)
  | metadata (path : PathBuf)
  | read (path : PathBuf)
  | readToString (path : PathBuf)
  | touch (path : PathBuf)
  | createDirAll (dir : PathBuf)
  | createTemp (dir : PathBuf)
  | writeAll (temp : PathBuf) (bytes : Bytes)
  | syncAll (temp : PathBuf)
  | setPermissions (temp : PathBuf)
  | rename (src dest : PathBuf)
  | removeFile (path : PathBuf)
  deriving DecidableEq

def FsOk : FsCall → Type
  | .readDir _ => List (Except IoError Bytes)
  | .metadata _ => Metadata
  | .read _ => Bytes
  | .readToString _ => Str
  | .createTemp _ => PathBuf
  | _ => Unit

abbrev FsRes (c : FsCall) : Type := Except IoError (FsOk c)

/-! ## Programs over file-system calls -/

abbrev FsM := Conc.Prog FsCall FsRes

abbrev readDir (dir : PathBuf) : FsM (Except IoError (List (Except IoError Bytes))) :=
  .perform (FsCall.readDir dir)
abbrev metadata (path : PathBuf) : FsM (Except IoError Metadata) := .perform (FsCall.metadata path)
abbrev read (path : PathBuf) : FsM (Except IoError Bytes) := .perform (FsCall.read path)
abbrev readToString (path : PathBuf) : FsM (Except IoError Str) := .perform (FsCall.readToString path)
abbrev touch (path : PathBuf) : FsM (Except IoError Unit) := .perform (FsCall.touch path)
abbrev createDirAll (dir : PathBuf) : FsM (Except IoError Unit) := .perform (FsCall.createDirAll dir)
abbrev createTemp (dir : PathBuf) : FsM (Except IoError PathBuf) := .perform (FsCall.createTemp dir)
abbrev writeAll (temp : PathBuf) (bytes : Bytes) : FsM (Except IoError Unit) :=
  .perform (FsCall.writeAll temp bytes)
abbrev syncAll (temp : PathBuf) : FsM (Except IoError Unit) := .perform (FsCall.syncAll temp)
abbrev setPermissions (temp : PathBuf) : FsM (Except IoError Unit) :=
  .perform (FsCall.setPermissions temp)
abbrev rename (src dest : PathBuf) : FsM (Except IoError Unit) := .perform (FsCall.rename src dest)
abbrev removeFile (path : PathBuf) : FsM (Except IoError Unit) := .perform (FsCall.removeFile path)

/-! ## The state -/

def tempName (suffix : Str) : Bytes := Bytes.ofStr (".tmp".toList ++ suffix)

def TempPath (p : PathBuf) : Prop := ∃ dir suffix, p = PathBuf.child dir (tempName suffix)

theorem TempPath.name_prefix {p : PathBuf} {name : Str} (h : TempPath (p.child (.ofStr name))) :
    ".tmp".toList <+: name := by
  obtain ⟨dir, suffix, h⟩ := h
  rw [PathBuf.child_inj, tempName, Bytes.ofStr_inj] at h
  exact ⟨suffix, h.2.symm⟩

/-- The tree, and the temporary files handed out so far with the thread each belongs to. -/
structure State (τ : Type) where
  tree : DirTree
  temps : PathBuf → Option τ
  temp_named : ∀ p t, temps p = some t → TempPath p

structure Choice where
  now : Nat
  fault : Bool
  entries : List (Except IoError Bytes)
  suffix : Str
  partialWrite : Bytes

/-- The names a listing yields, the entries that could not be read apart. -/
def listed (entries : List (Except IoError Bytes)) : List Bytes := entries.filterMap Except.toOption

/-- No fault, and no entry of a listing that cannot be read. -/
def Choice.Faithful (ch : Choice) : Prop :=
  ch.fault = false ∧ (listed ch.entries).length = ch.entries.length

instance : DecidablePred Choice.Faithful := fun ch => by
  unfold Choice.Faithful
  infer_instance

/-- What `path` names, or why it names nothing. -/
def locate (t : DirTree) (p : PathBuf) : Except IoError Node :=
  match t.get p with
  | some n => .ok n
  | none => if t.underFile p then .error .other else .error .notFound

def metadataOf (now : Nat) : Node → Metadata
  | .dir => ⟨true, 0, 0⟩
  | .file b mtime => ⟨false, b.byteLen, now - mtime⟩

theorem mem_listed {entries : List (Except IoError Bytes)} {name : Bytes} :
    name ∈ listed entries ↔ .ok name ∈ entries := by
  simp only [listed, List.mem_filterMap]
  constructor
  · rintro ⟨x, hx, hn⟩
    cases x with
    | error e => cases hn
    | ok n => rwa [← Option.some.inj hn]
  · exact fun h => ⟨_, h, rfl⟩

/-- A listing without an entry that could not be read. -/
theorem listed_length_eq {entries : List (Except IoError Bytes)} :
    (listed entries).length = entries.length ↔ ∀ x ∈ entries, ∃ name, x = .ok name := by
  induction entries with
  | nil => simp [listed]
  | cons x entries ih =>
    have hle : (listed entries).length ≤ entries.length := List.length_filterMap_le _ _
    cases x with
    | ok name => simpa [listed, Except.toOption] using ih
    | error e =>
      simp only [listed, Except.toOption, List.length_cons, List.mem_cons,
        forall_eq_or_imp, reduceCtorEq, exists_false, false_and, iff_false]
      exact fun h => Nat.not_succ_le_self _ (h ▸ hle)

/-- A listing yields every name once, but for the entries that could not be read. -/
def Listing (t : DirTree) (dir : PathBuf) (entries : List (Except IoError Bytes)) : Prop :=
  (listed entries).Nodup ∧ listed entries ⊆ t.children dir ∧
    ((listed entries).length = entries.length → t.children dir ⊆ listed entries)

instance (t : DirTree) (dir : PathBuf) (entries : List (Except IoError Bytes)) :
    Decidable (Listing t dir entries) := by
  unfold Listing
  infer_instance

/-! ## Semantics -/

section
variable {τ : Type}

def State.setTree (s : State τ) (t : DirTree) : State τ := { s with tree := t }

@[simp] theorem State.setTree_tree (s : State τ) (t : DirTree) : (s.setTree t).tree = t := rfl
@[simp] theorem State.setTree_temps (s : State τ) (t : DirTree) : (s.setTree t).temps = s.temps := rfl

/-- The new temporary file of thread `me`. -/
def State.handOut (s : State τ) (me : τ) (dir : PathBuf) (suffix : Str) (now : Nat) : State τ where
  tree := s.tree.put (dir.child (tempName suffix)) (.file [] now)
  temps := Function.update s.temps (dir.child (tempName suffix)) (some me)
  temp_named p t h := by
    by_cases hp : p = dir.child (tempName suffix)
    · exact ⟨dir, suffix, hp⟩
    · exact s.temp_named p t (by rwa [Function.update_of_ne hp] at h)

def State.renamed (s : State τ) (src dest : PathBuf) (b : Bytes) (mtime : Nat) : State τ :=
  s.setTree ((s.tree.del src).put dest (.file b mtime))

/-- One call of thread `me`. No result: the choice `ch` does not fit the call. -/
def exec [DecidableEq τ] (me : τ) (ch : Choice) (s : State τ) : (c : FsCall) → Option (FsRes c × State τ)
  | .readDir dir =>
    if ch.fault then some (.error .other, s)
    else match locate s.tree dir with
      | .error e => some (.error e, s)
      | .ok (.file _ _) => some (.error .other, s)
      | .ok .dir => if Listing s.tree dir ch.entries then some (.ok ch.entries, s) else none
  | .metadata p =>
    if ch.fault then some (.error .other, s)
    else match locate s.tree p with
      | .error e => some (.error e, s)
      | .ok n => some (.ok (metadataOf ch.now n), s)
  | .read p =>
    if ch.fault then some (.error .other, s)
    else match locate s.tree p with
      | .error e => some (.error e, s)
      | .ok .dir => some (.error .other, s)
      | .ok (.file b _) => some (.ok b, s)
  | .readToString p =>
    if ch.fault then some (.error .other, s)
    else match locate s.tree p with
      | .error e => some (.error e, s)
      | .ok .dir => some (.error .other, s)
      | .ok (.file b _) =>
        match b.toStr with
        | some str => some (.ok str, s)
        | none => some (.error .other, s)
  | .touch p =>
    if ch.fault then some (.error .other, s)
    else match locate s.tree p with
      | .error e => some (.error e, s)
      | .ok .dir => some (.error .other, s)
      | .ok (.file b _) => some (.ok (), s.setTree (s.tree.put p (.file b ch.now)))
  | .createDirAll dir =>
    if ch.fault || s.tree.underFile dir then some (.error .other, s)
    else some (.ok (), s.setTree (s.tree.mkdirs dir))
  | .createTemp dir =>
    if ch.fault then some (.error .other, s)
    else match locate s.tree dir with
      | .error e => some (.error e, s)
      | .ok (.file _ _) => some (.error .other, s)
      | .ok .dir =>
        let p := dir.child (tempName ch.suffix)
        if s.tree.get p = none ∧ s.temps p = none then
          some (.ok p, s.handOut me dir ch.suffix ch.now)
        else none
  | .writeAll p b =>
    if s.temps p = some me then
      let b' := if ch.fault then ch.partialWrite else b
      let res : FsRes (.writeAll p b) := if ch.fault then .error .other else .ok ()
      match s.tree.get p with
      | some (.file _ _) => some (res, s.setTree (s.tree.put p (.file b' ch.now)))
      | _ => some (res, s)
    else none
  | .syncAll p =>
    if s.temps p = some me then some (if ch.fault then .error .other else .ok (), s) else none
  | .setPermissions p =>
    if s.temps p = some me then some (if ch.fault then .error .other else .ok (), s) else none
  | .rename src dest =>
    if ch.fault then some (.error .other, s)
    else match locate s.tree src, s.tree.get dest with
      | .error e, _ => some (.error e, s)
      | .ok .dir, _ => none
      | .ok (.file _ _), some .dir => some (.error .other, s)
      | .ok (.file b m), _ =>
        match locate s.tree dest.parent with
        | .error e => some (.error e, s)
        | .ok (.file _ _) => some (.error .other, s)
        | .ok .dir => some (.ok (), s.renamed src dest b m)
  | .removeFile p =>
    if ch.fault then some (.error .other, s)
    else match locate s.tree p with
      | .error e => some (.error e, s)
      | .ok .dir => some (.error .other, s)
      | .ok (.file _ _) => some (.ok (), s.setTree (s.tree.del p))

end

end Fs
