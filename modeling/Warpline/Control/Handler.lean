import Warpline.Control.Gate
import Warpline.Control.System

/-!
# The upload endpoint (`control/src/lib.rs`: `upload`, `publish_pointer`)

`uploadHandler` is a program over the calls of the authenticator and those of an upload. The service
behind the authenticator is the registry's files with the publish database; a tenant's id in it is
assigned once (`TenantIds`).
-/

set_option autoImplicit false

namespace Warpline

open Conc

/-! ## The request -/

structure MultipartError where
  status : UInt16
  display : Str
  /-- It is the status of an error. -/
  failed : 400 ≤ status

/-- A field, and what reading it to its end gives. -/
structure Field where
  name : Option Str
  bytes : Except MultipartError Bytes

structure UploadRequest where
  tenant : Str
  func : Str
  headers : Headers
  /-- What `next_field` returns, in turn, until there is none. -/
  multipart : List (Except MultipartError Field)

def isWasmField (f : Field) : Bool :=
  let name := f.name.getD []
  name == "wasm".toList || name == "module".toList || name == "file".toList

/-- The loop over the fields; the last module counts. -/
def readFields : Option Bytes → List (Except MultipartError Field) → Except HttpReply (Option Bytes)
  | wasmBytes, [] => .ok wasmBytes
  | _, .error e :: _ => .error ⟨e.status, .text ("multipart error: ".toList ++ e.display)⟩
  | wasmBytes, .ok f :: rest =>
    if isWasmField f then
      match f.bytes with
      | .ok b => readFields (some b) rest
      | .error e => .error ⟨e.status, .text ("read field failed: ".toList ++ e.display)⟩
    else readFields wasmBytes rest

def UploadRequest.wasm (req : UploadRequest) : Except HttpReply Bytes := do
  match ← readFields none req.multipart with
  | some wasm => return wasm
  | none => throw ⟨400, .text "missing wasm field".toList⟩

/-! ## The handler -/

section
variable {W : Wasm}

end

/-! ## The service -/

structure TenantIds where
  id : Str → Nat
  unique : Function.Injective id

/-- `SELECT id FROM warpline.tenants WHERE name = $1`. -/
def TenantIds.table (ids : TenantIds) (db : AdminDb) (name : Str) : Option Nat :=
  (db.tenants name).map fun _ => ids.id name

theorem TenantIds.table_eq {ids : TenantIds} {db : AdminDb} {name : Str} {i : Nat}
    (h : ids.table db name = some i) : i = ids.id name := by
  obtain ⟨_, -, rfl⟩ := Option.map_eq_some_iff.1 h
  rfl

structure PublishState (ids : TenantIds) (τ : Type) where
  shared : Shared τ
  assigned : ∀ {name : Str} {i : Nat}, shared.db.tenantIds name = some i → i = ids.id name

section
variable {ids : TenantIds} {τ : Type}

/-- The tables of tenants are `db`'s from now on. -/
def PublishState.refresh (s : PublishState ids τ) (db : AdminDb) : PublishState ids τ where
  shared := { s.shared with db := { s.shared.db with
    tenantIds := ids.table db
    ids_unique := by
      intro a b i ha hb
      exact ids.unique ((TenantIds.table_eq ha).symm.trans (TenantIds.table_eq hb)) } }
  assigned := TenantIds.table_eq

variable [DecidableEq τ]

theorem uploadExec_ids {hashtext : Str → Int} {me : τ} {ch : UploadChoice} {s s' : Shared τ}
    {c : UploadCall} {r : UploadRes c} (h : uploadExec hashtext me ch s c = some (r, s')) :
    s'.db.tenantIds = s.db.tenantIds := by
  cases c with
  | inl c => rw [(uploadExec_file h).2]
  | inr c => exact (Db.exec_frame (uploadExec_db h).1).tenantIds

/-- A call; without a choice, the server has ended the caller's transaction. -/
def publishExec (hashtext : Str → Int) (ch : Option UploadChoice) (me : τ) (s : PublishState ids τ)
    (c : UploadCall) : Option (UploadRes c × PublishState ids τ) :=
  match ch, c with
  | some ch, c =>
    match hx : uploadExec hashtext me ch s.shared c with
    | some (r, shared) => some (r, ⟨shared, fun h => s.assigned (uploadExec_ids hx ▸ h)⟩)
    | none => none
  | none, .inl _ => none
  | none, .inr c =>
    if c ≠ .beginTx ∧ s.shared.db.txs me = none then some (.error .failed, s) else none

/-- The server ends the transaction of `t`. -/
def PublishState.endTx (s : PublishState ids τ) (t : τ) : PublishState ids τ where
  shared := { s.shared with db := s.shared.db.endTx t s.shared.db.functions }
  assigned := s.assigned

variable (τ) in
def uploadService (hashtext : Str → Int) (ids : TenantIds) :
    Service τ (PublishState ids τ) UploadRes (Option UploadChoice) τ where
  exec := fun ch me s c => publishExec hashtext ch me s c
  env := fun _ s t => some (s.endTx t)
  refresh := fun db s => s.refresh db

/-- A step of the service is one of uploads whose transactions may be ended by the server. -/
theorem publishExec_spec {hashtext : Str → Int} {ch : Option UploadChoice} {me : τ}
    {s s' : PublishState ids τ} {c : UploadCall} {r : UploadRes c}
    (h : publishExec hashtext ch me s c = some (r, s')) :
    (∃ ch', uploadExec hashtext me ch' s.shared c = some (r, s'.shared)) ∨
      lostExec me s.shared c r ∧ s' = s := by
  unfold publishExec at h
  split at h
  · split at h
    · rename_i hx
      cases h
      exact .inl ⟨_, hx⟩
    · cases h
  · cases h
  · split at h
    · rename_i hlost
      cases h
      exact .inr ⟨⟨hlost.1, hlost.2, rfl⟩, rfl⟩
    · cases h

end

end Warpline
