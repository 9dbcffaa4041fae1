import Warpline.Conc.Sum
import Warpline.Control.Db
import Warpline.Core.Runtime

/-!
# Uploads (`control/src/lib.rs`)

`upload` from the point where the caller is authorized and the module is received. The publish
section runs in a task of its own, so it always runs to completion.
-/

set_option autoImplicit false

namespace Warpline

open Conc Fs

abbrev UploadCall := FsCall ⊕ DbCall

abbrev UploadRes : UploadCall → Type := Sum.elim FsRes DbRes

abbrev UploadM := Prog UploadCall UploadRes

/-- Status code and text. -/
abbrev HttpError := Nat × String

def onDb (c : DbCall) : UploadM (DbRes c) := (Prog.perform (Sum.inr c) : Prog UploadCall UploadRes _)

/-- `query.execute(..).await.map_err(..)?`. -/
def query {ε : Type} (err : DbError → ε) (c : DbCall) : ExceptT ε UploadM (DbOk c) :=
  Prog.mapErr err (ExceptT.mk (onDb c))

/-- A call of the runtime, on the files. -/
def onFiles {ε α : Type} (err : PublishError → ε) (p : ExceptT PublishError FsM α) :
    ExceptT ε UploadM α :=
  Prog.mapErr err (ExceptT.mk p.run.inl)

/-- The drop of a transaction that was not committed. -/
def dropTx : UploadM Unit := do
  let _ ← onDb .rollback
  return ()

/-- `tx.commit()`. -/
def commitTx {ε : Type} : ExceptT ε UploadM (Except DbError Unit) :=
  liftM (onDb .commit)

/-! ## Reconciling -/

/-- The `Box<dyn Error>` of `try_reconcile`. -/
inductive ReconcileError
  | db (e : DbError)
  | publish (e : PublishError)
  deriving DecidableEq, Repr

/-- The two waits are bounded and the tenant's lock is taken. -/
def lockTenant {ε : Type} (err : DbError → ε) (tenant : Str) : ExceptT ε UploadM Unit := do
  query err (.setLocal "lock_timeout")
  query err (.setLocal "statement_timeout")
  query err (.lockTenant tenant)

def tryReconcile (tenant func : Str) : ExceptT ReconcileError UploadM Unit := do
  query .db .beginTx
  Prog.onError dropTx do
    lockTenant .db tenant
    match ← query .db (.functionHash tenant func) with
    | some h => onFiles .publish (activateDigest tenant func h)
    | none => onFiles .publish (deactivate tenant func)
  -- the lock is held until the pointer is settled
  query .db .commit

/-- A failure is logged only. -/
def reconcilePointer (tenant func : Str) : UploadM Unit := do
  let _ ← (tryReconcile tenant func).run
  return ()

/-! ## Publishing -/

def internalError (_ : DbError) : HttpError := (500, "internal error")

def pointerError (_ : PublishError) : HttpError := (500, "failed to publish module")

/-- The part of `publish_in_db` that runs inside the transaction. -/
def publishSection (maxFunctions : Int) (tenant func : Str) (staged : Staged) :
    ExceptT HttpError UploadM Unit := do
  lockTenant internalError tenant
  match ← query internalError (.tenantId tenant) with
  | none => throw (401, "unauthorized")
  | some tenantId => do
    let otherFunctions : Int ← query internalError (.countOthers tenantId func)
    if maxFunctions ≤ otherFunctions then
      throw (403, "tenant function quota exceeded (" ++ toString maxFunctions ++ " max)")
    query internalError (.upsert ⟨tenantId, func, staged.digest⟩)
    onFiles pointerError (activate tenant func staged)

def publishInDb (maxFunctions : Int) (tenant func : Str) (staged : Staged) :
    ExceptT HttpError UploadM Unit := do
  query internalError .beginTx
  Prog.onError dropTx (publishSection maxFunctions tenant func staged)
  match ← commitTx with
  | .ok _ => pure ()
  | .error e =>
    let _ ← (liftM (reconcilePointer tenant func) : ExceptT HttpError UploadM Unit)
    throw (internalError e)

def stageError : PublishError → HttpError
  | .compile => (422, "invalid wasm component")
  | .importMismatch =>
    (422, "component does not match the warpline handler world (missing export or " ++
      "unsatisfiable import)")
  | _ => (500, "failed to publish module")

/-- An upload in database mode; the digest is part of the response. -/
def upload (W : Wasm) (engine : W.Engine) (maxFunctions : Int) (tenant func : Str) (wasm : Bytes) :
    ExceptT HttpError UploadM Str :=
  if !validName tenant || !validName func then throw (400, "invalid tenant or function name")
  else do
    let staged ← onFiles stageError (stage W engine wasm)
    publishInDb maxFunctions tenant func staged
    pure staged.digest

end Warpline
