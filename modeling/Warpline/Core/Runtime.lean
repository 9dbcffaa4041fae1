import Warpline.Core.Registry

/-!
# Publishing (`runtime.rs`)

`Runtime::stage`, `activate`, `active`, `deactivate`, `activate_digest` and `publish`. Each runs
its file-system calls in a blocking task that is never cut short; the compile permit `stage`
waits for only delays it.
-/

set_option autoImplicit false

namespace Warpline

open Conc Fs

structure Staged where
  digest : Str
  deriving DecidableEq, Repr

def intoPublishErr : Error → PublishError
  | .io e => .io e
  | other => .registry other

/-- The error of `cache::compile` in `stage`. -/
def compileErr : Error → PublishError
  | .wasmtime => .compile
  | other => intoPublishErr other

def typecheckComponent (W : Wasm) (engine : W.Engine) (component : W.Component) :
    ExceptT PublishError FsM Unit :=
  match W.instantiatePre engine component with
  | some _ => pure ()
  | none => throw .importMismatch

def stage (W : Wasm) (engine : W.Engine) (wasm : Bytes) : ExceptT PublishError FsM Staged := do
  let (component, digest, fresh) ← Prog.mapErr compileErr (compile W engine wasm cwasmDir)
  typecheckComponent W engine component
  -- Only a typechecked component is persisted.
  if fresh then
    let _ ← Prog.mapErr intoPublishErr (persistCwasm W component engine cwasmDir digest)
  else
    -- a failed refresh is logged only
    let _ ← touch (cwasmDir.join (cacheFileName W engine digest))
  Prog.mapErr intoPublishErr (writeWasmSource digest wasm)
  pure ⟨digest⟩

def activate (tenant func : Str) (staged : Staged) : ExceptT PublishError FsM Unit :=
  if !validName tenant || !validName func then throw .invalidName
  else Prog.mapErr intoPublishErr (writePointer tenant func staged.digest)

def active (tenant func : Str) : ExceptT PublishError FsM (Option Staged) :=
  if !validName tenant || !validName func then throw .invalidName
  else do
    let digest ← Prog.mapErr intoPublishErr (readPointer tenant func)
    pure (digest.map Staged.mk)

def deactivate (tenant func : Str) : ExceptT PublishError FsM Unit :=
  if !validName tenant || !validName func then throw .invalidName
  else Prog.mapErr intoPublishErr (removePointer tenant func)

def activateDigest (tenant func digest : Str) : ExceptT PublishError FsM Unit :=
  if !validName tenant || !validName func then throw .invalidName
  else if !isValidDigest digest then
    throw (.registry (.corrupt "invalid digest: expected 64 lowercase hex characters"))
  else do
    if ← wasmExists digest then activate tenant func ⟨digest⟩
    else throw (.registry (.notFound ("no staged component with digest " ++ String.ofList digest)))

def publish (W : Wasm) (engine : W.Engine) (tenant func : Str) (wasm : Bytes) :
    ExceptT PublishError FsM Staged :=
  if !validName tenant || !validName func then throw .invalidName
  else do
    let staged ← stage W engine wasm
    activate tenant func staged
    pure staged

/-- `Runtime::gc`. -/
def gc (W : Wasm) (engine : W.Engine) (grace : Nat) : ExceptT Error FsM Nat :=
  gcUnreferencedBlobs W engine grace

end Warpline
