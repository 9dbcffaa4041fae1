import Warpline.Core.Error
import Warpline.Core.Wasm

/-!
# The compiled-component cache on disk (`cache.rs`)

Programs over file-system calls. A call followed by `?` is `io`: its error is returned as
`Error::Io`. Paths are relative to the modules directory.
-/

set_option autoImplicit false

namespace Warpline

open Conc Fs

/-- `call()?` in a function that returns `Result<_, Error>`. -/
def io {α : Type} (call : FsM (Except IoError α)) : ExceptT Error FsM α :=
  Prog.mapErr Error.io (ExceptT.mk call)

/-- `path.exists()`. -/
def pathExists (path : PathBuf) : FsM Bool := do
  let res ← metadata path
  return res.toBool

def cacheFileName (W : Wasm) (engine : W.Engine) (digest : Str) : Str :=
  digest ++ '-' :: W.compatHash engine ++ ".cwasm".toList

def loadCwasm (W : Wasm) (engine : W.Engine) (cacheDir : PathBuf) (digest : Str) :
    ExceptT Error FsM W.Component :=
  if isValidDigest digest then do
    let bytes ← io (read (cacheDir.join (cacheFileName W engine digest)))
    match W.deserialize engine bytes with
    | some component => pure component
    | none => throw .wasmtime
  else throw (.corrupt "invalid cache digest: expected 64 lowercase hex characters")

/-- Dropping a `NamedTempFile` that was not persisted. -/
def dropTemp (tmp : PathBuf) : FsM Unit := do
  let _ ← removeFile tmp
  return ()

def atomicWrite (dir dest : PathBuf) (bytes : Bytes) : ExceptT Error FsM Unit := do
  io (createDirAll dir)
  let tmp ← io (createTemp dir)
  Prog.onError (dropTemp tmp) do
    io (writeAll tmp bytes)
    io (syncAll tmp)
    io (setPermissions tmp)
    io (rename tmp dest)

/-- `Component::new(engine, wasm_bytes)?`. -/
def componentNew (W : Wasm) (engine : W.Engine) (wasmBytes : Bytes) :
    ExceptT Error FsM W.Component :=
  match W.componentNew engine wasmBytes with
  | some component => pure component
  | none => throw .wasmtime

/-- The cached component of `digest`, if its file is there and can be loaded. -/
def cached (W : Wasm) (engine : W.Engine) (cacheDir : PathBuf) (digest : Str) :
    FsM (Option W.Component) := do
  if ← pathExists (cacheDir.join (cacheFileName W engine digest)) then
    let loaded ← (loadCwasm W engine cacheDir digest).run
    return loaded.toOption
  else return none

def compile (W : Wasm) (engine : W.Engine) (wasmBytes : Bytes) (cacheDir : PathBuf) :
    ExceptT Error FsM (W.Component × Str × Bool) := do
  let digest := W.digest wasmBytes
  match ← cached W engine cacheDir digest with
  | some component => pure (component, digest, false)
  | none =>
    let component ← componentNew W engine wasmBytes
    pure (component, digest, true)

def persistCwasm (W : Wasm) (component : W.Component) (engine : W.Engine) (cacheDir : PathBuf)
    (digest : Str) : ExceptT Error FsM Nat := do
  let dest := cacheDir.join (cacheFileName W engine digest)
  match W.serialize component with
  | none => throw .wasmtime
  | some serialized =>
    atomicWrite cacheDir dest serialized
    pure serialized.byteLen

end Warpline
