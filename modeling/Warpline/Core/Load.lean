import Warpline.Conc.Sum
import Warpline.Conc.System
import Warpline.Core.ComponentCache
import Warpline.Core.Runtime
import Warpline.Fs.System

/-!
# Loading components (`registry.rs`: `ComponentCache`)

`lookup`, `load_existing`, `recompile` and `get_or_load` as programs over file-system calls and the
critical sections of the runtime's own cache, and several runtimes that share one modules
directory.
-/

set_option autoImplicit false

namespace Warpline

open Conc Fs

inductive CacheCall (π : Type)
  | hit (digest : Str)
  | insert (digest : Str) (pre : π) (weight : Usize)

def CacheRes {π : Type} : CacheCall π → Type
  | .hit _ => Option π
  | .insert _ _ _ => Unit

abbrev LoadCall (W : Wasm) := FsCall ⊕ CacheCall W.HandlerPre

abbrev LoadRes {W : Wasm} : LoadCall W → Type := Sum.elim FsRes CacheRes

abbrev LoadM (W : Wasm) := Prog (LoadCall W) LoadRes

section
variable {W : Wasm}

/-- A program on the files. -/
def onDisk {ε α : Type} (p : ExceptT ε FsM α) : ExceptT ε (LoadM W) α := ExceptT.mk p.run.inl

/-- A program on the files whose error is looked at. -/
def attempt {ε α : Type} (p : FsM (Except ε α)) : ExceptT Error (LoadM W) (Except ε α) :=
  ExceptT.lift p.inl

def cacheHit (digest : Str) : LoadM W (Option W.HandlerPre) :=
  .call (.inr (.hit digest)) .ret

def cacheInsert (digest : Str) (pre : W.HandlerPre) (weight : Usize) : LoadM W Unit :=
  .call (.inr (.insert digest pre weight)) .ret

/-- `sandbox::instantiate_pre(&self.linker, &component)?`. -/
def instantiatePre (engine : W.Engine) (component : W.Component) :
    ExceptT Error (LoadM W) W.HandlerPre :=
  match W.instantiatePre engine component with
  | some pre => pure pre
  | none => throw .wasmtime

/-! ## The methods of `ComponentCache` -/

def lookup (tenant func : Str) : ExceptT Error (LoadM W) (Lookup W.HandlerPre) := do
  match ← onDisk (readPointer tenant func) with
  | none => pure .notFound
  | some digest =>
    match ← (cacheHit digest : LoadM W _) with
    | some pre => pure (.hit pre)
    | none => pure (.miss digest)

def loadExisting (engine : W.Engine) (digest : Str) :
    ExceptT Error (LoadM W) (Loaded W.HandlerPre) := do
  match ← (cacheHit digest : LoadM W _) with
  | some hit => pure (.ready hit)
  | none =>
    match ← attempt (loadCwasm W engine cwasmDir digest).run with
    | .error _ => pure .needsCompile
    | .ok component =>
      let metadata ← attempt (metadata (cwasmDir.join (cacheFileName W engine digest)))
      let weight : Usize := match metadata with
        | .ok m => .ofNat m.len
        | .error _ => 0
      let pre ← instantiatePre engine component
      cacheInsert digest pre weight
      pure (.ready pre)

def recompile (engine : W.Engine) (digest : Str) : ExceptT Error (LoadM W) W.HandlerPre := do
  match ← attempt (read (wasmPath digest)) with
  | .error _ =>
    throw (.corrupt ("no cwasm and no source wasm on disk for digest " ++ String.ofList digest))
  | .ok wasmBytes =>
    let component ← onDisk (componentNew W engine wasmBytes)
    let persisted ← attempt (persistCwasm W component engine cwasmDir digest).run
    let weight : Usize := match persisted with
      | .ok len => .ofNat len
      -- a failed re-publication is logged only
      | .error _ => .ofNat wasmBytes.byteLen
    let pre ← instantiatePre engine component
    cacheInsert digest pre weight
    pure pre

def getOrLoad (engine : W.Engine) (digest : Str) : ExceptT Error (LoadM W) W.HandlerPre := do
  match ← loadExisting engine digest with
  | .ready pre => pure pre
  | .needsCompile => recompile engine digest

/-- How `invoke` gets the component of a function. -/
def fetch (engine : W.Engine) (tenant func : Str) :
    ExceptT Error (LoadM W) (Option W.HandlerPre) := do
  match ← lookup tenant func with
  | .notFound => pure none
  | .hit pre => pure (some pre)
  | .miss digest =>
    match ← loadExisting engine digest with
    | .ready pre => pure (some pre)
    | .needsCompile =>
      let pre ← getOrLoad engine digest
      pure (some pre)

/-! ## What is fetched -/

/-- `fetch`, once the pointer is read. -/
def fetchDigest (engine : W.Engine) (digest : Str) : ExceptT Error (LoadM W) W.HandlerPre := do
  match ← (cacheHit digest : LoadM W _) with
  | some pre => pure pre
  | none =>
    match ← loadExisting engine digest with
    | .ready pre => pure pre
    | .needsCompile => getOrLoad engine digest

/-- `fetch`, with the digest that `lookup` has read. -/
def fetchNamed (engine : W.Engine) (tenant func : Str) :
    ExceptT Error (LoadM W) (Option (Str × Except Error W.HandlerPre)) := do
  match ← onDisk (readPointer tenant func) with
  | none => pure none
  | some digest =>
    let fetched ← ExceptT.lift (fetchDigest engine digest).run
    pure (some (digest, fetched))

theorem lift_run {α β : Type} (p : ExceptT Error (LoadM W) α)
    (f : α → ExceptT Error (LoadM W) β) :
    (do match ← ExceptT.lift p.run with
        | .error e => throw e
        | .ok a => f a) = p >>= f := by
  refine ExceptT.ext ?_
  rw [ExceptT.run_bind, ExceptT.run_bind, ExceptT.run_lift, map_eq_pure_bind, bind_assoc]
  congr 1
  funext r
  cases r with
  | error e => rfl
  | ok a => rfl

theorem fetch_eq (engine : W.Engine) (tenant func : Str) :
    fetch engine tenant func = (do
      match ← fetchNamed engine tenant func with
      | none => pure none
      | some (_, .error e) => throw e
      | some (_, .ok pre) => pure (some pre)) := by
  unfold fetch fetchNamed lookup
  rw [bind_assoc, bind_assoc]
  congr 1
  funext digest
  cases digest with
  | none => rfl
  | some digest =>
    have hfetch : (do
        match ← (do
          let fetched ← ExceptT.lift (fetchDigest engine digest).run
          pure (some (digest, fetched))) with
        | none => pure none
        | some (_, .error e) => throw e
        | some (_, .ok pre) => pure (some pre) : ExceptT Error (LoadM W) (Option W.HandlerPre)) =
        fetchDigest engine digest >>= fun pre => pure (some pre) := by
      rw [bind_assoc]
      refine Eq.trans ?_ (lift_run _ _)
      congr 1
      funext fetched
      cases fetched <;> rfl
    refine Eq.trans ?_ hfetch.symm
    unfold fetchDigest
    rw [bind_assoc, bind_assoc]
    congr 1
    funext hit
    cases hit with
    | some pre => rfl
    | none =>
      show loadExisting engine digest >>= _ = (loadExisting engine digest >>= _) >>= _
      rw [bind_assoc]
      congr 1
      funext loaded
      cases loaded <;> rfl

/-! ## Runtimes over one modules directory -/

inductive ModuleOp
  | stage (wasm : Bytes)
  | activate (tenant func : Str) (staged : Staged)
  | activateDigest (tenant func digest : Str)
  | deactivate (tenant func : Str)
  | publish (tenant func : Str) (wasm : Bytes)
  | gc (grace : Nat)
  | fetch (tenant func : Str)

inductive ModuleOut (W : Wasm)
  | staged (r : Except PublishError Staged)
  | done (r : Except PublishError Unit)
  | collected (r : Except Error Nat)
  | fetched (r : Except Error (Option (Str × Except Error W.HandlerPre)))

def ModuleOp.run (engine : W.Engine) : ModuleOp → LoadM W (ModuleOut W)
  | .stage wasm => do return .staged (← (Warpline.stage W engine wasm).run.inl)
  | .activate tenant func staged => do
    return .done (← (Warpline.activate tenant func staged).run.inl)
  | .activateDigest tenant func digest => do
    return .done (← (Warpline.activateDigest tenant func digest).run.inl)
  | .deactivate tenant func => do return .done (← (Warpline.deactivate tenant func).run.inl)
  | .publish tenant func wasm => do
    return .staged (← (Warpline.publish W engine tenant func wasm).run.inl)
  | .gc grace => do return .collected (← (Warpline.gc W engine grace).run.inl)
  | .fetch tenant func => do return .fetched (← (fetchNamed engine tenant func).run)

/-- The bytes an operation publishes. -/
def ModuleOp.wasm? : ModuleOp → Option Bytes
  | .stage wasm | .publish _ _ wasm => some wasm
  | _ => none

/-- The runtimes, and the one each operation is a call of. -/
structure Fleet (W : Wasm) (κ τ : Type) where
  engine : κ → W.Engine
  cap : κ → Nat
  byteBudget : κ → Usize
  runtime : τ → κ

structure Modules (L : LruCrate Str (CacheEntry W.HandlerPre)) (κ τ : Type) where
  files : State τ
  caches : κ → ComponentCacheInner L

end

section
variable {W : Wasm} {L : LruCrate Str (CacheEntry W.HandlerPre)} {κ τ : Type} [DecidableEq κ]
  [DecidableEq τ]

def Modules.setFiles (s : Modules L κ τ) (files : State τ) : Modules L κ τ := { s with files }

def Modules.setCache (s : Modules L κ τ) (k : κ) (inner : ComponentCacheInner L) : Modules L κ τ :=
  { s with caches := Function.update s.caches k inner }

def moduleExec (F : Fleet W κ τ) (me : τ) (ch : Choice) (s : Modules L κ τ) :
    (c : LoadCall W) → Option (LoadRes c × Modules L κ τ)
  | .inl c => (Fs.exec me ch s.files c).map fun q => (q.1, s.setFiles q.2)
  | .inr (.hit digest) =>
    let q := (s.caches (F.runtime me)).hit digest
    some (q.1, s.setCache (F.runtime me) q.2)
  | .inr (.insert digest pre weight) =>
    let k := F.runtime me
    some ((), s.setCache k ((s.caches k).insert (F.byteBudget k) digest pre weight))

/-- What happens beside the operations: the file of a compiled component is overwritten with
something that no engine accepts, or deleted, and a cache forgets entries. -/
inductive Disturbed (F : Fleet W κ τ) (s : Modules L κ τ) : Modules L κ τ → Prop
  | damaged {digest : Str} {engine : W.Engine} {b₀ : Bytes} {m₀ : Nat} (b : Bytes) (m : Nat)
      (hd : isValidDigest digest = true)
      (hf : s.files.tree.get (cwasmDir.join (cacheFileName W engine digest)) = some (.file b₀ m₀))
      (hb : ∀ k, W.deserialize (F.engine k) b = none) :
      Disturbed F s (s.setFiles (s.files.setTree
        (s.files.tree.put (cwasmDir.join (cacheFileName W engine digest)) (.file b m))))
  | deleted {digest : Str} {engine : W.Engine} (hd : isValidDigest digest = true) :
      Disturbed F s (s.setFiles (s.files.setTree
        (s.files.tree.del (cwasmDir.join (cacheFileName W engine digest)))))
  | evicted {k : κ} {inner : ComponentCacheInner L} (hi : inner.entries ⊆ (s.caches k).entries) :
      Disturbed F s (s.setCache k inner)

def moduleSystem (L : LruCrate Str (CacheEntry W.HandlerPre)) (F : Fleet W κ τ) :
    System τ (Modules L κ τ) (LoadCall W) LoadRes where
  exec := fun _ me s c r s' => ∃ ch, moduleExec F me ch s c = some (r, s')
  env := fun _ s s' => Disturbed F s s'

abbrev ModuleConfig (L : LruCrate Str (CacheEntry W.HandlerPre)) (κ τ : Type) :=
  Config τ (Modules L κ τ) (LoadCall W) LoadRes fun _ => ModuleOut W

/-- An empty modules directory, and runtimes that have just been built. -/
def modulesStart (L : LruCrate Str (CacheEntry W.HandlerPre)) (F : Fleet W κ τ)
    (ops : τ → ModuleOp) : ModuleConfig L κ τ :=
  ⟨⟨.ofTree ⟨∅⟩, fun k => .new L (F.cap k)⟩, fun t => (ops t).run (F.engine (F.runtime t))⟩

theorem moduleExec_file {F : Fleet W κ τ} {me : τ} {ch : Choice} {s s' : Modules L κ τ}
    {c : FsCall} {r : FsRes c} (h : moduleExec F me ch s (.inl c) = some (r, s')) :
    Fs.exec me ch s.files c = some (r, s'.files) ∧ s' = s.setFiles s'.files := by
  obtain ⟨⟨r₁, s₁⟩, hx, heq⟩ := Option.map_eq_some_iff.1 h
  cases heq
  exact ⟨hx, rfl⟩

end

end Warpline
