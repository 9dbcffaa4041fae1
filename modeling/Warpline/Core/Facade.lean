import Warpline.Core.Invoke
import Warpline.Core.Load

/-!
# The facade over the registry (`runtime.rs`: `Runtime`)

The methods of `Runtime` that reach the modules directory, with all their calls. `HostM.served` runs
the blocking tasks of an `invoke` where their handles are awaited: the `.await` may still be cut
short or report a panic, but what it yields is the task's own result.

In `registrySystem` the files may change in any way between two calls, so that a pointer may hold
anything; what the component cache and the rest of the runtime answer is left open too.
-/

set_option autoImplicit false

namespace Warpline

open Conc Fs

section
variable {W : Wasm}

/-! ## The blocking tasks -/

/-- The closure of a task. -/
def Task.program (engine : W.Engine) : (task : Task) → LoadM W (task.Out W)
  | .lookup tenant func => (Warpline.lookup tenant func).run
  | .loadExisting digest => (Warpline.loadExisting engine digest).run
  | .getOrLoad digest => (Warpline.getOrLoad engine digest).run
  | .stage wasm => (Warpline.stage W engine wasm).run.inl

abbrev FacadeCall (W : Wasm) := LoadCall W ⊕ HostCall W

abbrev FacadeRes : FacadeCall W → Type := Sum.elim LoadRes HostRes

abbrev FacadeM (W : Wasm) := Prog (FacadeCall W) FacadeRes

def served {α : Type} (engine : W.Engine) : HostM W α → FacadeM W α
  | .ret a => .ret a
  | .call (.join handle task) k =>
    (task.program engine).inl >>= fun out =>
      .call (.inr (.join handle task)) fun (r : Option (Except JoinError (task.Out W))) =>
        served engine (k (r.map fun q => q.map fun _ => out))
  | .call c k => .call (.inr c) fun r => served engine (k r)

/-! ## The methods -/

inductive RegistryOp
  | activate (tenant func : Str) (staged : Staged)
  | active (tenant func : Str)
  | deactivate (tenant func : Str)
  | activateDigest (tenant func digest : Str)
  | publish (tenant func : Str) (wasm : Bytes)
  | invoke (tenant func : Str) (input : List UInt8) (limits : Limits)

inductive RegistryOut
  | done (r : Except PublishError Unit)
  | active (r : Except PublishError (Option Staged))
  | published (r : Except PublishError Staged)
  | invoked (r : Except (Exit InvokeError) Invocation)

def RegistryOut.isError : RegistryOut → Bool
  | .done r => !r.toBool
  | .active r => !r.toBool
  | .published r => !r.toBool
  | .invoked r => !r.toBool

def RegistryOp.tenant : RegistryOp → Str
  | .activate tenant _ _ | .active tenant _ | .deactivate tenant _ | .activateDigest tenant _ _
  | .publish tenant _ _ | .invoke tenant _ _ _ => tenant

def RegistryOp.func : RegistryOp → Str
  | .activate _ func _ | .active _ func | .deactivate _ func | .activateDigest _ func _
  | .publish _ func _ | .invoke _ func _ _ => func

/-- The digest a caller passes, in whatever form. -/
def RegistryOp.digest? : RegistryOp → Option Str
  | .activate _ _ staged => some staged.digest
  | .activateDigest _ _ digest => some digest
  | _ => none

/-- A method that works on the files only. -/
def onFacade {ε α : Type} (p : ExceptT ε FsM α) : FacadeM W (Except ε α) :=
  (p.run.inl : LoadM W (Except ε α)).inl

def RegistryOp.run (engine : W.Engine) (cfg : RuntimeConfig) (meter : Bool) :
    RegistryOp → FacadeM W RegistryOut
  | .activate tenant func staged => do
    return .done (← onFacade (Warpline.activate tenant func staged))
  | .active tenant func => do return .active (← onFacade (Warpline.active tenant func))
  | .deactivate tenant func => do return .done (← onFacade (Warpline.deactivate tenant func))
  | .activateDigest tenant func digest => do
    return .done (← onFacade (Warpline.activateDigest tenant func digest))
  | .publish tenant func wasm => do
    return .published (← onFacade (Warpline.publish W engine tenant func wasm))
  | .invoke tenant func input limits => do
    return .invoked (← served engine (Warpline.invoke cfg meter tenant func input limits).run)

/-! ## Any number of calls -/

structure RegistryChoice (W : Wasm) where
  file : Choice
  cache : (c : CacheCall W.HandlerPre) → CacheRes c
  host : (c : HostCall W) → HostRes c

variable {τ : Type} [DecidableEq τ]

def registryExec (me : τ) (ch : RegistryChoice W) (s : State τ) :
    (c : FacadeCall W) → Option (FacadeRes c × State τ)
  | .inl (.inl c) => Fs.exec me ch.file s c
  | .inl (.inr c) => some (ch.cache c, s)
  | .inr c => some (ch.host c, s)

def registrySystem (W : Wasm) (τ : Type) [DecidableEq τ] :
    System τ (State τ) (FacadeCall W) FacadeRes where
  exec := fun _ me s c r s' => ∃ ch, registryExec me ch s c = some (r, s')
  env := fun _ _ _ => True

end

end Warpline
