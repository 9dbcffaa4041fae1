import Warpline.Core.Proof.AtomicWrite
import Warpline.Core.Runtime

/-!
# The steps of staging and activating

`Actor.stage`, `Actor.activate`: what a thread has to show to run `stage` or `activate`, one
obligation for each call that changes a published file. `stage` renews or writes
`cwasm/{digest}-{compat}.cwasm`, then `wasm/{digest}.wasm`; `activate` writes the pointer.
-/

set_option autoImplicit false

namespace Warpline

open Conc Fs

/-- The registry has a source module of the digest. -/
def HasBlob {τ : Type} (digest : Str) (s : State τ) : Prop :=
  ∃ b m, s.tree.get (wasmPath digest) = some (.file b m)

variable {τ σ : Type} [DecidableEq τ] {view : σ → State τ} {T : Thread σ FsCall FsRes} {me : τ}
  {A : Choice → Prop} {R R₁ S : σ → Prop}

theorem cached_calls (W : Wasm) (engine : W.Engine) (cacheDir : PathBuf) (digest : Str) :
    (cached W engine cacheDir digest).Calls fun c => c.readOnly = true := by
  refine .bind (.bind (.perform rfl) fun _ => trivial) fun b => ?_
  split
  · refine .bind ?_ fun _ => trivial
    unfold loadCwasm
    split
    · refine .bindE (.mapErr (.perform rfl)) fun bytes => ?_
      split <;> trivial
    · trivial
  · trivial

/-- `compile` only reads; what it compiles fresh is the component of the bytes. -/
theorem Actor.sat_compile (h : Actor view T me A R) {W : Wasm} {engine : W.Engine} {wasm : Bytes}
    {cacheDir : PathBuf} {s : σ} (hs : R s) :
    Sat T (fun r s => R s ∧ ∀ component digest fresh, r = .ok (component, digest, fresh) →
        digest = W.digest wasm ∧
          (fresh = true → W.componentNew engine wasm = some component))
      (compile W engine wasm cacheDir).run s := by
  refine Sat.liftE ((h.sat_reading (cached_calls W engine cacheDir _) hs).mono fun c s hs => ?_)
  cases c with
  | some component =>
    refine ⟨hs, fun c d f hr => ?_⟩
    cases hr
    exact ⟨rfl, nofun⟩
  | none =>
    show Sat T _ (componentNew W engine wasm >>= fun component =>
      pure (component, W.digest wasm, true)).run s
    unfold componentNew
    split
    · rename_i component hc
      refine ⟨hs, fun c d f hr => ?_⟩
      cases hr
      exact ⟨rfl, fun _ => hc⟩
    · exact ⟨hs, nofun⟩

/-- `write_wasm_source`: the blob is renewed where it is there, and written where it is not. -/
theorem Actor.sat_writeWasmSource (h : Actor view T me A R) (h₁ : Actor view T me A R₁)
    {digest : Str} {wasm : Bytes} {s : σ} (hd : isValidDigest digest = true) (hs : R s)
    (htouch : ∀ {s s' b m now}, R s → Touched view T A (wasmPath digest) b m now s s' →
      T.guar (.touch (wasmPath digest)) s s' ∧ S s')
    (habsent : ∀ {s}, R s → (view s).tree.get (wasmPath digest) = none → R₁ s)
    (hwasm : ∀ {s s' tmp m}, R₁ s → Published view T me A (wasmPath digest) wasm tmp m s s' →
      T.guar (.rename tmp (wasmPath digest)) s s' ∧ S s') :
    Sat T (fun r s => match r with
      | .ok _ => S s
      | .error _ => R s ∨ R₁ s) (writeWasmSource digest wasm).run s := by
  unfold writeWasmSource
  rw [if_neg (by simp [hd])]
  refine Sat.liftE ((h.sat_touch hs htouch).mono fun r s hr => ?_)
  rcases r with (_ | _) | _
  · refine (h₁.sat_atomicWrite (habsent hr.1 (hr.2 rfl)) hwasm).mono fun r s hr => ?_
    cases r with
    | ok _ => exact hr
    | error _ => exact .inr hr.1
  · exact .inl hr.1
  · exact hr

/-- `stage`, of which it is known what `compile` returns. -/
theorem Actor.sat_stageOf (h : Actor view T me A R) (h₁ : Actor view T me A R₁) {W : Wasm}
    {engine : W.Engine} {wasm : Bytes} {s : σ} {K : W.Component → Prop}
    (hcompile : Sat T (fun r s => R s ∧ ∀ component digest fresh,
        r = .ok (component, digest, fresh) → digest = W.digest wasm ∧ K component ∧
          (fresh = true → W.componentNew engine wasm = some component))
      (compile W engine wasm cwasmDir).run s)
    (hcwasm : ∀ {s s' tmp m component bytes}, W.componentNew engine wasm = some component →
      W.serialize component = some bytes → R s →
      Published view T me A (cwasmDir.join (cacheFileName W engine (W.digest wasm))) bytes tmp m
        s s' →
      T.guar (.rename tmp (cwasmDir.join (cacheFileName W engine (W.digest wasm)))) s s' ∧ R s')
    (hrenew : ∀ {s s' b m now}, R s →
      Touched view T A (cwasmDir.join (cacheFileName W engine (W.digest wasm))) b m now s s' →
      T.guar (.touch (cwasmDir.join (cacheFileName W engine (W.digest wasm)))) s s' ∧ R s')
    (htouch : ∀ {s s' b m now}, R s → Touched view T A (wasmPath (W.digest wasm)) b m now s s' →
      T.guar (.touch (wasmPath (W.digest wasm))) s s' ∧ S s')
    (habsent : ∀ {s}, R s → (view s).tree.get (wasmPath (W.digest wasm)) = none → R₁ s)
    (hwasm : ∀ {s s' tmp m}, R₁ s → Published view T me A (wasmPath (W.digest wasm)) wasm tmp m
      s s' → T.guar (.rename tmp (wasmPath (W.digest wasm))) s s' ∧ S s') :
    Sat T (fun r s => match r with
      | .ok staged => S s ∧ staged.digest = W.digest wasm ∧
          ∃ component pre, K component ∧ W.instantiatePre engine component = some pre
      | .error _ => R s ∨ R₁ s) (stage W engine wasm).run s := by
  refine Sat.bindE (Sat.mapErr (hcompile.mono fun r s hr => ?_))
  cases r with
  | error e => exact .inl hr.1
  | ok q =>
  obtain ⟨component, digest, fresh⟩ := q
  obtain ⟨hs, hq⟩ := hr
  obtain ⟨rfl, hK, hnew⟩ := hq component digest fresh rfl
  -- typecheck
  show Sat T _ (typecheckComponent W engine component >>= _).run s
  unfold typecheckComponent
  split
  swap
  · exact .inl hs
  rename_i pre hpre
  -- the source blob, whatever became of the compiled one
  have hsource : ∀ s, R s → Sat T (fun r s => match r with
      | .ok staged => S s ∧ staged.digest = W.digest wasm ∧
          ∃ component pre, K component ∧ W.instantiatePre engine component = some pre
      | .error _ => R s ∨ R₁ s) (do
        Prog.mapErr intoPublishErr (writeWasmSource (W.digest wasm) wasm)
        pure ⟨W.digest wasm⟩ : ExceptT PublishError FsM Staged).run s := by
    intro s hs
    refine Sat.bindE (Sat.mapErr ((h.sat_writeWasmSource h₁ (W.digest_valid _) hs htouch habsent
      hwasm).mono fun r s hr => ?_))
    cases r with
    | ok _ => exact ⟨hr, rfl, component, pre, hK, hpre⟩
    | error _ => exact hr
  cases fresh with
  | true =>
    show Sat T _ (Prog.mapErr intoPublishErr
      (persistCwasm W component engine cwasmDir (W.digest wasm)) >>= fun _ => _).run s
    refine Sat.bindE (Sat.mapErr ?_)
    unfold persistCwasm
    split
    · exact .inl hs
    · rename_i bytes hb
      refine Sat.bindE ((h.sat_atomicWrite hs (hcwasm (hnew rfl) hb)).mono fun r s hr => ?_)
      cases r with
      | ok _ => exact hsource s hr
      | error _ => exact .inl hr.1
  | false =>
    show Sat T _ ((liftM (touch (cwasmDir.join (cacheFileName W engine (W.digest wasm)))) :
      ExceptT PublishError FsM _) >>= fun _ => _).run s
    refine Sat.liftE ((h.sat_touch hs hrenew).mono fun r s hr => ?_)
    cases r with
    | ok _ => exact hsource s hr
    | error _ => exact hsource s hr.1

/-- **`stage`**: the obligations of the thread that runs it. -/
theorem Actor.sat_stage (h : Actor view T me A R) (h₁ : Actor view T me A R₁) {W : Wasm}
    {engine : W.Engine} {wasm : Bytes} {s : σ} (hs : R s)
    (hcwasm : ∀ {s s' tmp m component bytes}, W.componentNew engine wasm = some component →
      W.serialize component = some bytes → R s →
      Published view T me A (cwasmDir.join (cacheFileName W engine (W.digest wasm))) bytes tmp m
        s s' →
      T.guar (.rename tmp (cwasmDir.join (cacheFileName W engine (W.digest wasm)))) s s' ∧ R s')
    (hrenew : ∀ {s s' b m now}, R s →
      Touched view T A (cwasmDir.join (cacheFileName W engine (W.digest wasm))) b m now s s' →
      T.guar (.touch (cwasmDir.join (cacheFileName W engine (W.digest wasm)))) s s' ∧ R s')
    (htouch : ∀ {s s' b m now}, R s → Touched view T A (wasmPath (W.digest wasm)) b m now s s' →
      T.guar (.touch (wasmPath (W.digest wasm))) s s' ∧ S s')
    (habsent : ∀ {s}, R s → (view s).tree.get (wasmPath (W.digest wasm)) = none → R₁ s)
    (hwasm : ∀ {s s' tmp m}, R₁ s → Published view T me A (wasmPath (W.digest wasm)) wasm tmp m
      s s' → T.guar (.rename tmp (wasmPath (W.digest wasm))) s s' ∧ S s') :
    Sat T (fun r s => match r with
      | .ok staged => S s ∧ staged.digest = W.digest wasm
      | .error _ => R s ∨ R₁ s) (stage W engine wasm).run s := by
  refine (h.sat_stageOf h₁ (K := fun _ => True) ((h.sat_compile hs).mono fun r s hr => ?_) hcwasm
    hrenew htouch habsent hwasm).mono fun r s hr => ?_
  · refine ⟨hr.1, fun component digest fresh hok => ?_⟩
    obtain ⟨hd, hnew⟩ := hr.2 component digest fresh hok
    exact ⟨hd, trivial, hnew⟩
  · cases r with
    | ok staged => exact ⟨hr.1, hr.2.1⟩
    | error e => exact hr

/-- `write_pointer`: it fails only where something was in the way. -/
theorem Actor.sat_writePointer (h : Actor view T me A R) {tenant func digest : Str} {s : σ}
    (hs : R s)
    (hpub : ∀ {path s s' tmp m}, pointerPath tenant func = some path →
      isValidDigest digest = true → R s → Published view T me A path (.ofStr digest) tmp m s s' →
      T.guar (.rename tmp path) s s' ∧ S s') :
    Sat T (fun r s => match r with
      | .ok _ => S s
      | .error _ => R s ∧ ∀ path, pointerPath tenant func = some path →
          isValidDigest digest = true → ¬ Steady view T me A R path.parent path)
      (writePointer tenant func digest).run s := by
  unfold writePointer
  split
  · rename_i hd
    exact ⟨hs, fun _ _ hd' => by simp [hd'] at hd⟩
  · rename_i hd
    split
    · exact ⟨hs, fun _ hp => by simp_all⟩
    · rename_i path hp
      refine (h.sat_atomicWrite hs (hpub hp (by simpa using hd))).mono fun r s hr => ?_
      cases r with
      | ok _ => exact hr
      | error _ => exact ⟨hr.1, fun q hq _ => Option.some.inj (hp.symm.trans hq) ▸ hr.2⟩

/-- **`activate`**. -/
theorem Actor.sat_activate (h : Actor view T me A R) {tenant func : Str} {staged : Staged} {s : σ}
    (hs : R s)
    (hpub : ∀ {path s s' tmp m}, pointerPath tenant func = some path →
      isValidDigest staged.digest = true → R s →
      Published view T me A path (.ofStr staged.digest) tmp m s s' →
      T.guar (.rename tmp path) s s' ∧ S s') :
    Sat T (fun r s => match r with
      | .ok _ => S s
      | .error _ => R s ∧ ∀ path, pointerPath tenant func = some path →
          isValidDigest staged.digest = true → ¬ Steady view T me A R path.parent path)
      (activate tenant func staged).run s := by
  unfold activate
  split
  · rename_i hname
    refine ⟨hs, fun path hp => ?_⟩
    obtain ⟨ht, hf, -⟩ := pointerPath_eq_some.1 hp
    simp [ht, hf] at hname
  · refine Sat.mapErr ((h.sat_writePointer hs hpub).mono fun r s hr => ?_)
    cases r with
    | ok _ => exact hr
    | error _ => exact hr

end Warpline
