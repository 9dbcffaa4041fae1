import Warpline.Core.Load
import Warpline.Core.Proof.GcSteps
import Warpline.Core.Proof.StageSteps

/-!
# Caching is transparent

`Coherent` is the invariant of the three tiers: every `wasm/{d}.wasm` holds uploaded bytes of digest
`d`, every `cwasm/{d}-{compat}.cwasm` that an engine of that hash accepts is the component of such
bytes, and so is every entry of a runtime's cache. `Confined` is the frame of every step on the
files: a step of a thread changes the content of no published file but the one it renames a
temporary file to.

`caching_transparent` is the main result.
-/

set_option autoImplicit false

namespace Warpline

open Conc Fs

section
variable {W : Wasm} {κ τ : Type} (F : Fleet W κ τ) (ops : τ → ModuleOp)

/-- The bytes that are published in the run. -/
def Uploaded (b : Bytes) : Prop := ∃ t, (ops t).wasm? = some b

/-- `pre` is compiled by runtime `k` from uploaded bytes of that digest. -/
def Compiled (k : κ) (digest : Str) (pre : W.HandlerPre) : Prop :=
  ∃ b c, Uploaded ops b ∧ W.digest b = digest ∧ W.componentNew (F.engine k) b = some c ∧
    W.instantiatePre (F.engine k) c = some pre

/-- What is assumed of SHA-256 and wasmtime: digests of uploaded bytes do not collide, engines of one
compatibility hash compile and deserialize alike, and what was serialized is deserialized to the
same component. -/
structure Reproducible : Prop where
  digest_inj : ∀ b b', Uploaded ops b → Uploaded ops b' → W.digest b = W.digest b' → b = b'
  componentNew_eq : ∀ k k', W.compatHash (F.engine k) = W.compatHash (F.engine k') →
    W.componentNew (F.engine k) = W.componentNew (F.engine k')
  deserialize_eq : ∀ k k', W.compatHash (F.engine k) = W.compatHash (F.engine k') →
    W.deserialize (F.engine k) = W.deserialize (F.engine k')
  deserialize_serialize : ∀ k b c x, W.componentNew (F.engine k) b = some c →
    W.serialize c = some x → W.deserialize (F.engine k) x = some c

/-- What a file may hold under its name. -/
structure Genuine (p : PathBuf) (b : Bytes) : Prop where
  blob : ∀ digest, isValidDigest digest = true → p = wasmPath digest →
    Uploaded ops b ∧ W.digest b = digest
  cwasm : ∀ k digest c, isValidDigest digest = true →
    p = cwasmDir.join (cacheFileName W (F.engine k) digest) →
    W.deserialize (F.engine k) b = some c →
    ∃ b', Uploaded ops b' ∧ W.digest b' = digest ∧ W.componentNew (F.engine k) b' = some c

/-- What is in the files and in the caches has been made from uploaded modules. -/
structure Coherent {L : LruCrate Str (CacheEntry W.HandlerPre)} (s : Modules L κ τ) : Prop where
  files : ∀ p b m, s.files.tree.get p = some (.file b m) → Genuine F ops p b
  caches : ∀ k digest e, (digest, e) ∈ (s.caches k).entries → Compiled F ops k digest e.pre

end

/-! ## Frames -/

/-- A step on the files, of thread `t` if it is one: what is under a published name was there
before, or is `dest`. -/
structure Confined {τ : Type} (t : Option τ) (dest : Option (PathBuf × Bytes)) (s s' : State τ) :
    Prop where
  files : ∀ p b m, ¬ TempPath p → s'.tree.get p = some (.file b m) →
    (∃ m', s.tree.get p = some (.file b m')) ∨ dest = some (p, b)
  temps : ∀ u p, some u ≠ t → s.temps p = some u → s'.temps p = some u ∧
    ∀ b m, s'.tree.get p = some (.file b m) → s.tree.get p = some (.file b m)

section
variable {τ : Type} {t : τ} {s s' : State τ}

theorem confined_refl (t : Option τ) (s : State τ) : Confined t none s s :=
  ⟨fun _ _ m _ h => .inl ⟨m, h⟩, fun _ _ _ h => ⟨h, fun _ _ => id⟩⟩

theorem confined_quiet (h : Quiet t s s') : Confined (some t) none s s' := by
  refine ⟨fun p b m hp hb => .inl ⟨m, ?_⟩, fun u p hu ht => ⟨h.kept p u ht, fun b m hb => ?_⟩⟩
  · obtain he | ⟨-, hd⟩ := h.get hp
    · rwa [he] at hb
    · rw [hd] at hb
      cases hb
  · obtain he | ⟨hme, -⟩ | ⟨-, hd⟩ := h.tree p
    · rwa [he] at hb
    · rw [h.kept p u ht] at hme
      exact absurd hme hu
    · rw [hd] at hb
      cases hb

/-- Taking a file away. -/
theorem confined_del {t : Option τ} {p : PathBuf} (hne : p ≠ []) :
    Confined t none s (s.setTree (s.tree.del p)) := by
  have hfiles : ∀ q b m, (s.tree.del p).get q = some (.file b m) →
      s.tree.get q = some (.file b m) := by
    intro q b m hb
    by_cases hq : q = p
    · rw [hq, DirTree.get_del _ hne] at hb
      cases hb
    · rwa [DirTree.get_del_ne _ hq] at hb
  exact ⟨fun q b m _ hb => .inl ⟨m, hfiles q b m hb⟩, fun u q _ ht => ⟨ht, hfiles q⟩⟩

/-- Writing a published file. -/
theorem confined_put {t : Option τ} {p : PathBuf} {b : Bytes} {m : Nat} (hne : p ≠ [])
    (hp : ¬ TempPath p) :
    Confined t (some (p, b)) s (s.setTree (s.tree.put p (.file b m))) := by
  refine ⟨fun q b' m' _ hb => ?_, fun u q _ ht => ⟨ht, fun b' m' hb => ?_⟩⟩
  · by_cases hq : q = p
    · rw [hq, State.setTree_tree, DirTree.get_put _ _ hne] at hb
      cases hb
      exact .inr (by rw [hq])
    · rw [State.setTree_tree, DirTree.get_put_ne _ _ hq] at hb
      exact .inl ⟨m', hb⟩
  · rwa [State.setTree_tree, DirTree.get_put_ne] at hb
    rintro rfl
    exact hp (s.temp_named _ _ ht)

/-- Renaming a temporary file of one's own. -/
theorem confined_renamed {tmp dest : PathBuf} {b : Bytes} {m : Nat} (hmine : s.temps tmp = some t)
    (hdest : ¬ TempPath dest) (hne : dest ≠ []) :
    Confined (some t) (some (dest, b)) s (s.renamed tmp dest b m) := by
  have hget : ∀ p, p ≠ dest → p ≠ tmp → (s.renamed tmp dest b m).tree.get p = s.tree.get p := by
    intro p hp ht
    rw [State.renamed, State.setTree_tree, DirTree.get_put_ne _ _ hp, DirTree.get_del_ne _ ht]
  refine ⟨fun p b' m' hp hb => ?_, fun u p hu ht => ⟨ht, fun b' m' hb => ?_⟩⟩
  · by_cases hq : p = dest
    · rw [hq, State.renamed, State.setTree_tree, DirTree.get_put _ _ hne] at hb
      cases hb
      exact .inr (by rw [hq])
    · rw [hget p hq] at hb
      · exact .inl ⟨m', hb⟩
      · rintro rfl
        exact hp (s.temp_named _ _ hmine)
  · rwa [hget p] at hb
    · rintro rfl
      exact hdest (s.temp_named _ _ ht)
    · rintro rfl
      exact hu (ht.symm.trans hmine)

end

/-! ## The setting of one thread -/

section
variable {W : Wasm} {L : LruCrate Str (CacheEntry W.HandlerPre)} {κ τ : Type} [DecidableEq κ]
  [DecidableEq τ]

/-- Whenever `wasm/{digest}.wasm` is read it is there, and reading it does not fail. -/
def BlobReads (digest : Str) (s : Modules L κ τ) : (c : LoadCall W) → LoadRes c → Prop
  | .inl (.read p), (r : Except IoError Bytes) => p = wasmPath digest →
    ∃ b m, s.files.tree.get p = some (.file b m) ∧ r = .ok b
  | _, _ => True

/-- A step of the others, seen by `t`. -/
structure ModulesRely (F : Fleet W κ τ) (ops : τ → ModuleOp) (t : τ) (s s' : Modules L κ τ) :
    Prop where
  inv : Coherent F ops s'
  temps : ∀ p, s.files.temps p = some t → s'.files.temps p = some t ∧
    ∀ b m, s'.files.tree.get p = some (.file b m) → s.files.tree.get p = some (.file b m)

/-- The setting of `t`, where the blob of `kept` can always be read. -/
def moduleThread (F : Fleet W κ τ) (ops : τ → ModuleOp) (kept : Option Str) (t : τ) :
    Thread (Modules L κ τ) (LoadCall W) LoadRes where
  exec := fun s c r s' => (∃ ch, moduleExec F t ch s c = some (r, s')) ∧
    ∀ digest, kept = some digest → BlobReads digest s c r
  rely := fun _ => ModulesRely F ops t
  guar := fun _ s s' => Coherent F ops s' ∧ ∀ u, u ≠ t → ModulesRely F ops u s s'

variable {F : Fleet W κ τ} {ops : τ → ModuleOp} {kept : Option Str} {t : τ}
  {s s' : Modules L κ τ}

omit [DecidableEq κ] [DecidableEq τ] in
/-- A temporary file may hold anything. -/
theorem genuine_temp {p : PathBuf} {b : Bytes} (hp : TempPath p) : Genuine F ops p b := by
  refine ⟨fun digest hd h => ?_, fun k digest c hd h => ?_⟩
  · rw [h] at hp
    exact absurd hp (wasmPath_not_temp hd)
  · rw [h] at hp
    exact absurd hp (cwasmPath_not_temp W _ hd)

omit [DecidableEq κ] [DecidableEq τ] in
/-- A pointer may hold anything. -/
theorem genuine_pointer {tenant func : Str} {p : PathBuf} {b : Bytes}
    (hp : pointerPath tenant func = some p) : Genuine F ops p b :=
  ⟨fun _ hd h => absurd h.symm (wasmPath_ne_pointer hd hp),
    fun _ _ _ hd h => absurd h.symm (cwasmPath_ne_pointer W _ hd hp)⟩

omit [DecidableEq κ] [DecidableEq τ] in
/-- **A step on the files** that puts only genuine content under a published name. -/
theorem Confined.coherent {u : Option τ} {dest : Option (PathBuf × Bytes)} (hs : Coherent F ops s)
    (hv : s' = s.setFiles s'.files) (hc : Confined u dest s.files s'.files)
    (hdest : ∀ p b, dest = some (p, b) → Genuine F ops p b) :
    Coherent F ops s' ∧ ∀ v, some v ≠ u → ModulesRely F ops v s s' := by
  have hinv : Coherent F ops s' := by
    refine ⟨fun p b m hb => ?_, ?_⟩
    · by_cases hp : TempPath p
      · exact genuine_temp hp
      · obtain ⟨m', hold⟩ | hd := hc.files p b m hp hb
        · exact hs.files p b m' hold
        · exact hdest p b hd
    · rw [hv]
      exact hs.caches
  exact ⟨hinv, fun v hne => ⟨hinv, fun p => hc.temps v p hne⟩⟩

theorem module_step (hs : Coherent F ops s) {c : LoadCall W} {dest : Option (PathBuf × Bytes)}
    (hv : s' = s.setFiles s'.files) (hc : Confined (some t) dest s.files s'.files)
    (hdest : ∀ p b, dest = some (p, b) → Genuine F ops p b) :
    (moduleThread F ops kept t).guar c s s' := by
  obtain ⟨hinv, hrely⟩ := hc.coherent hs hv hdest
  exact ⟨hinv, fun u hu => hrely u fun h => hu (Option.some.inj h)⟩

omit [DecidableEq τ] in
/-- A step on the cache of runtime `k`. -/
theorem Coherent.setCache (hs : Coherent F ops s) {k : κ} {inner : ComponentCacheInner L}
    (hi : ∀ digest e, (digest, e) ∈ inner.entries → Compiled F ops k digest e.pre) :
    Coherent F ops (s.setCache k inner) ∧ ∀ u, ModulesRely F ops u s (s.setCache k inner) := by
  have hinv : Coherent F ops (s.setCache k inner) := by
    refine ⟨hs.files, fun k' digest e he => ?_⟩
    have he : (digest, e) ∈ (Function.update s.caches k inner k').entries := he
    by_cases hk : k' = k
    · subst hk
      rw [Function.update_self] at he
      exact hi digest e he
    · rw [Function.update_of_ne hk] at he
      exact hs.caches k' digest e he
  exact ⟨hinv, fun u => ⟨hinv, fun _ h => ⟨h, fun _ _ => id⟩⟩⟩

theorem tempPath_ne_nil {p : PathBuf} (h : TempPath p) : p ≠ [] := by
  obtain ⟨dir, suffix, rfl⟩ := h
  exact PathBuf.child_ne_nil _ _

theorem module_actor : Actor Modules.files (moduleThread F ops kept t : Thread (Modules L κ τ) _ _).inl
    t (fun _ => True) (Coherent F ops) where
  exec _ he := by
    obtain ⟨⟨ch, hx⟩, -⟩ := he
    exact ⟨ch, trivial, (moduleExec_file hx).1⟩
  stable _ _ _ _ hr := hr.inv
  temps _ hr hp := hr.temps _ hp
  same {c r s s'} _ hs he hv := by
    obtain ⟨⟨ch, hx⟩, -⟩ := he
    have hg : (moduleThread F ops kept t).guar (.inl c) s s' :=
      module_step hs (moduleExec_file hx).2 (by rw [hv]; exact confined_refl _ _)
        fun _ _ h => by cases h
    exact ⟨hg, hg.1⟩
  quiet {c r s s'} _ hs he hq := by
    obtain ⟨⟨ch, hx⟩, -⟩ := he
    have hg : (moduleThread F ops kept t).guar (.inl c) s s' :=
      module_step hs (moduleExec_file hx).2 (confined_quiet hq) fun _ _ h => by cases h
    exact ⟨hg, hg.1⟩
  cleanup {p r s s'} hs hp he hv := by
    obtain ⟨⟨ch, hx⟩, -⟩ := he
    have hne := tempPath_ne_nil (s.files.temp_named p t hp)
    have hg : (moduleThread F ops kept t).guar (.inl (.removeFile p)) s s' :=
      module_step hs (moduleExec_file hx).2 (by rw [hv]; exact confined_del hne)
        fun _ _ h => by cases h
    exact ⟨hg, hg.1⟩

/-! ## What is published -/

omit [DecidableEq κ] [DecidableEq τ] in
/-- A source blob, under the digest of its bytes. -/
theorem genuine_wasm {wasm : Bytes} (hu : Uploaded ops wasm) :
    Genuine F ops (wasmPath (W.digest wasm)) wasm := by
  have hw := W.digest_valid wasm
  refine ⟨fun digest hd h => ?_, fun k digest c hd h => ?_⟩
  · rw [wasmPath_eq hw, wasmPath_eq hd] at h
    have hname := Bytes.ofStr_inj.1 (PathBuf.child_inj.1 h).2
    exact ⟨hu, List.append_cancel_right hname⟩
  · exact absurd h (wasmPath_ne_cwasm W _ hw hd)

/-- The name of a compiled component tells its digest and the hash of its engine. -/
theorem cwasmPath_inj {engine engine' : W.Engine} {digest digest' : Str}
    (hd : isValidDigest digest = true) (hd' : isValidDigest digest' = true)
    (h : cwasmDir.join (cacheFileName W engine digest) =
      cwasmDir.join (cacheFileName W engine' digest')) :
    digest = digest' ∧ W.compatHash engine = W.compatHash engine' := by
  rw [cwasmPath_eq W _ hd, cwasmPath_eq W _ hd'] at h
  have hname : digest ++ '-' :: W.compatHash engine ++ ".cwasm".toList =
      digest' ++ '-' :: W.compatHash engine' ++ ".cwasm".toList :=
    Bytes.ofStr_inj.1 (PathBuf.child_inj.1 h).2
  have hlen : digest.length = digest'.length :=
    (isValidDigest_spec hd).1.trans (isValidDigest_spec hd').1.symm
  obtain ⟨hdigest, hrest⟩ := List.append_inj (List.append_cancel_right hname) hlen
  exact ⟨hdigest, (List.cons.inj hrest).2⟩

omit [DecidableEq κ] [DecidableEq τ] in
/-- What an engine has compiled from uploaded bytes. -/
theorem genuine_cwasm (hF : Reproducible F ops) {k : κ} {wasm x : Bytes} {c : W.Component}
    (hu : Uploaded ops wasm) (hc : W.componentNew (F.engine k) wasm = some c)
    (hx : W.serialize c = some x) :
    Genuine F ops (cwasmDir.join (cacheFileName W (F.engine k) (W.digest wasm))) x := by
  have hw := W.digest_valid wasm
  refine ⟨fun digest hd h => ?_, fun k' digest c' hd h hc' => ?_⟩
  · exact absurd h.symm (wasmPath_ne_cwasm W _ hd hw)
  · obtain ⟨hdigest, hcompat⟩ := cwasmPath_inj hw hd h
    rw [← hF.deserialize_eq k k' hcompat, hF.deserialize_serialize k wasm c x hc hx] at hc'
    cases hc'
    exact ⟨wasm, hu, hdigest, by rw [← hF.componentNew_eq k k' hcompat]; exact hc⟩

omit [DecidableEq κ] [DecidableEq τ] in
/-- All that is compiled under one digest is compiled from the same bytes. -/
theorem Compiled.unique (hF : Reproducible F ops) {k : κ} {digest : Str} {b : Bytes}
    {pre : W.HandlerPre} (h : Compiled F ops k digest pre) (hu : Uploaded ops b)
    (hb : W.digest b = digest) :
    ∃ c, W.componentNew (F.engine k) b = some c ∧ W.instantiatePre (F.engine k) c = some pre := by
  obtain ⟨b', c, hu', hb', hc, hp⟩ := h
  have hbytes : b' = b := hF.digest_inj b' b hu' hu (hb'.trans hb.symm)
  exact ⟨c, hbytes ▸ hc, hp⟩

/-! ## The operations -/

/-- Renaming a temporary file over a published name. -/
theorem module_publish (hs : Coherent F ops s) {dest tmp : PathBuf} {b : Bytes} {m : Nat}
    (hg : Genuine F ops dest b) (hdest : ¬ TempPath dest)
    (h : Published Modules.files (moduleThread F ops kept t : Thread (Modules L κ τ) _ _).inl t
      (fun _ => True) dest b tmp m s s') :
    (moduleThread F ops kept t).guar (.inl (.rename tmp dest)) s s' ∧ Coherent F ops s' := by
  obtain ⟨⟨ch, hx⟩, -⟩ := h.exec
  have hne : dest ≠ [] := by
    rintro rfl
    exact h.notDir rfl
  have hc : Confined (some t) (some (dest, b)) s.files s'.files := by
    rw [h.view_eq]
    exact confined_renamed h.mine hdest hne
  have hstep : (moduleThread F ops kept t).guar (.inl (.rename tmp dest)) s s' := by
    refine module_step hs (moduleExec_file hx).2 hc fun p b' hd => ?_
    cases hd
    exact hg
  exact ⟨hstep, hstep.1⟩

/-- Renewing the time of a published file. -/
theorem module_touch (hs : Coherent F ops s) {p : PathBuf} {b : Bytes} {m now : Nat}
    (hp : ¬ TempPath p)
    (h : Touched Modules.files (moduleThread F ops kept t : Thread (Modules L κ τ) _ _).inl
      (fun _ => True) p b m now s s') :
    (moduleThread F ops kept t).guar (.inl (.touch p)) s s' ∧ Coherent F ops s' := by
  obtain ⟨⟨ch, hx⟩, -⟩ := h.exec
  have hne : p ≠ [] := by
    rintro rfl
    cases h.was
  have hc : Confined (some t) (some (p, b)) s.files s'.files := by
    rw [h.view_eq]
    exact confined_put hne hp
  have hstep : (moduleThread F ops kept t).guar (.inl (.touch p)) s s' := by
    refine module_step hs (moduleExec_file hx).2 hc fun q b' hd => ?_
    cases hd
    exact hs.files p b m h.was
  exact ⟨hstep, hstep.1⟩

/-- `t` runs a program on the files. -/
abbrev Files (F : Fleet W κ τ) (ops : τ → ModuleOp) (kept : Option Str) (t : τ) {ε α : Type}
    (p : ExceptT ε FsM α) (s : Modules L κ τ) : Prop :=
  Sat (moduleThread F ops kept t : Thread (Modules L κ τ) _ _).inl (fun _ => Coherent F ops) p.run s

theorem sat_stage (hF : Reproducible F ops) {wasm : Bytes} (hu : Uploaded ops wasm)
    (hs : Coherent F ops s) :
    Files F ops kept t (stage W (F.engine (F.runtime t)) wasm) s := by
  have hw := W.digest_valid wasm
  refine (module_actor.sat_stage (S := Coherent F ops) module_actor hs ?_ ?_ ?_ (fun h _ => h)
    ?_).mono fun r s hr => ?_
  · intro s s' tmp m c x hc hx hs h
    exact module_publish hs (genuine_cwasm hF hu hc hx) (cwasmPath_not_temp W _ hw) h
  · intro s s' b m now hs h
    exact module_touch hs (cwasmPath_not_temp W _ hw) h
  · intro s s' b m now hs h
    exact module_touch hs (wasmPath_not_temp hw) h
  · intro s s' tmp m hs h
    exact module_publish hs (genuine_wasm hu) (wasmPath_not_temp hw) h
  · cases r with
    | ok staged => exact hr.1
    | error e => exact hr.elim id id

theorem sat_activate {tenant func : Str} {staged : Staged} (hs : Coherent F ops s) :
    Files F ops kept t (activate tenant func staged) s := by
  refine (module_actor.sat_activate (S := Coherent F ops) hs fun hp _ hs h => ?_).mono fun r s hr => ?_
  · exact module_publish hs (genuine_pointer hp) (pointerPath_not_temp hp) h
  · cases r with
    | ok _ => exact hr
    | error e => exact hr.1

theorem wasmExists_calls (digest : Str) :
    (wasmExists digest).Calls fun c => c.readOnly = true := by
  unfold wasmExists
  split
  · refine .bind (.perform rfl) fun r => ?_
    cases r <;> trivial
  · trivial

theorem sat_activateStored {tenant func digest : Str} (hs : Coherent F ops s) :
    Files F ops kept t (activateDigest tenant func digest) s := by
  unfold Files activateDigest
  split
  · exact hs
  split
  · exact hs
  refine Sat.liftE ((module_actor.sat_reading (wasmExists_calls digest) hs).mono fun b s hs => ?_)
  cases b with
  | true => exact sat_activate hs
  | false => exact hs

/-- `remove_pointer` takes a pointer away, or nothing. -/
theorem sat_deactivate {tenant func : Str} (hs : Coherent F ops s) :
    Files F ops kept t (deactivate tenant func) s := by
  unfold Files deactivate
  split
  · exact hs
  unfold removePointer
  refine Sat.mapErr ?_
  split
  · exact hs
  rename_i path hp
  refine Sat.bind (Sat.perform (Coherent F ops) (fun _ _ _ hr => hr.inv) hs
    fun s₁ r s₂ hs₁ he => ?_)
  obtain ⟨⟨ch, hx⟩, -⟩ := he
  obtain ⟨hfile, hv⟩ := moduleExec_file hx
  have hc : Confined (some t) none s₁.files s₂.files := by
    obtain ⟨b, m, -, hb, hdel⟩ | ⟨e, -, hsame, -⟩ := exec_removeFile hfile
    · rw [hdel]
      refine confined_del ?_
      rintro rfl
      cases hb
    · rw [hsame]
      exact confined_refl _ _
  have hstep : (moduleThread F ops kept t).guar (.inl (.removeFile path)) s₁ s₂ :=
    module_step hs₁ hv hc fun _ _ h => by cases h
  refine ⟨hstep, ?_⟩
  rcases r with (_ | _) | _ <;> exact hstep.1

theorem sat_publish (hF : Reproducible F ops) {tenant func : Str} {wasm : Bytes}
    (hu : Uploaded ops wasm) (hs : Coherent F ops s) :
    Files F ops kept t (publish W (F.engine (F.runtime t)) tenant func wasm) s := by
  unfold Files publish
  split
  · exact hs
  refine Sat.bindE ((sat_stage hF hu hs).mono fun r s hs => ?_)
  cases r with
  | error e => exact hs
  | ok staged =>
    refine Sat.bindE ((sat_activate hs).mono fun r s hs => ?_)
    cases r with
    | error e => exact hs
    | ok _ => exact hs

/-- A collection removes files only. -/
theorem module_collector (engine : W.Engine) (grace : Nat) (referenced : List Str)
    (tenantDirs : List PathBuf) :
    Collector Modules.files (moduleThread F ops kept t : Thread (Modules L κ τ) _ _).inl t
      (fun _ => True) grace (GcTarget W engine referenced tenantDirs) (fun _ => Coherent F ops)
      (fun _ _ => True) (fun _ _ => True) where
  exec hs he := module_actor.exec hs he
  stable _ c := module_actor.stable c
  same hc hs he hv := module_actor.same hc hs he hv
  old _ _ _ _ := trivial
  oldStable _ _ _ _ _ := trivial
  remove {n s p b m r s'} hs _ _ hp he hv := by
    obtain ⟨⟨ch, hx⟩, -⟩ := he
    have hne : p ≠ [] := by
      rintro rfl
      cases hp
    have hstep : (moduleThread F ops kept t).guar (.inl (.removeFile p)) s s' :=
      module_step hs (moduleExec_file hx).2 (by rw [hv]; exact confined_del hne)
        fun _ _ h => by cases h
    exact ⟨hstep, hstep.1⟩
  handledStable _ _ _ _ _ _ := trivial
  handledKept _ := trivial
  absent _ _ := trivial
  young _ _ _ _ := trivial

theorem sat_gc {engine : W.Engine} {grace : Nat} (hs : Coherent F ops s) :
    Files F ops kept t (gc W engine grace) s :=
  (Collector.sat_gcUnreferencedBlobs (module_collector engine grace) hs).mono
    fun _ _ h => h.choose_spec

/-! ## Loading -/

/-- `c` is compiled by runtime `k` from uploaded bytes of that digest. -/
def CompiledComponent (F : Fleet W κ τ) (ops : τ → ModuleOp) (k : κ) (digest : Str)
    (c : W.Component) : Prop :=
  ∃ b, Uploaded ops b ∧ W.digest b = digest ∧ W.componentNew (F.engine k) b = some c

/-- What comes of a load: a component of the digest and, where its blob can always be read, one
whenever the bytes compile. -/
structure Loads (F : Fleet W κ τ) (ops : τ → ModuleOp) (kept : Option Str) (k : κ) (digest : Str)
    (r : Except Error W.HandlerPre) : Prop where
  sound : ∀ pre, r = .ok pre → Compiled F ops k digest pre
  available : kept = some digest → (∃ pre, Compiled F ops k digest pre) → ∃ pre, r = .ok pre

omit [DecidableEq κ] [DecidableEq τ] in
theorem Loads.ok {k : κ} {digest : Str} {pre : W.HandlerPre} (h : Compiled F ops k digest pre) :
    Loads F ops kept k digest (.ok pre) :=
  ⟨fun _ he => by cases he; exact h, fun _ _ => ⟨pre, rfl⟩⟩

omit [DecidableEq κ] [DecidableEq τ] in
theorem Loads.error {k : κ} {digest : Str} {e : Error}
    (h : kept = some digest → ¬ ∃ pre, Compiled F ops k digest pre) :
    Loads F ops kept k digest (.error e) :=
  ⟨nofun, fun hk hc => absurd hc (h hk)⟩

omit [DecidableEq κ] [DecidableEq τ] in
/-- A component of the digest is instantiated, unless nothing of the digest can be. -/
theorem CompiledComponent.instantiate (hF : Reproducible F ops) {k : κ} {digest : Str}
    {c : W.Component} (h : CompiledComponent F ops k digest c) :
    match W.instantiatePre (F.engine k) c with
    | some pre => Compiled F ops k digest pre
    | none => ¬ ∃ pre, Compiled F ops k digest pre := by
  obtain ⟨b, hu, hb, hc⟩ := h
  split
  · rename_i pre hp
    exact ⟨b, c, hu, hb, hc, hp⟩
  · rename_i hp
    rintro ⟨pre, hpre⟩
    obtain ⟨c', hc', hp'⟩ := hpre.unique hF hu hb
    rw [hc] at hc'
    cases hc'
    rw [hp] at hp'
    cases hp'

theorem sat_cacheHit {digest : Str} (hs : Coherent F ops s) :
    Sat (moduleThread F ops kept t) (fun r s => Coherent F ops s ∧
      ∀ pre, r = some pre → Compiled F ops (F.runtime t) digest pre) (cacheHit digest) s := by
  refine Sat.call (Coherent F ops) (fun _ _ _ hr => hr.inv) hs fun s₁ r s₂ hs₁ he => ?_
  obtain ⟨⟨ch, hx⟩, -⟩ := he
  obtain ⟨rfl, rfl⟩ := Prod.mk.inj (Option.some.inj hx)
  have hentries : ∀ digest' e, (digest', e) ∈ ((s₁.caches (F.runtime t)).hit digest).2.entries →
      Compiled F ops (F.runtime t) digest' e.pre :=
    fun digest' e he => hs₁.caches _ _ _ (ComponentCacheInner.mem_hit he)
  obtain ⟨hinv, hrely⟩ := hs₁.setCache hentries
  refine ⟨⟨hinv, fun u _ => hrely u⟩, hinv, fun pre hpre => ?_⟩
  obtain ⟨e, he, rfl⟩ := ComponentCacheInner.hit_fst hpre
  exact hs₁.caches _ _ _ he

theorem sat_cacheInsert {digest : Str} {pre : W.HandlerPre} {weight : Usize}
    (hs : Coherent F ops s) (hp : Compiled F ops (F.runtime t) digest pre) :
    Sat (moduleThread F ops kept t) (fun _ => Coherent F ops) (cacheInsert digest pre weight) s := by
  refine Sat.call (Coherent F ops) (fun _ _ _ hr => hr.inv) hs fun s₁ r s₂ hs₁ he => ?_
  obtain ⟨⟨ch, hx⟩, -⟩ := he
  obtain ⟨-, rfl⟩ := Prod.mk.inj (Option.some.inj hx)
  have hentries : ∀ digest' e, (digest', e) ∈ ((s₁.caches (F.runtime t)).insert
      (F.byteBudget (F.runtime t)) digest pre weight).entries →
      Compiled F ops (F.runtime t) digest' e.pre := by
    intro digest' e he
    obtain h | h := ComponentCacheInner.mem_insert he
    · cases h
      exact hp
    · exact hs₁.caches _ _ _ h
  obtain ⟨hinv, hrely⟩ := hs₁.setCache hentries
  exact ⟨⟨hinv, fun u _ => hrely u⟩, hinv⟩

/-- What is read from a file is genuine; the blob of `kept` is read. -/
theorem sat_readFile {p : PathBuf} (hs : Coherent F ops s) :
    Sat (moduleThread F ops kept t : Thread (Modules L κ τ) _ _).inl (fun r s => Coherent F ops s ∧
      (∀ b, r = .ok b → Genuine F ops p b) ∧
      ∀ digest, kept = some digest → p = wasmPath digest → ∃ b, r = .ok b) (read p) s := by
  refine Sat.perform (Coherent F ops) (fun _ _ _ hr => hr.inv) hs fun s₁ r s₂ hs₁ he => ?_
  obtain ⟨⟨ch, hx⟩, hkept⟩ := id he
  obtain ⟨hfile, -⟩ := moduleExec_file hx
  obtain ⟨hg, hs₂⟩ := module_actor.same (.inl rfl) hs₁ he (exec_readOnly rfl hfile)
  refine ⟨hg, hs₂, fun b hb => ?_, fun digest hk hp => ?_⟩
  · obtain ⟨b', m, hr, hget⟩ | ⟨e, hr, -⟩ := exec_read hfile
    · rw [hr] at hb
      cases hb
      exact hs₁.files p _ m hget
    · rw [hr] at hb
      cases hb
  · obtain ⟨b, m, -, hr⟩ := hkept digest hk hp
    exact ⟨b, hr⟩

/-- `load_cwasm` returns a component of the digest, or fails. -/
theorem sat_loadCwasm {digest : Str} (hs : Coherent F ops s) :
    Sat (moduleThread F ops kept t : Thread (Modules L κ τ) _ _).inl (fun r s => Coherent F ops s ∧
      ∀ c, r = .ok c → CompiledComponent F ops (F.runtime t) digest c)
      (loadCwasm W (F.engine (F.runtime t)) cwasmDir digest).run s := by
  unfold loadCwasm
  split
  swap
  · exact ⟨hs, fun _ h => by cases h⟩
  rename_i hd
  refine Sat.bindE (sat_io ((sat_readFile hs).mono fun r s hr => ?_))
  obtain ⟨hs, hgen, -⟩ := hr
  cases r with
  | error e => exact ⟨hs, fun _ h => by cases h⟩
  | ok b =>
    simp only [Except.mapError]
    split
    · rename_i c hc
      refine ⟨hs, fun c' h => ?_⟩
      cases h
      exact (hgen b rfl).cwasm _ _ _ hd rfl hc
    · exact ⟨hs, fun _ h => by cases h⟩

theorem sat_loadExisting (hF : Reproducible F ops) {digest : Str} (hs : Coherent F ops s) :
    Sat (moduleThread F ops kept t) (fun r s => Coherent F ops s ∧ match r with
      | .ok (.ready pre) => Compiled F ops (F.runtime t) digest pre
      | .ok .needsCompile => True
      | .error _ => ¬ ∃ pre, Compiled F ops (F.runtime t) digest pre)
      (loadExisting (F.engine (F.runtime t)) digest).run s := by
  refine Sat.liftE ((sat_cacheHit hs).mono fun hit s hr => ?_)
  cases hit with
  | some pre => exact ⟨hr.1, hr.2 pre rfl⟩
  | none =>
  refine Sat.liftE (Sat.of_inl ((sat_loadCwasm hr.1).mono fun r s hr => ?_))
  cases r with
  | error e => exact ⟨hr.1, trivial⟩
  | ok component =>
  have hc := hr.2 component rfl
  refine Sat.liftE (Sat.of_inl ((module_actor.sat_reading (.perform rfl) hr.1).mono
    fun metadata s hs => ?_))
  show Sat _ _ (instantiatePre (F.engine (F.runtime t)) component >>= fun pre => _).run s
  have hpre := hc.instantiate hF
  unfold instantiatePre
  split
  · rename_i pre hp
    rw [hp] at hpre
    exact Sat.liftE ((sat_cacheInsert hs hpre).mono fun _ s hs => ⟨hs, hpre⟩)
  · rename_i hp
    rw [hp] at hpre
    exact ⟨hs, hpre⟩

/-- `recompile` reads the blob, whose bytes have the digest. -/
theorem sat_recompile (hF : Reproducible F ops) {digest : Str} (hd : isValidDigest digest = true)
    (hs : Coherent F ops s) :
    Sat (moduleThread F ops kept t) (fun r s => Coherent F ops s ∧
      Loads F ops kept (F.runtime t) digest r) (recompile (F.engine (F.runtime t)) digest).run s := by
  refine Sat.liftE (Sat.of_inl ((sat_readFile hs).mono fun r s hr => ?_))
  obtain ⟨hs, hgen, hkept⟩ := hr
  cases r with
  | error e =>
    refine ⟨hs, .error fun hk => ?_⟩
    obtain ⟨b, hb⟩ := hkept digest hk rfl
    cases hb
  | ok b =>
  obtain ⟨hu, rfl⟩ := (hgen b rfl).blob _ hd rfl
  show Sat _ _ (onDisk (componentNew W (F.engine (F.runtime t)) b) >>= fun component => _).run s
  unfold componentNew
  split
  swap
  · rename_i hc
    refine ⟨hs, .error fun _ => ?_⟩
    rintro ⟨pre, hpre⟩
    obtain ⟨c, hc', -⟩ := hpre.unique hF hu rfl
    rw [hc] at hc'
    cases hc'
  rename_i component hc
  -- the file may be written again or not
  have hpersist : Sat (moduleThread F ops kept t : Thread (Modules L κ τ) _ _).inl
      (fun _ => Coherent F ops)
      (persistCwasm W component (F.engine (F.runtime t)) cwasmDir (W.digest b)).run s := by
    unfold persistCwasm
    split
    · exact hs
    · rename_i x hx
      refine Sat.bindE ((module_actor.sat_atomicWrite (S := Coherent F ops) hs
        fun hs h => module_publish hs (genuine_cwasm hF hu hc hx) (cwasmPath_not_temp W _ hd)
          h).mono fun r s hr => ?_)
      cases r with
      | ok _ => exact hr
      | error _ => exact hr.1
  refine Sat.liftE (Sat.of_inl (hpersist.mono fun persisted s hs => ?_))
  show Sat _ _ (instantiatePre (F.engine (F.runtime t)) component >>= fun pre => _).run s
  have hcomp : CompiledComponent F ops (F.runtime t) (W.digest b) component := ⟨b, hu, rfl, hc⟩
  have hpre := hcomp.instantiate hF
  unfold instantiatePre
  split
  · rename_i pre hp
    rw [hp] at hpre
    exact Sat.liftE ((sat_cacheInsert hs hpre).mono fun _ s hs => ⟨hs, .ok hpre⟩)
  · rename_i hp
    rw [hp] at hpre
    exact ⟨hs, .error fun _ => hpre⟩

theorem sat_getOrLoad (hF : Reproducible F ops) {digest : Str} (hd : isValidDigest digest = true)
    (hs : Coherent F ops s) :
    Sat (moduleThread F ops kept t) (fun r s => Coherent F ops s ∧
      Loads F ops kept (F.runtime t) digest r) (getOrLoad (F.engine (F.runtime t)) digest).run s := by
  refine Sat.bindE ((sat_loadExisting hF hs).mono fun r s hr => ?_)
  obtain ⟨hs, hr⟩ := hr
  cases r with
  | error e => exact ⟨hs, .error fun _ => hr⟩
  | ok loaded =>
    cases loaded with
    | ready pre => exact ⟨hs, .ok hr⟩
    | needsCompile => exact sat_recompile hF hd hs

theorem sat_fetchDigest (hF : Reproducible F ops) {digest : Str} (hd : isValidDigest digest = true)
    (hs : Coherent F ops s) :
    Sat (moduleThread F ops kept t) (fun r s => Coherent F ops s ∧
      Loads F ops kept (F.runtime t) digest r)
      (fetchDigest (F.engine (F.runtime t)) digest).run s := by
  refine Sat.liftE ((sat_cacheHit hs).mono fun hit s hr => ?_)
  cases hit with
  | some pre => exact ⟨hr.1, .ok (hr.2 pre rfl)⟩
  | none =>
  refine Sat.bindE ((sat_loadExisting hF hr.1).mono fun r s hr => ?_)
  obtain ⟨hs, hr⟩ := hr
  cases r with
  | error e => exact ⟨hs, .error fun _ => hr⟩
  | ok loaded =>
    cases loaded with
    | ready pre => exact ⟨hs, .ok hr⟩
    | needsCompile => exact sat_getOrLoad hF hd hs

/-- A pointer is read as a valid digest. -/
theorem sat_readDigest {tenant func : Str} (hs : Coherent F ops s) :
    Sat (moduleThread F ops kept t : Thread (Modules L κ τ) _ _).inl (fun r s => Coherent F ops s ∧
      ∀ digest, r = .ok (some digest) → isValidDigest digest = true)
      (readPointer tenant func).run s := by
  unfold readPointer
  split
  · exact ⟨hs, fun _ h => by cases h⟩
  rename_i path _
  refine Sat.bind ((module_actor.sat_reading (p := Prog.perform (.readToString path)) (.perform rfl)
    hs).mono fun r s hs => ?_)
  rcases r with (_ | _) | (contents : Str)
  · exact ⟨hs, fun _ h => by cases h⟩
  · exact ⟨hs, fun _ h => by cases h⟩
  · show Sat _ _ (if (!isValidDigest (Str.trim contents)) = true then _ else _) s
    split
    · exact ⟨hs, fun _ h => by cases h⟩
    · rename_i hd
      refine ⟨hs, fun digest h => ?_⟩
      cases h
      simpa using hd

/-! ## The system -/

/-- What has come of the operation of `t`. -/
def ModulePost (F : Fleet W κ τ) (ops : τ → ModuleOp) (kept : Option Str) (t : τ) :
    ModuleOut W → Prop
  | .fetched (.ok (some (digest, r))) => Loads F ops kept (F.runtime t) digest r
  | _ => True

theorem sat_fetchNamed (hF : Reproducible F ops) {tenant func : Str} (hs : Coherent F ops s) :
    Sat (moduleThread F ops kept t) (fun r _ => ModulePost F ops kept t (.fetched r))
      (fetchNamed (F.engine (F.runtime t)) tenant func).run s := by
  refine Sat.bindE (Sat.of_inl (sat_readDigest hs) |>.mono fun r s hr => ?_)
  obtain ⟨hs, hd⟩ := hr
  cases r with
  | error e => trivial
  | ok digest =>
    cases digest with
    | none => trivial
    | some digest =>
      exact Sat.liftE ((sat_fetchDigest hF (hd digest rfl) hs).mono fun _ _ hr => hr.2)

theorem sat_moduleOp (hF : Reproducible F ops) (hs : Coherent F ops s) :
    Sat (moduleThread F ops kept t) (fun out _ => ModulePost F ops kept t out)
      ((ops t).run (F.engine (F.runtime t))) s := by
  have hfiles : ∀ {ε α : Type} {p : ExceptT ε FsM α} {f : Except ε α → ModuleOut W},
      Files F ops kept t p s → (∀ r, ModulePost F ops kept t (f r)) →
      Sat (moduleThread F ops kept t) (fun out _ => ModulePost F ops kept t out)
        (p.run.inl >>= fun r => .ret (f r)) s :=
    fun hp hf => Sat.bind ((Sat.of_inl hp).mono fun r _ _ => hf r)
  cases hop : ops t with
  | stage wasm => exact hfiles (sat_stage hF ⟨t, by rw [hop]; rfl⟩ hs) fun _ => trivial
  | activate tenant func staged => exact hfiles (sat_activate hs) fun _ => trivial
  | activateDigest tenant func digest => exact hfiles (sat_activateStored hs) fun _ => trivial
  | deactivate tenant func => exact hfiles (sat_deactivate hs) fun _ => trivial
  | publish tenant func wasm =>
    exact hfiles (sat_publish hF ⟨t, by rw [hop]; rfl⟩ hs) fun _ => trivial
  | gc grace => exact hfiles (sat_gc hs) fun _ => trivial
  | fetch tenant func => exact Sat.bind ((sat_fetchNamed hF hs).mono fun _ _ hr => hr)

omit [DecidableEq τ] in
/-- What happens beside the operations leaves every tier coherent. -/
theorem Disturbed.coherent (hs : Coherent F ops s) (h : Disturbed F s s') :
    Coherent F ops s' ∧ ∀ u, ModulesRely F ops u s s' := by
  cases h with
  | @damaged digest engine b₀ m₀ b m hd hf hb =>
    have hne : cwasmDir.join (cacheFileName W engine digest) ≠ [] := by
      intro h
      rw [h] at hf
      cases hf
    have hgen : ∀ p b', some (cwasmDir.join (cacheFileName W engine digest), b) = some (p, b') →
        Genuine F ops p b' := by
      intro p b' h
      cases h
      refine ⟨fun digest' hd' h => absurd h.symm (wasmPath_ne_cwasm W _ hd' hd),
        fun k _ c _ _ hc => ?_⟩
      rw [hb k] at hc
      cases hc
    have hc : Confined none (some (cwasmDir.join (cacheFileName W engine digest), b)) s.files
        (s.setFiles (s.files.setTree
          (s.files.tree.put (cwasmDir.join (cacheFileName W engine digest)) (.file b m)))).files :=
      confined_put hne (cwasmPath_not_temp W _ hd)
    obtain ⟨hinv, hrely⟩ := hc.coherent hs rfl hgen
    exact ⟨hinv, fun u => hrely u (by simp)⟩
  | @deleted digest engine hd =>
    have hne : cwasmDir.join (cacheFileName W engine digest) ≠ [] := by
      rw [cwasmPath_eq W engine hd]
      exact PathBuf.child_ne_nil _ _
    have hc : Confined none none s.files (s.setFiles (s.files.setTree
        (s.files.tree.del (cwasmDir.join (cacheFileName W engine digest))))).files :=
      confined_del hne
    obtain ⟨hinv, hrely⟩ := hc.coherent hs rfl fun _ _ h => by cases h
    exact ⟨hinv, fun u => hrely u (by simp)⟩
  | evicted hi => exact hs.setCache fun digest e he => hs.caches _ _ _ (hi he)

/-- The runs in which each thread finds the blob of its digest in `kept` whenever it reads it. -/
def keepingBlobs (L : LruCrate Str (CacheEntry W.HandlerPre)) (F : Fleet W κ τ)
    (kept : τ → Option Str) : System τ (Modules L κ τ) (LoadCall W) LoadRes :=
  (moduleSystem L F).restrict fun _ t s c r =>
    ∀ digest, kept t = some digest → BlobReads digest s c r

theorem module_compatible (F : Fleet W κ τ) (ops : τ → ModuleOp) (kept : τ → Option Str) :
    Compatible (keepingBlobs L F kept) (fun t => moduleThread F ops (kept t) t)
      (Coherent F ops) where
  exec _ _ _ _ _ _ _ _ hx := hx
  guar _ _ u _ _ _ _ hne _ _ _ hg := hg.2 u hne.symm
  env _ u _ _ hs h := (Disturbed.coherent hs h).2 u
  inv _ _ _ _ _ hg := hg.1
  envInv _ _ _ hs h := (Disturbed.coherent hs h).1

omit [DecidableEq κ] [DecidableEq τ] in
theorem coherent_start (F : Fleet W κ τ) (ops : τ → ModuleOp) :
    Coherent F ops (modulesStart L F ops).shared := by
  refine ⟨fun p b m hb => ?_, fun k digest e he => ?_⟩
  · have hb : (⟨∅⟩ : DirTree).get p = some (.file b m) := hb
    by_cases hp : p = [] <;> simp [DirTree.get, hp] at hb
  · have he : (digest, e) ∈ L.entries (L.new (max (F.cap k) 1)) := he
    rw [L.entries_new] at he
    cases he

/-- Every run keeps the three tiers coherent, and every load does what it should. -/
theorem module_run (hF : Reproducible F ops) {kept : τ → Option Str} {C : ModuleConfig L κ τ}
    (hr : Reach (keepingBlobs L F kept) (modulesStart L F ops) C) :
    Coherent F ops C.shared ∧
      ∀ t out, C.prog t = .ret out → ModulePost F ops (kept t) t out := by
  obtain ⟨hinv, hsat⟩ := hr.sat (module_compatible F ops kept)
    (Q := fun t out _ => ModulePost F ops (kept t) t out) (fun _ _ _ _ h _ => h)
    (coherent_start F ops) fun t => sat_moduleOp hF (coherent_start F ops)
  refine ⟨hinv, fun t out hout => ?_⟩
  have h := hsat t
  rwa [hout] at h

end

/-! ## Transparency -/

/-- What an observer of a configuration sees of the three tiers. -/
structure Transparent {W : Wasm} {L : LruCrate Str (CacheEntry W.HandlerPre)} {κ τ : Type}
    (F : Fleet W κ τ) (ops : τ → ModuleOp) (C : ModuleConfig L κ τ) : Prop where
  /-- Every `wasm/{d}.wasm` holds published bytes of digest `d`. -/
  blobs : ∀ digest b m, isValidDigest digest = true →
    C.shared.files.tree.get (wasmPath digest) = some (.file b m) →
    Uploaded ops b ∧ W.digest b = digest
  /-- What is loaded for digest `d` is what its runtime compiles from those bytes. -/
  loads : ∀ t digest pre, C.prog t = .ret (.fetched (.ok (some (digest, .ok pre)))) →
    Compiled F ops (F.runtime t) digest pre

/-- Whatever path loads a component, it is compiled from the bytes that were published; and the
load succeeds where the source blob is there when it is read. -/
theorem caching_transparent {W : Wasm} {L : LruCrate Str (CacheEntry W.HandlerPre)} {κ τ : Type}
    [DecidableEq κ] [DecidableEq τ] {F : Fleet W κ τ} {ops : τ → ModuleOp}
    (hF : Reproducible F ops) :
    (∀ C, Reach (moduleSystem L F) (modulesStart L F ops) C → Transparent F ops C) ∧
      ∀ kept C, Reach (keepingBlobs L F kept) (modulesStart L F ops) C →
        ∀ t digest r b c pre, kept t = some digest →
          C.prog t = .ret (.fetched (.ok (some (digest, r)))) →
          Uploaded ops b → W.digest b = digest →
          W.componentNew (F.engine (F.runtime t)) b = some c →
          W.instantiatePre (F.engine (F.runtime t)) c = some pre → r = .ok pre := by
  refine ⟨fun C hr => ?_, fun kept C hr t digest r b c pre hk hret hu hb hc hp => ?_⟩
  · have hr : Reach (keepingBlobs L F fun _ => none) (modulesStart L F ops) C :=
      hr.mono (fun _ _ _ _ _ _ hx => ⟨hx, fun _ h => by cases h⟩) fun _ _ _ => id
    obtain ⟨hinv, hpost⟩ := module_run hF hr
    exact ⟨fun digest b m hd hb => (hinv.files _ b m hb).blob digest hd rfl,
      fun t digest pre hret => (hpost t _ hret).sound pre rfl⟩
  · have hload : Loads F ops (kept t) (F.runtime t) digest r := (module_run hF hr).2 t _ hret
    obtain ⟨pre', rfl⟩ := hload.available hk ⟨pre, b, c, hu, hb, hc, hp⟩
    obtain ⟨c', hc', hp'⟩ := (hload.sound pre' rfl).unique hF hu hb
    rw [hc] at hc'
    cases hc'
    rw [hp] at hp'
    cases hp'
    rfl

/-- A function is published by one runtime, and loaded twice by another. -/
def publishThenFetch : Option Bool → ModuleOp
  | none => .publish ['t'] ['f'] [.raw [7]]
  | some _ => .fetch ['t'] ['f']

def plainFleet : Fleet Wasm.plain Bool (Option Bool) :=
  ⟨fun _ => (0 : Nat), fun _ => 4, fun _ => 1000, Option.isSome⟩

/-- `Wasm.plain` is reproducible where only one component is published. -/
theorem reproducible_plain : Reproducible plainFleet publishThenFetch := by
  have hone : ∀ b, Uploaded publishThenFetch b → b = [.raw [7]] := by
    rintro b ⟨t, ht⟩
    unfold publishThenFetch at ht
    split at ht
    · exact (Option.some.inj ht).symm
    · cases ht
  refine ⟨fun b b' hb hb' _ => (hone b hb).trans (hone b' hb').symm, fun _ _ _ => rfl,
    fun _ _ _ => rfl, fun k b c x hc hx => ?_⟩
  cases hc
  cases hx
  rfl

def plainCache : LruCrate Str (CacheEntry Wasm.plain.HandlerPre) := .list _ _

abbrev PlainModules := Modules plainCache Bool (Option Bool)

/-- What befalls the compiled component, or the second runtime's cache. -/
inductive Mishap
  | damaged
  | deleted
  | evicted

def Mishap.act (s : PlainModules) : Mishap → Option PlainModules
  | .damaged =>
    match s.files.tree.get compiledPath with
    | some (.file _ _) =>
      some (s.setFiles (s.files.setTree (s.files.tree.put compiledPath (.file [.raw [1]] 0))))
    | _ => none
  | .deleted => some (s.setFiles (s.files.setTree (s.files.tree.del compiledPath)))
  | .evicted => some (s.setCache true (.new plainCache 4))
where
  compiledPath := cwasmDir.join (cacheFileName Wasm.plain (0 : Nat) (plainDigest [.raw [7]]))

theorem Mishap.disturbs {s s' : PlainModules} {e : Mishap} (h : e.act s = some s') :
    Disturbed plainFleet s s' := by
  have hd : isValidDigest (plainDigest [.raw [7]]) = true := Wasm.plain.digest_valid _
  cases e with
  | damaged =>
    simp only [Mishap.act] at h
    split at h
    · rename_i b m hf
      cases h
      exact .damaged (W := Wasm.plain) _ _ hd hf fun _ => rfl
    · cases h
  | deleted =>
    cases h
    exact .deleted (W := Wasm.plain) hd
  | evicted =>
    cases h
    exact .evicted fun e he => by cases he

/-- The compiled component is damaged before the first load, which compiles it again; then it is
deleted and the cache emptied, so that the second load compiles it once more. -/
def mishapRun : List ((Option Bool × Choice) ⊕ Mishap) :=
  let step := Choice.ofNow 0
  let write := fun x => [step, Choice.ofSuffix 0 [x], step, step, step, step]
  let recompiled := fun x => List.replicate 7 step ++ write x ++ [step]
  let calls (t : Option Bool) : List Choice → List ((Option Bool × Choice) ⊕ Mishap) :=
    List.map fun ch => .inl (t, ch)
  calls none ((step :: write 'x') ++ (step :: write 'y') ++ write 'z') ++ .inr .damaged ::
    calls (some false) (recompiled 'u') ++ .inr .deleted :: .inr .evicted ::
      calls (some true) (recompiled 'v')

def hasFetched (C : ModuleConfig plainCache Bool (Option Bool)) (t : Option Bool) : Bool :=
  match C.prog t with
  | .ret (.fetched (.ok (some (_, .ok (pre : Bytes))))) => pre == [.raw [7]]
  | _ => false

theorem caching_transparent_once : ∃ C : ModuleConfig plainCache Bool (Option Bool),
    (hasFetched C (some false) = true ∧ hasFetched C (some true) = true) ∧
      Transparent plainFleet publishThenFetch C := by
  have hrun : ((modulesStart plainCache plainFleet publishThenFetch).playEnv
      (fun ch _ t s c => moduleExec plainFleet t ch s c) (fun e _ s => e.act s) mishapRun).any
      (fun C => hasFetched C (some false) && hasFetched C (some true)) = true := by
    decide +kernel
  rw [Option.any_eq_true] at hrun
  obtain ⟨C, hplay, hC⟩ := hrun
  have hreach : Reach (moduleSystem plainCache plainFleet)
      (modulesStart plainCache plainFleet publishThenFetch) C :=
    playEnv_reach (S := moduleSystem plainCache plainFleet) (fun ch _ _ _ _ _ _ hx => ⟨ch, hx⟩)
      (fun _ _ _ _ he => Mishap.disturbs he) hplay
  exact ⟨C, by simpa using hC, (caching_transparent reproducible_plain).1 C hreach⟩

end Warpline
