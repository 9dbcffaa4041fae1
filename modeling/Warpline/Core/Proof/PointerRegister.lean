import Warpline.Conc.Trace
import Warpline.Core.Proof.GcSteps
import Warpline.Core.Proof.StageSteps
import Warpline.Fs.System

/-!
# A pointer is an atomic register

Any number of threads write, remove and read pointers and collect garbage, each file-system call
one step; a thread that is not scheduled again has crashed. `register` reads the value of a pointer
off the history: what the last rename of a `write_pointer` of the pair has put there, unless a
`remove_pointer` of the pair has removed it since. `RegisterInv` is the invariant: the file of
every pointer holds the value of its register.

`pointer_register` is the main result. `Beside` is the frame of every step: a step changes no
pointer but the one it publishes or removes, and puts no file where the directories of the pointers
are.
-/

set_option autoImplicit false

namespace Warpline

open Conc Fs

inductive PointerOp (W : Wasm)
  | write (tenant func digest : Str)
  | remove (tenant func : Str)
  | read (tenant func : Str)
  | gc (engine : W.Engine) (grace : Nat)

inductive PointerRes
  | done
  | digest (digest : Option Str)
  | removed (count : Nat)
  deriving DecidableEq

def PointerOp.run {W : Wasm} : PointerOp W → ExceptT Error FsM PointerRes
  | .write tenant func digest => do
    writePointer tenant func digest
    pure .done
  | .remove tenant func => do
    removePointer tenant func
    pure .done
  | .read tenant func => do
    let digest ← readPointer tenant func
    pure (.digest digest)
  | .gc engine grace => do
    let count ← gcUnreferencedBlobs W engine grace
    pure (.removed count)

/-- The new value of the register `(tenant, func)`, if a call of the operation sets it. -/
def PointerOp.effect {W : Wasm} (tenant func : Str) :
    PointerOp W → (c : FsCall) → FsRes c → Option (Option Str)
  | .write tenant' func' digest, .rename _ _, .ok _ =>
    if tenant' = tenant ∧ func' = func then some (some digest) else none
  | .remove tenant' func', .removeFile _, .ok _ =>
    if tenant' = tenant ∧ func' = func then some none else none
  | _, _, _ => none

section
variable {W : Wasm} {τ : Type} (ops : τ → PointerOp W) (tenant func : Str)

/-- The value of the register `(tenant, func)`. -/
def register : Trace τ FsCall FsRes → Option Str
  | [] => none
  | (t, ⟨c, r⟩) :: tr => ((ops t).effect tenant func c r).getD (register tr)

@[simp] theorem register_nil : register ops tenant func [] = none := rfl

@[simp] theorem register_cons {t : τ} {c : FsCall} {r : FsRes c} {tr : Trace τ FsCall FsRes} :
    register ops tenant func ((t, ⟨c, r⟩) :: tr) =
      ((ops t).effect tenant func c r).getD (register ops tenant func tr) := rfl

end

section
variable {W : Wasm} {τ : Type} {ops : τ → PointerOp W} {tenant func : Str}

theorem PointerOp.effect_quiet {op : PointerOp W} {c : FsCall} {r : FsRes c}
    (h : c.quiet = true ∨ ∃ e, r = .error e) : op.effect tenant func c r = none := by
  cases op <;> cases c <;> first | rfl | skip
  all_goals
    obtain h | ⟨e, rfl⟩ := h
    · cases h
    · rfl

/-- Who sets the register to a digest writes it to the same pair, by a rename. -/
theorem PointerOp.effect_digest {op : PointerOp W} {c : FsCall} {r : FsRes c} {digest : Str}
    (h : op.effect tenant func c r = some (some digest)) : op = .write tenant func digest ∧
      ∃ tmp path, (⟨c, r⟩ : (c : FsCall) × FsRes c) = ⟨.rename tmp path, .ok ()⟩ := by
  unfold PointerOp.effect at h
  split at h
  · rename_i tmp path _
    split at h <;> cases h
    rename_i hname
    exact ⟨by rw [hname.1, hname.2], tmp, path, rfl⟩
  · split at h <;> cases h
  · cases h

theorem register_eq_some {tr : Trace τ FsCall FsRes} {digest : Str}
    (h : register ops tenant func tr = some digest) :
    ∃ q ∈ tr, (ops q.1).effect tenant func q.2.1 q.2.2 = some (some digest) := by
  induction tr with
  | nil => cases h
  | cons q tr ih =>
    rw [register_cons] at h
    cases he : (ops q.1).effect tenant func q.2.1 q.2.2 with
    | some v =>
      rw [he] at h
      exact ⟨q, .head _, by rw [he, ← h]; rfl⟩
    | none =>
      rw [he] at h
      obtain ⟨q', hq', hv⟩ := ih h
      exact ⟨q', .tail _ hq', hv⟩

end

/-! ## The invariant -/

/-- The file of a pointer. -/
def PointerHolds {τ : Type} (path : PathBuf) (s : State τ) : Option Str → Prop
  | some digest => ∃ m, s.tree.get path = some (.file (.ofStr digest) m)
  | none => s.tree.get path = none

abbrev RegisterState (τ : Type) := Traced τ (State τ) FsCall FsRes

section
variable {W : Wasm} {τ : Type} (ops : τ → PointerOp W)

/-- Every pointer file holds what the events so far make of its register. -/
structure RegisterInv (s : RegisterState τ) : Prop where
  holds : ∀ tenant func path, pointerPath tenant func = some path →
    PointerHolds path s.state (register ops tenant func s.trace)
  clear : ∀ tenant func path, pointerPath tenant func = some path →
    s.state.tree.underFile path.parent = false
  digests : ∀ q ∈ s.trace, ∀ tenant func digest,
    (ops q.1).effect tenant func q.2.1 q.2.2 = some (some digest) → isValidDigest digest = true
  spared : ∀ q ∈ s.trace, ∀ engine grace p, ops q.1 = .gc engine grace →
    q.2 = ⟨.removeFile p, .ok ()⟩ → ∀ tenant func, pointerPath tenant func ≠ some p

/-- None of the calls of `t` has set a register. -/
def NoEffect [DecidableEq τ] (t : τ) (s : RegisterState τ) : Prop :=
  ∀ q ∈ s.trace.of t, ∀ tenant func, (ops t).effect tenant func q.1 q.2 = none

end

/-- A step of `t` that changes no pointer but `dest`, no directory of a pointer and no temporary
file of another thread. -/
structure Beside {τ : Type} (t : τ) (dest : Option PathBuf) (s s' : State τ) : Prop where
  pointer : ∀ tenant func path, pointerPath tenant func = some path → some path ≠ dest →
    s'.tree.get path = s.tree.get path
  files : ∀ p b m, ¬ TempPath p → some p ≠ dest → s'.tree.get p = some (.file b m) →
    s.tree.get p = some (.file b m)
  temps : ∀ u p, u ≠ t → s.temps p = some u → s'.temps p = some u ∧
    ∀ b m, s'.tree.get p = some (.file b m) → s.tree.get p = some (.file b m)

/-- The directories above a pointer are no temporary files, and no pointers. -/
theorem pointerPath_above {tenant func : Str} {path p : PathBuf}
    (h : pointerPath tenant func = some path) (hp : p <+: path.parent) :
    ¬ TempPath p ∧ p.length < 3 := by
  obtain ⟨ht, -, rfl⟩ := pointerPath_eq_some.1 h
  have htenants : tenantsDir = PathBuf.child [] (.ofStr "tenants".toList) := by decide
  rw [PathBuf.parent_child, PathBuf.child, List.prefix_concat_iff, htenants, PathBuf.child,
    List.prefix_concat_iff, List.prefix_nil] at hp
  rcases hp with rfl | rfl | rfl
  · refine ⟨?_, by simp⟩
    cases tenant with
    | nil => exact absurd rfl (validName_spec ht).2.2
    | cons c rest =>
      show ¬ TempPath (PathBuf.child [.ofStr "tenants".toList] (.ofStr (c :: rest)))
      exact not_temp_of_head fun hc => (validName_spec ht).2.1 (hc ▸ List.mem_cons_self)
  · refine ⟨?_, by simp⟩
    show ¬ TempPath (PathBuf.child [] (.ofStr "tenants".toList))
    exact not_temp_of_head (by decide)
  · refine ⟨?_, by simp⟩
    rintro ⟨dir, suffix, hd⟩
    exact PathBuf.child_ne_nil _ _ hd.symm

/-- Where there is no pointer, nothing is in the way of reading it. -/
theorem clear_of_absent {tenant func : Str} {path : PathBuf} {t : DirTree}
    (hp : pointerPath tenant func = some path) (hc : t.underFile path.parent = false)
    (hn : t.get path = none) : t.underFile path = false := by
  obtain ⟨-, -, rfl⟩ := pointerPath_eq_some.1 hp
  rw [PathBuf.parent_child] at hc
  rw [DirTree.underFile_child, hc, hn]
  rfl

theorem Beside.clear {τ : Type} {t : τ} {dest : Option PathBuf} {s s' : State τ}
    (h : Beside t dest s s') (hd : ∀ p, dest = some p → p.length = 3) {tenant func : Str}
    {path : PathBuf} (hp : pointerPath tenant func = some path)
    (hs : s.tree.underFile path.parent = false) : s'.tree.underFile path.parent = false := by
  rw [DirTree.underFile, List.any_eq_false] at hs ⊢
  intro p hm hf
  obtain ⟨htemp, hlen⟩ := pointerPath_above hp ((List.mem_inits _ _).1 hm)
  refine hs p hm ?_
  cases hg : s'.tree.get p with
  | none => simp [hg] at hf
  | some n => cases n with
    | dir => simp [hg, Node.isFile] at hf
    | file b m =>
      have hne : some p ≠ dest := fun heq => by
        have := hd p heq.symm
        omega
      simp [h.files p b m htemp hne hg, Node.isFile]

/-! ## The setting of one thread -/

section
variable {W : Wasm} {τ : Type} [DecidableEq τ]

/-- A step of the others, seen by `t`. -/
structure RegisterRely (ops : τ → PointerOp W) (t : τ) (s s' : RegisterState τ) : Prop where
  inv : RegisterInv ops s'
  calls : s'.trace.of t = s.trace.of t
  trace : s.trace <:+ s'.trace
  temps : ∀ p, s.state.temps p = some t → s'.state.temps p = some t ∧
    ∀ b m, s'.state.tree.get p = some (.file b m) → s.state.tree.get p = some (.file b m)

/-- Thread `t` among others that keep the registers. -/
def registerThread (A : τ → Choice → Prop) (ops : τ → PointerOp W) (t : τ) :
    Thread (RegisterState τ) FsCall FsRes where
  exec := fun s c r s' => Exec (A t) t s.state c r s'.state ∧ s'.trace = (t, ⟨c, r⟩) :: s.trace
  rely := fun _ => RegisterRely ops t
  guar := fun _ s s' => RegisterInv ops s' ∧ ∀ u, u ≠ t → RegisterRely ops u s s'

variable {A : τ → Choice → Prop} {ops : τ → PointerOp W} {t : τ} {s s' : RegisterState τ}

/-- **A step of `t`** that leaves every file but a pointer alone keeps the invariant, provided the
pointer follows its register. -/
theorem register_step (hs : RegisterInv ops s) {c : FsCall} {r : FsRes c} {dest : Option PathBuf}
    (he : (registerThread A ops t).exec s c r s') (hb : Beside t dest s.state s'.state)
    (hdest : ∀ p, dest = some p → p.length = 3)
    (hptr : ∀ tenant func path, pointerPath tenant func = some path →
      ((ops t).effect tenant func c r = none ∧ some path ≠ dest) ∨
        ∃ v, (ops t).effect tenant func c r = some v ∧ PointerHolds path s'.state v ∧
          ∀ digest, v = some digest → isValidDigest digest = true)
    (hname : ∀ tenant func, pointerPath tenant func = none →
      (ops t).effect tenant func c r = none)
    (hgc : ∀ engine grace p, ops t = .gc engine grace →
      (⟨c, r⟩ : (c : FsCall) × FsRes c) = ⟨.removeFile p, .ok ()⟩ →
      ∀ tenant func, pointerPath tenant func ≠ some p) :
    (registerThread A ops t).guar c s s' := by
  obtain ⟨-, htr⟩ := he
  have hinv : RegisterInv ops s' := by
    refine ⟨fun tenant func path hp => ?_, fun tenant func path hp => ?_,
      fun q hq tenant func digest hv => ?_, fun q hq => ?_⟩
    · rw [htr, register_cons]
      obtain ⟨hn, hne⟩ | ⟨v, hv, hh, -⟩ := hptr tenant func path hp
      · have hsame := hb.pointer tenant func path hp hne
        have hold := hs.holds tenant func path hp
        rw [hn, Option.getD_none]
        cases hreg : register ops tenant func s.trace with
        | none =>
          rw [hreg] at hold
          exact hsame.trans hold
        | some digest =>
          rw [hreg] at hold
          obtain ⟨m, hm⟩ := hold
          exact ⟨m, hsame.trans hm⟩
      · rw [hv, Option.getD_some]
        exact hh
    · exact hb.clear hdest hp (hs.clear tenant func path hp)
    · rw [htr, List.mem_cons] at hq
      rcases hq with rfl | hq
      · cases hp : pointerPath tenant func with
        | none =>
          have := hname tenant func hp
          rw [this] at hv
          cases hv
        | some path =>
          obtain ⟨hn, -⟩ | ⟨v, hv', -, hd⟩ := hptr tenant func path hp
          · rw [hn] at hv
            cases hv
          · rw [hv'] at hv
            exact hd digest (Option.some.inj hv)
      · exact hs.digests q hq tenant func digest hv
    · rw [htr, List.mem_cons] at hq
      rcases hq with rfl | hq
      · exact hgc
      · exact hs.spared q hq
  refine ⟨hinv, fun u hu => ⟨hinv, ?_, ?_, fun p => hb.temps u p hu⟩⟩
  · rw [htr, Trace.of_cons_ne hu.symm]
  · rw [htr]
    exact List.suffix_cons _ _

/-- A step that sets no register. -/
theorem register_idle (hs : RegisterInv ops s) {c : FsCall} {r : FsRes c}
    (he : (registerThread A ops t).exec s c r s') (hb : Beside t none s.state s'.state)
    (heff : ∀ tenant func, (ops t).effect tenant func c r = none)
    (hgc : ∀ engine grace p, ops t = .gc engine grace →
      (⟨c, r⟩ : (c : FsCall) × FsRes c) = ⟨.removeFile p, .ok ()⟩ →
      ∀ tenant func, pointerPath tenant func ≠ some p) :
    (registerThread A ops t).guar c s s' :=
  register_step hs he hb nofun (fun tenant func _ _ => .inl ⟨heff tenant func, nofun⟩)
    (fun tenant func _ => heff tenant func) hgc

/-- A step that sets the register of the pair. -/
theorem register_set (hs : RegisterInv ops s) {c : FsCall} {r : FsRes c} {tenant func : Str}
    {path : PathBuf} {v : Option Str} (hp : pointerPath tenant func = some path)
    (he : (registerThread A ops t).exec s c r s') (hb : Beside t (some path) s.state s'.state)
    (heff : ∀ tenant' func', (ops t).effect tenant' func' c r =
      if tenant = tenant' ∧ func = func' then some v else none)
    (hv : PointerHolds path s'.state v) (hd : ∀ digest, v = some digest → isValidDigest digest = true)
    (hgc : ∀ engine grace, ops t ≠ .gc engine grace) : (registerThread A ops t).guar c s s' := by
  refine register_step hs he hb (fun p h => ?_) (fun tenant' func' path' hp' => ?_)
    (fun tenant' func' hn => ?_) fun engine grace p h => absurd h (hgc engine grace)
  · cases h
    exact pointerPath_length hp
  · by_cases hname : tenant = tenant' ∧ func = func'
    · obtain ⟨rfl, rfl⟩ := hname
      rw [hp] at hp'
      cases hp'
      exact .inr ⟨v, by rw [heff, if_pos ⟨rfl, rfl⟩], hv, hd⟩
    · refine .inl ⟨by rw [heff, if_neg hname], fun h => hname ?_⟩
      cases h
      exact pointerPath_inj hp hp'
  · rw [heff, if_neg]
    rintro ⟨rfl, rfl⟩
    rw [hp] at hn
    cases hn

/-! ## Frames -/

omit [DecidableEq τ] in
theorem beside_refl (t : τ) (s : State τ) : Beside t none s s :=
  ⟨fun _ _ _ _ _ => rfl, fun _ _ _ _ _ => id, fun _ _ _ h => ⟨h, fun _ _ => id⟩⟩

/-- The calls of a pointer operation make directories above the pointers only. -/
def Shallow (c : FsCall) : Prop := ∀ dir, c = .createDirAll dir → dir.length < 3

theorem beside_quiet {s s' : State τ} {ch : Choice} {c : FsCall} {r : FsRes c} (hq : c.quiet = true)
    (hc : Shallow c) (h : Fs.exec t ch s c = some (r, s')) : Beside t none s s' := by
  have hquiet := exec_quiet hq h
  refine ⟨fun tenant func path hp _ => ?_, fun p b m hp _ hb => ?_, fun u p hu ht => ?_⟩
  · refine exec_quiet_get hq h (pointerPath_not_temp hp) fun dir hd hpre => ?_
    have hlen := hpre.length_le
    rw [pointerPath_length hp] at hlen
    have := hc dir hd
    omega
  · obtain he | ⟨-, hd⟩ := hquiet.get hp
    · rwa [he] at hb
    · rw [hd] at hb
      cases hb
  · refine ⟨hquiet.kept p u ht, fun b m hb => ?_⟩
    obtain he | ⟨hme, -⟩ | ⟨-, hd⟩ := hquiet.tree p
    · rwa [he] at hb
    · rw [hquiet.kept p u ht, Option.some.injEq] at hme
      exact absurd hme hu
    · rw [hd] at hb
      cases hb

omit [DecidableEq τ] in
/-- Taking a file away. -/
theorem beside_del {s : State τ} {p : PathBuf} {dest : Option PathBuf} (hne : p ≠ [])
    (hd : ∀ tenant func, pointerPath tenant func = some p → dest = some p) :
    Beside t dest s (s.setTree (s.tree.del p)) := by
  have hfiles : ∀ q b m, (s.tree.del p).get q = some (.file b m) →
      s.tree.get q = some (.file b m) := by
    intro q b m hb
    by_cases hq : q = p
    · rw [hq, DirTree.get_del _ hne] at hb
      cases hb
    · rwa [DirTree.get_del_ne _ hq] at hb
  refine ⟨fun tenant func path hp hdest => ?_, fun q b m _ _ => hfiles q b m,
    fun u q _ ht => ⟨ht, hfiles q⟩⟩
  refine DirTree.get_del_ne _ ?_
  rintro rfl
  exact hdest (hd tenant func hp).symm

omit [DecidableEq τ] in
/-- Publishing a pointer. -/
theorem beside_renamed {s s' : State τ} {tmp path : PathBuf} {bytes : Bytes} {m : Nat}
    (hv : s' = s.renamed tmp path bytes m) (hmine : s.temps tmp = some t) (hpath : ¬ TempPath path) :
    Beside t (some path) s s' := by
  subst hv
  have hget : ∀ p, p ≠ path → p ≠ tmp →
      (s.renamed tmp path bytes m).tree.get p = s.tree.get p := by
    intro p hp ht
    rw [State.renamed, State.setTree_tree, DirTree.get_put_ne _ _ hp, DirTree.get_del_ne _ ht]
  have htmp : ∀ p, ¬ TempPath p → p ≠ tmp := by
    rintro p hp rfl
    exact hp (s.temp_named _ _ hmine)
  refine ⟨fun tenant func p hp hd => ?_, fun p b m hp hd hb => ?_,
    fun u p hu ht => ⟨ht, fun b m hb => ?_⟩⟩
  · exact hget p (fun h => hd (congrArg some h)) (htmp p (pointerPath_not_temp hp))
  · rwa [hget p (fun h => hd (congrArg some h)) (htmp p hp)] at hb
  · rwa [hget p] at hb
    · rintro rfl
      exact hpath (s.temp_named _ _ ht)
    · rintro rfl
      exact hu (Option.some.inj (ht.symm.trans hmine))

/-! ## The operations -/

/-- What a thread that has set no register keeps. -/
def Idle (ops : τ → PointerOp W) (t : τ) (s : RegisterState τ) : Prop :=
  RegisterInv ops s ∧ NoEffect ops t s

theorem NoEffect.cons (h : NoEffect ops t s) {c : FsCall} {r : FsRes c}
    (htr : s'.trace = (t, ⟨c, r⟩) :: s.trace)
    (heff : ∀ tenant func, (ops t).effect tenant func c r = none) : NoEffect ops t s' := by
  intro q hq
  rw [htr, Trace.of_cons_self, List.mem_cons] at hq
  rcases hq with rfl | hq
  · exact heff
  · exact h q hq

theorem Idle.stable (c : Option FsCall) : (registerThread A ops t).Stable c (Idle ops t) := by
  intro s s' hs hr
  refine ⟨hr.inv, ?_⟩
  unfold NoEffect
  rw [hr.calls]
  exact hs.2

theorem Idle.step (hs : Idle ops t s) {c : FsCall} {r : FsRes c}
    (he : (registerThread A ops t).exec s c r s') (hb : Beside t none s.state s'.state)
    (heff : ∀ tenant func, (ops t).effect tenant func c r = none)
    (hgc : ∀ engine grace p, ops t = .gc engine grace →
      (⟨c, r⟩ : (c : FsCall) × FsRes c) = ⟨.removeFile p, .ok ()⟩ →
      ∀ tenant func, pointerPath tenant func ≠ some p) :
    (registerThread A ops t).guar c s s' ∧ Idle ops t s' := by
  have hg := register_idle hs.1 he hb heff hgc
  exact ⟨hg, hg.1, hs.2.cons he.2 heff⟩

section write
variable {tenant func digest : Str}

theorem write_actor (ht : ops t = .write tenant func digest) :
    Actor Traced.state ((registerThread A ops t).limit Shallow) t (A t) (Idle ops t) where
  exec _ he := he.1.1
  stable c := Idle.stable (A := A) (some c)
  temps _ hr hp := hr.temps _ hp
  same hc hs he hv := hs.step he.1 (by rw [hv]; exact beside_refl t _)
    (fun _ _ => PointerOp.effect_quiet hc) fun _ _ _ h => by simp [ht] at h
  quiet {c r s s'} hc hs he _ := by
    obtain ⟨⟨ch, -, hx⟩, -⟩ := he.1
    exact hs.step he.1 (beside_quiet hc he.2 hx) (fun _ _ => PointerOp.effect_quiet (.inl hc))
      fun _ _ _ h => by simp [ht] at h
  cleanup {p r s s'} hs hp he hv := by
    refine hs.step he.1 ?_ (fun _ _ => by rw [ht]; rfl) fun _ _ _ h => by simp [ht] at h
    have htemp := s.state.temp_named p t hp
    rw [hv]
    refine beside_del ?_ fun _ _ hptr => absurd htemp (pointerPath_not_temp hptr)
    obtain ⟨dir, suffix, rfl⟩ := htemp
    exact PathBuf.child_ne_nil _ _

theorem writePointer_shallow : (writePointer tenant func digest).run.Calls Shallow := by
  unfold writePointer
  split
  · trivial
  split
  · trivial
  rename_i path hp
  unfold atomicWrite
  refine .bindE (.mapErr (.perform fun dir hd => ?_)) fun _ => ?_
  · cases hd
    have := pointerPath_length hp
    simp [PathBuf.parent, this]
  refine .bindE (.mapErr (.perform fun _ hd => by cases hd)) fun tmp => ?_
  refine .onError ?_ (.bind (.perform fun _ hd => by cases hd) fun _ => trivial)
  refine .bindE (.mapErr (.perform fun _ hd => by cases hd)) fun _ => ?_
  refine .bindE (.mapErr (.perform fun _ hd => by cases hd)) fun _ => ?_
  refine .bindE (.mapErr (.perform fun _ hd => by cases hd)) fun _ => ?_
  exact .mapErr (.perform fun _ hd => by cases hd)

/-- `write_pointer` has renamed a file to the pointer, or it has failed and set no register. -/
theorem sat_writePointer (ht : ops t = .write tenant func digest) (hs : Idle ops t s) :
    Sat (registerThread A ops t) (fun r s => match r with
      | .ok _ => ∃ path tmp, pointerPath tenant func = some path ∧
          ⟨.rename tmp path, .ok ()⟩ ∈ s.trace.of t
      | .error _ => NoEffect ops t s) (writePointer tenant func digest).run s := by
  have hgc : ∀ engine grace, ops t ≠ .gc engine grace := fun _ _ h => by simp [ht] at h
  refine writePointer_shallow.limit (((write_actor ht).sat_writePointer
    (S := fun s => ∃ path tmp, pointerPath tenant func = some path ∧
      ⟨.rename tmp path, .ok ()⟩ ∈ s.trace.of t) hs
    fun {path s s' tmp m} hp hd hs h => ?_).mono fun r s hr => ?_)
  · have hpath := pointerPath_not_temp hp
    refine ⟨register_set hs.1 hp h.exec.1 (beside_renamed h.view_eq h.mine hpath)
      (fun _ _ => by rw [ht]; rfl) (v := some digest) ?_ (fun d h => by cases h; exact hd) hgc,
      path, tmp, hp, ?_⟩
    · exact ⟨m, (renamed_get h.view_eq h.mine hpath h.notDir).1⟩
    · rw [h.exec.1.2, Trace.of_cons_self]
      exact .head _
  · cases r with
    | ok _ => exact hr
    | error _ => exact hr.1.2

end write

section remove
variable {tenant func : Str}

/-- At its call, `t` has left the register without a value. -/
def RemovedAt (ops : τ → PointerOp W) (t : τ) (tenant func : Str) (path : PathBuf)
    (trace : Trace τ FsCall FsRes) : Prop :=
  ∃ answer before, (t, ⟨.removeFile path, answer⟩) :: before <:+ trace ∧
    register ops tenant func ((t, ⟨.removeFile path, answer⟩) :: before) = none

/-- `remove_pointer` has left the register without a value, or it has failed and set no register. -/
theorem sat_removePointer (ht : ops t = .remove tenant func) {path : PathBuf}
    (hp : pointerPath tenant func = some path) (hs : Idle ops t s) :
    Sat (registerThread A ops t) (fun r s => match r with
      | .ok _ => RemovedAt ops t tenant func path s.trace
      | .error _ => NoEffect ops t s) (removePointer tenant func).run s := by
  have hgc : ∀ engine grace, ops t ≠ .gc engine grace := fun _ _ h => by simp [ht] at h
  unfold removePointer
  rw [hp]
  refine Sat.bind (Sat.perform (Idle ops t) (Idle.stable (A := A) _) hs fun s₁ r s₂ hs₁ he => ?_)
  obtain ⟨⟨ch, -, hx⟩, htr⟩ := id he
  obtain ⟨b, m, rfl, hb, hv⟩ | ⟨e, rfl, hv, -, hn⟩ := exec_removeFile hx
  · have hne : path ≠ [] := by
      rintro rfl
      cases hb
    refine ⟨register_set hs₁.1 hp he ?_ (fun _ _ => by rw [ht]; rfl) (v := none) ?_ nofun hgc,
      .ok (), s₁.trace, by rw [htr], ?_⟩
    · rw [hv]
      exact beside_del hne fun _ _ _ => rfl
    · rw [hv]
      exact DirTree.get_del _ hne
    · rw [register_cons, ht]
      simp [PointerOp.effect]
  · have hquiet : ∀ tenant' func',
        (ops t).effect tenant' func' (.removeFile path) (.error e) = none :=
      fun _ _ => PointerOp.effect_quiet (.inr ⟨e, rfl⟩)
    obtain ⟨hg, hs₂⟩ := hs₁.step he (by rw [hv]; exact beside_refl t _) hquiet
      fun _ _ _ h => absurd h (hgc _ _)
    refine ⟨hg, ?_⟩
    cases e with
    | other => exact hs₂.2
    | notFound =>
      refine ⟨.error .notFound, s₁.trace, by rw [htr], ?_⟩
      rw [register_cons, hquiet, Option.getD_none]
      -- the file is absent, so the register has no value
      have hholds := hs₁.1.holds tenant func path hp
      cases hreg : register ops tenant func s₁.trace with
      | none => rfl
      | some digest =>
        rw [hreg] at hholds
        obtain ⟨m, hm⟩ := hholds
        rw [hn rfl] at hm
        cases hm

end remove

section read
variable {tenant func : Str}

/-- `res` is what the register held when `t` read the pointer, unless the read was faulted. -/
def ReadAt (A : τ → Choice → Prop) (ops : τ → PointerOp W) (t : τ) (tenant func : Str)
    (path : PathBuf) (res : Except Error (Option Str)) (trace : Trace τ FsCall FsRes) : Prop :=
  ∃ answer before, (t, ⟨.readToString path, answer⟩) :: before <:+ trace ∧
    (res = .ok (register ops tenant func before) ∨
      ∃ e ch, res = .error (.io e) ∧ A t ch ∧ ch.fault = true)

theorem sat_readPointer (ht : ops t = .read tenant func) {path : PathBuf}
    (hp : pointerPath tenant func = some path) (hs : RegisterInv ops s) :
    Sat (registerThread A ops t) (fun r s => ReadAt A ops t tenant func path r s.trace)
      (readPointer tenant func).run s := by
  unfold readPointer
  rw [hp]
  refine Sat.bind (Sat.perform (RegisterInv ops) (fun _ _ _ hr => hr.inv) hs
    fun s₁ r s₂ hs₁ he => ?_)
  obtain ⟨⟨ch, ha, hx⟩, htr⟩ := id he
  refine ⟨register_idle hs₁ he ?_ (fun _ _ => PointerOp.effect_quiet (.inl rfl))
    fun _ _ _ h => by simp [ht] at h, ?_⟩
  · rw [exec_readOnly rfl hx]
    exact beside_refl t _
  have hholds := hs₁.holds tenant func path hp
  have hread : ∀ res, (res = .ok (register ops tenant func s₁.trace) ∨
      ∃ e ch, res = .error (.io e) ∧ A t ch ∧ ch.fault = true) →
      ReadAt A ops t tenant func path res s₂.trace :=
    fun res h => ⟨r, s₁.trace, by rw [htr], h⟩
  obtain ⟨(str : Str), m, rfl, hg⟩ | ⟨e, rfl, hf, hn⟩ := exec_readToString hx
  · -- the file is there: it holds the register's digest
    cases hreg : register ops tenant func s₁.trace with
    | none =>
      rw [hreg] at hholds
      rw [show s₁.state.tree.get path = none from hholds] at hg
      cases hg
    | some digest =>
      rw [hreg] at hholds
      obtain ⟨m', hm⟩ := hholds
      rw [hm, Option.some.injEq, Node.file.injEq, Bytes.ofStr_inj] at hg
      obtain ⟨rfl, -⟩ := hg
      obtain ⟨q, hq, heff⟩ := register_eq_some hreg
      have hd := hs₁.digests q hq tenant func _ heff
      show Sat _ _ (if (!isValidDigest (Str.trim digest)) = true then _ else _) s₂
      rw [trim_digest hd, if_neg (by simp [hd])]
      exact hread _ (.inl (by rw [hreg]))
  · cases hreg : register ops tenant func s₁.trace with
    | none =>
      rw [hreg] at hholds
      cases e with
      | notFound => exact hread _ (.inl (by rw [hreg]))
      | other =>
        refine hread _ (.inr ⟨_, ch, rfl, ha, ?_⟩)
        by_contra hfault
        have hmiss := exec_readToString_missing hx (by simpa using hfault) hholds
          (clear_of_absent hp (hs₁.clear tenant func path hp) hholds)
        cases hmiss
    | some digest =>
      rw [hreg] at hholds
      obtain ⟨m, hm⟩ := hholds
      have hfault := hf.resolve_right fun h => h digest m hm
      cases e with
      | notFound =>
        rw [hn rfl] at hm
        cases hm
      | other => exact hread _ (.inr ⟨_, ch, rfl, ha, hfault⟩)

end read

section gc
variable {engine : W.Engine} {grace : Nat}

theorem register_collector (ht : ops t = .gc engine grace) (referenced : List Str)
    (tenantDirs : List PathBuf) :
    Collector Traced.state (registerThread A ops t) t (A t) grace
      (GcTarget W engine referenced tenantDirs) (fun _ => RegisterInv ops) (fun _ _ => True)
      (fun _ _ => True) where
  exec _ he := he.1
  stable _ _ _ _ _ hr := hr.inv
  same {n c r s s'} hc hs he hv := by
    obtain ⟨⟨ch, -, hx⟩, -⟩ := id he
    have hg : (registerThread A ops t).guar c s s' := by
      refine register_idle hs he (by rw [hv]; exact beside_refl t _)
        (fun _ _ => PointerOp.effect_quiet hc) fun _ _ p _ hp => ?_
      cases hp
      obtain h | ⟨e, h⟩ := hc
      · cases h
      · cases h
    exact ⟨hg, hg.1⟩
  old _ _ _ _ := trivial
  oldStable _ _ _ _ _ := trivial
  remove {n s p b m r s'} hs _ htarget hp he hv := by
    have hne : p ≠ [] := by
      rintro rfl
      cases hp
    have hg : (registerThread A ops t).guar (.removeFile p) s s' := by
      refine register_idle hs he ?_ (fun _ _ => by rw [ht]; rfl) fun _ _ q _ hq => ?_
      · rw [hv]
        exact beside_del hne fun tenant func hptr => absurd hptr (htarget.not_pointer tenant func)
      · cases hq
        exact htarget.not_pointer
    exact ⟨hg, hg.1⟩
  handledStable _ _ _ _ _ _ := trivial
  handledKept _ := trivial
  absent _ _ := trivial
  young _ _ _ _ := trivial

end gc

/-! ## The system -/

/-- What has come of the operation of `t` when it returns `r`. -/
def RegisterPost (A : τ → Choice → Prop) (ops : τ → PointerOp W) (t : τ)
    (r : Except Error PointerRes) (s : RegisterState τ) : Prop :=
  match ops t with
  | .write tenant func _ =>
    match r with
    | .ok _ => ∃ path tmp, pointerPath tenant func = some path ∧
        ⟨.rename tmp path, .ok ()⟩ ∈ s.trace.of t
    | .error _ => NoEffect ops t s
  | .remove tenant func =>
    (∀ path res, pointerPath tenant func = some path → r = .ok res →
      RemovedAt ops t tenant func path s.trace) ∧
    (pointerPath tenant func = none ∨ (∃ e, r = .error e) → NoEffect ops t s)
  | .read tenant func => ∀ path, pointerPath tenant func = some path →
      ∃ res, r = res.map .digest ∧ ReadAt A ops t tenant func path res s.trace
  | .gc _ _ => True

theorem NoEffect.stable (h : NoEffect ops t s) (hr : RegisterRely ops t s s') : NoEffect ops t s' := by
  unfold NoEffect
  rw [hr.calls]
  exact h

theorem RegisterPost.stable (r : Except Error PointerRes) :
    (registerThread A ops t).Stable none (RegisterPost A ops t r) := by
  intro s s' hs hr
  unfold RegisterPost at hs ⊢
  cases ht : ops t with
  | write tenant func digest =>
    rw [ht] at hs
    cases r with
    | ok _ =>
      show ∃ path tmp, _
      rw [hr.calls]
      exact hs
    | error _ => exact NoEffect.stable hs hr
  | remove tenant func =>
    rw [ht] at hs
    refine ⟨fun path res hp hr' => ?_, fun h => (hs.2 h).stable hr⟩
    obtain ⟨answer, before, hpre, h⟩ := hs.1 path res hp hr'
    exact ⟨answer, before, hpre.trans hr.trace, h⟩
  | read tenant func =>
    rw [ht] at hs
    intro path hp
    obtain ⟨res, hres, answer, before, hpre, h⟩ := hs path hp
    exact ⟨res, hres, answer, before, hpre.trans hr.trace, h⟩
  | gc => trivial

theorem sat_pointerOp (hs : Idle ops t s) :
    Sat (registerThread A ops t) (RegisterPost A ops t) (ops t).run.run s := by
  unfold RegisterPost
  cases ht : ops t with
  | write tenant func digest =>
    refine Sat.bindE ((sat_writePointer ht hs).mono fun r s hr => ?_)
    cases r with
    | ok _ => exact hr
    | error _ => exact hr
  | remove tenant func =>
    cases hp : pointerPath tenant func with
    | none =>
      have hremove : removePointer tenant func = pure () := by
        unfold removePointer
        rw [hp]
      show Sat _ _ (removePointer tenant func >>= _).run s
      rw [hremove]
      refine ⟨fun path _ hpath => ?_, fun _ => hs.2⟩
      rw [hp] at hpath
      cases hpath
    | some path =>
      refine Sat.bindE ((sat_removePointer ht hp hs).mono fun r s hr => ?_)
      cases r with
      | ok _ =>
        refine ⟨fun path' _ hpath _ => ?_, fun h => ?_⟩
        · rw [hp] at hpath
          cases hpath
          exact hr
        · rw [hp] at h
          obtain h | ⟨e, h⟩ := h <;> cases h
      | error _ => exact ⟨fun _ _ _ h => (by cases h), fun _ => hr⟩
  | read tenant func =>
    cases hp : pointerPath tenant func with
    | none =>
      have hread : readPointer tenant func = pure none := by
        unfold readPointer
        rw [hp]
      show Sat _ _ (readPointer tenant func >>= _).run s
      rw [hread]
      intro path hpath
      rw [hp] at hpath
      cases hpath
    | some path =>
      refine Sat.bindE ((sat_readPointer ht hp hs.1).mono fun r s hr => ?_)
      cases r with
      | ok d =>
        intro path' hpath
        rw [hp] at hpath
        cases hpath
        exact ⟨.ok d, rfl, hr⟩
      | error e =>
        intro path' hpath
        rw [hp] at hpath
        cases hpath
        exact ⟨.error e, rfl, hr⟩
  | gc engine grace =>
    refine Sat.bindE ((Collector.sat_gcUnreferencedBlobs (register_collector ht) hs.1).mono fun r s _ => ?_)
    cases r <;> trivial

/-- The files, with calls whose choices are in `A`. -/
def registerSystem (A : τ → Choice → Prop) : System τ (RegisterState τ) FsCall FsRes :=
  (System.closed fun t => Exec (A t) t).traced

abbrev RegisterConfig (τ : Type) :=
  Config τ (RegisterState τ) FsCall FsRes fun _ => Except Error PointerRes

def registerStart (ops : τ → PointerOp W) (tree : DirTree) : RegisterConfig τ :=
  ⟨⟨.ofTree tree, []⟩, fun t => (ops t).run.run⟩

theorem register_compatible (A : τ → Choice → Prop) (ops : τ → PointerOp W) :
    Compatible (registerSystem A) (registerThread A ops) (RegisterInv ops) where
  exec := fun _ _ _ _ _ _ _ _ hx => hx
  guar := fun _ _ u _ _ _ _ hne _ _ _ hg => hg.2 u hne.symm
  env := fun _ _ _ _ _ h => h.1.elim
  inv := fun _ _ _ _ _ hg => hg.1
  envInv := fun _ _ _ _ h => h.1.elim

end

/-- A modules directory in which no function has been uploaded. -/
structure WithoutPointers (tree : DirTree) : Prop where
  absent : ∀ tenant func path, pointerPath tenant func = some path → tree.get path = none
  clear : ∀ tenant func path, pointerPath tenant func = some path →
    tree.underFile path.parent = false

theorem withoutPointers_empty : WithoutPointers ⟨∅⟩ := by
  refine ⟨fun tenant func path hp => ?_, fun tenant func path hp => ?_⟩
  · obtain ⟨-, -, rfl⟩ := pointerPath_eq_some.1 hp
    simp [DirTree.get]
  · rw [DirTree.underFile, List.any_eq_false]
    intro q _
    by_cases hq : q = [] <;> simp [DirTree.get, hq, Node.isFile]

/-- What has happened in a configuration is what happens to independent atomic registers. -/
structure AtomicRegisters {W : Wasm} {τ : Type} [DecidableEq τ] (A : τ → Choice → Prop)
    (ops : τ → PointerOp W) (C : RegisterConfig τ) : Prop where
  /-- A read of a valid pair returns the value of its register at the time of the read; it fails
  only by a fault of its own. -/
  read : ∀ t tenant func path res, ops t = .read tenant func →
    pointerPath tenant func = some path → C.prog t = .ret res →
    ∃ answer before, (t, ⟨.readToString path, answer⟩) :: before <:+ C.shared.trace ∧
      (res = .ok (.digest (register ops tenant func before)) ∨
        ∃ e ch, res = .error (.io e) ∧ A t ch ∧ ch.fault = true)
  /-- At any time, that is a complete digest passed to a write of the same pair. -/
  value : ∀ tenant func before digest, before <:+ C.shared.trace →
    register ops tenant func before = some digest →
    isValidDigest digest = true ∧ ∃ t tmp path, ops t = .write tenant func digest ∧
      (t, ⟨.rename tmp path, .ok ()⟩) ∈ before
  /-- A write that has failed has set no register, one that has succeeded has set its own. -/
  failed : ∀ t tenant func digest e, ops t = .write tenant func digest →
    C.prog t = .ret (.error e) → NoEffect ops t C.shared
  succeeded : ∀ t tenant func digest res, ops t = .write tenant func digest →
    C.prog t = .ret (.ok res) → ∃ path tmp, pointerPath tenant func = some path ∧
      (t, ⟨.rename tmp path, .ok ()⟩) ∈ C.shared.trace
  /-- A remove that has succeeded has left the register of its pair without a value, at a call of its
  own: the file has been removed, or found absent. One that has failed, or whose pair is not valid,
  has set no register. -/
  removed : ∀ t tenant func path res, ops t = .remove tenant func →
    pointerPath tenant func = some path → C.prog t = .ret (.ok res) →
    ∃ answer before, (t, ⟨.removeFile path, answer⟩) :: before <:+ C.shared.trace ∧
      register ops tenant func ((t, ⟨.removeFile path, answer⟩) :: before) = none
  kept : ∀ t tenant func res, ops t = .remove tenant func → C.prog t = .ret res →
    (pointerPath tenant func = none ∨ ∃ e, res = .error e) → NoEffect ops t C.shared
  /-- The files are what the registers say, and no collection has removed one of them. -/
  files : ∀ tenant func path, pointerPath tenant func = some path →
    PointerHolds path C.shared.state (register ops tenant func C.shared.trace)
  spared : ∀ t engine grace p, ops t = .gc engine grace →
    (t, ⟨.removeFile p, .ok ()⟩) ∈ C.shared.trace →
    ∀ tenant func, pointerPath tenant func ≠ some p

theorem pointer_register {W : Wasm} {τ : Type} [DecidableEq τ] (A : τ → Choice → Prop)
    (ops : τ → PointerOp W) {tree : DirTree} (hstart : WithoutPointers tree) {C : RegisterConfig τ}
    (hr : Reach (registerSystem A) (registerStart ops tree) C) : AtomicRegisters A ops C := by
  have hinv₀ : RegisterInv ops (registerStart ops tree).shared :=
    ⟨hstart.absent, hstart.clear, fun _ hq => absurd hq List.not_mem_nil,
      fun _ hq => absurd hq List.not_mem_nil⟩
  have hidle : ∀ t, Idle ops t (registerStart ops tree).shared :=
    fun t => ⟨hinv₀, fun _ hq => absurd hq List.not_mem_nil⟩
  have hsat := hr.sat (register_compatible A ops) (fun t r => RegisterPost.stable r) hinv₀
    fun t => sat_pointerOp (hidle t)
  have hpost : ∀ t res, C.prog t = .ret res → RegisterPost A ops t res C.shared := by
    intro t res h
    have := hsat.2 t
    rwa [h] at this
  have hmem : ∀ {t q}, q ∈ C.shared.trace.of t → (t, q) ∈ C.shared.trace := by
    intro t q hq
    obtain ⟨⟨t', q'⟩, hm, he⟩ := List.mem_filterMap.1 hq
    simp only [Option.ite_none_right_eq_some, Option.some.injEq] at he
    obtain ⟨rfl, rfl⟩ := he
    exact hm
  refine ⟨fun t tenant func path res ht hp hret => ?_, fun tenant func before digest hpre hreg => ?_,
    fun t tenant func digest e ht hret => ?_, fun t tenant func digest res ht hret => ?_,
    fun t tenant func path res ht hp hret => ?_, fun t tenant func res ht hret hno => ?_,
    hsat.1.holds, fun t engine grace p ht hq => hsat.1.spared _ hq engine grace p ht rfl⟩
  · have h := hpost t res hret
    unfold RegisterPost at h
    rw [ht] at h
    obtain ⟨r, rfl, answer, before, hpre, h⟩ := h path hp
    refine ⟨answer, before, hpre, ?_⟩
    obtain rfl | ⟨e, ch, rfl, ha, hf⟩ := h
    · exact .inl rfl
    · exact .inr ⟨e, ch, rfl, ha, hf⟩
  · obtain ⟨⟨t, c, r⟩, hq, he⟩ := register_eq_some hreg
    obtain ⟨ht, tmp, path, hc⟩ := PointerOp.effect_digest he
    refine ⟨hsat.1.digests _ (hpre.subset hq) _ _ _ he, t, tmp, path, ht, ?_⟩
    rwa [show (⟨c, r⟩ : (c : FsCall) × FsRes c) = _ from hc] at hq
  · have h := hpost t _ hret
    unfold RegisterPost at h
    rw [ht] at h
    exact h
  · have h := hpost t _ hret
    unfold RegisterPost at h
    rw [ht] at h
    obtain ⟨path, tmp, hp, hm⟩ := h
    exact ⟨path, tmp, hp, hmem hm⟩
  · have h := hpost t _ hret
    unfold RegisterPost at h
    rw [ht] at h
    exact h.1 path res hp rfl
  · have h := hpost t _ hret
    unfold RegisterPost at h
    rw [ht] at h
    exact h.2 hno

/-- `b` is written after `a`, but its writer crashes before the rename; then `a` is read and
removed. -/
def crashedWrite : Fin 5 → PointerOp Wasm.plain
  | 0 => .write ['t'] ['f'] (List.replicate 64 'a')
  | 1 => .write ['t'] ['f'] (List.replicate 64 'b')
  | 2 => .read ['t'] ['f']
  | 3 => .remove ['t'] ['f']
  | 4 => .read ['t'] ['f']

def crashedWriteRun : List (Fin 5 × Choice) :=
  let step := Choice.ofNow 0
  [(0, step), (0, .ofSuffix 0 ['x']), (0, step), (0, step), (0, step), (0, step),
    (1, step), (1, .ofSuffix 0 ['y']), (1, step), (1, step), (2, step), (3, step), (4, step)]

def hasReadA (C : RegisterConfig (Fin 5)) : Bool :=
  match C.prog 2, C.prog 3, C.prog 4 with
  | .ret (.ok res), .ret (.ok _), .ret (.ok res') =>
    res == .digest (some (List.replicate 64 'a')) && res' == .digest none
  | _, _, _ => false

theorem pointer_register_crashed : ∃ C : RegisterConfig (Fin 5),
    hasReadA C = true ∧ AtomicRegisters (fun _ _ => True) crashedWrite C := by
  have hrun : ((registerStart crashedWrite ⟨∅⟩).play (tracing (execIf fun _ => True))
      crashedWriteRun).any hasReadA = true := by
    decide +kernel
  rw [Option.any_eq_true] at hrun
  obtain ⟨C, hplay, hC⟩ := hrun
  exact ⟨C, hC, pointer_register _ _ withoutPointers_empty (play_reach
    (tracing_sound fun x pend t s c r s' hx => execIf_sound x pend t s c r s' hx) hplay)⟩

end Warpline
