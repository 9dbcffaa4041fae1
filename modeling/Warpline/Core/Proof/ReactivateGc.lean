import Warpline.Conc.Trace
import Warpline.Core.Proof.GcSteps
import Warpline.Core.Proof.StageSteps
import Warpline.Fs.System

/-!
# Re-activating under a concurrent garbage collection

One `gc` run against a caller that activates a digest staged earlier: by `activate_digest`, or by
the rollback `active` is documented for. Neither renews the blob's time, and `gc` knows only the
pointers of its first pass.

`reactivated_survives_gc`: the blob is there when the activation has succeeded, provided `gc` is
not about to remove it when the digest is `chosen` and does not find it old later.
`reactivated_lost_to_gc` is a rollback where it does.

The digest is settled by one call of the caller, the stat of the blob or the read of the pointer,
and the history says whether that call has been made: `chosenIn`.
-/

set_option autoImplicit false

namespace Warpline

open Conc Fs

inductive Reactivation
  | digest (digest : Str)
  | rollback (other : Staged)

/-- The component that is activated again in the end, if there is one. -/
def reactivate (tenant func : Str) : Reactivation → ExceptT PublishError FsM (Option Staged)
  | .digest digest => do
    activateDigest tenant func digest
    pure (some ⟨digest⟩)
  | .rollback other => do
    match ← active tenant func with
    | none => pure none
    | some remembered =>
      -- whatever becomes of the other component
      let _ ← (liftM (activate tenant func other).run :
        ExceptT PublishError FsM (Except PublishError Unit))
      activate tenant func remembered
      pure (some remembered)

/-- The digest a call of the caller settles: the blob it has found, or what the pointer held. -/
def chosen (tenant func : Str) : Reactivation → (c : FsCall) → FsRes c → Option Str
  | .digest digest, .metadata p, .ok m =>
    if p = wasmPath digest ∧ m.isDir = false then some digest else none
  | .rollback _, .readToString p, .ok contents =>
    if pointerPath tenant func = some p then some (Str.trim contents) else none
  | _, _, _ => none

abbrev ReactivateState := Traced Party (State Party) FsCall FsRes

def chosenIn (tenant func : Str) (act : Reactivation) (s : ReactivateState) : Option Str :=
  first (chosen tenant func act) (s.trace.of .publisher)

/-- The blob of the chosen digest is there and `gc` is not about to remove it; from then on `gc`
does not find it old. -/
def notCollected (tenant func : Str) (act : Reactivation) (grace : Nat) :
    (Party → Option FsCall) → Party → ReactivateState → (c : FsCall) → FsRes c → Bool
  | pend, .publisher, s, c, r =>
    match chosen tenant func act c r with
    | some digest => (s.state.tree.get (wasmPath digest)).any Node.isFile &&
        pend .gc != some (.removeFile (wasmPath digest))
    | none => true
  | _, .gc, s, .metadata p, .ok m =>
    match chosenIn tenant func act s with
    | some digest => p != wasmPath digest || decide (m.elapsed < grace)
    | none => true
  | _, .gc, _, _, _ => true

/-! ## The two settings -/

section
variable (tenant func : Str) (act : Reactivation) (grace : Nat)

/-- Calls of `me`, recorded, that meet the condition whatever the other is about to do. -/
def reactivateExec (me : Party) (s : ReactivateState) (c : FsCall) (r : FsRes c)
    (s' : ReactivateState) : Prop :=
  Exec (fun _ => True) me s.state c r s'.state ∧ s'.trace = (me, ⟨c, r⟩) :: s.trace ∧
    ∃ pend, notCollected tenant func act grace pend me s c r = true

/-- `p` is not the blob of the chosen digest. -/
def Spared (p : PathBuf) (s : ReactivateState) : Prop :=
  ∀ digest, chosenIn tenant func act s = some digest → p ≠ wasmPath digest

/-- `gc` chooses no digest, removes files only, and never the chosen blob. -/
structure Sparing (s s' : ReactivateState) : Prop where
  chosen : chosenIn tenant func act s' = chosenIn tenant func act s
  temps : s'.state.temps = s.state.temps
  files : ∀ q b m, s'.state.tree.get q = some (.file b m) → s.state.tree.get q = some (.file b m)
  blob : ∀ digest, chosenIn tenant func act s = some digest → HasBlob digest s.state →
    HasBlob digest s'.state

def reactivateThread : Party → Thread ReactivateState FsCall FsRes
  | .gc =>
    { exec := reactivateExec tenant func act grace .gc
      rely := fun c s s' => ∀ p, c = some (.removeFile p) → Spared tenant func act p s →
        Spared tenant func act p s'
      guar := fun _ => Sparing tenant func act }
  | .publisher =>
    { exec := reactivateExec tenant func act grace .publisher
      rely := fun _ => Sparing tenant func act
      guar := fun _ _ _ => True }

end

variable {tenant func : Str} {act : Reactivation} {grace : Nat} {digest : Str}

theorem chosenIn_gc {s s' : ReactivateState} {c : FsCall} {r : FsRes c}
    (h : s'.trace = (.gc, ⟨c, r⟩) :: s.trace) :
    chosenIn tenant func act s' = chosenIn tenant func act s := by
  unfold chosenIn
  rw [h, Trace.of_cons_ne (by decide)]

theorem chosenIn_publisher {s s' : ReactivateState} {c : FsCall} {r : FsRes c}
    (h : s'.trace = (.publisher, ⟨c, r⟩) :: s.trace) :
    chosenIn tenant func act s' = (chosenIn tenant func act s).or (chosen tenant func act c r) := by
  unfold chosenIn
  rw [h, Trace.of_cons_self, first_cons]

theorem sparing_same {s s' : ReactivateState} {c : FsCall} {r : FsRes c}
    (h : s'.trace = (.gc, ⟨c, r⟩) :: s.trace) (hv : s'.state = s.state) :
    Sparing tenant func act s s' :=
  ⟨chosenIn_gc h, by rw [hv], by simp [hv], by simp [hv]⟩

theorem reactivate_collector (Target : PathBuf → Prop) :
    Collector Traced.state (reactivateThread tenant func act grace .gc) .gc (fun _ => True) grace
      Target (fun _ _ => True) (Spared tenant func act) (fun _ _ => True) where
  exec _ h := h.1
  stable _ _ _ _ h _ := h
  same _ _ he hv := ⟨sparing_same he.2.1 hv, trivial⟩
  old {n s p m s'} _ _ he hm d hd := by
    obtain ⟨-, htr, pend, ha⟩ := he
    rw [chosenIn_gc htr] at hd
    simp only [notCollected, hd, Bool.or_eq_true, bne_iff_ne, decide_eq_true_eq] at ha
    exact ha.resolve_right (Nat.not_lt.2 hm)
  oldStable p s s' h hr := hr p rfl h
  remove {n s p b m r s'} _ hsp _ hp he hv := by
    have hne : p ≠ [] := by
      rintro rfl
      cases hp
    refine ⟨⟨chosenIn_gc he.2.1, by rw [hv]; rfl, fun q b' m' hb => ?_, fun d hd => ?_⟩, trivial⟩
    · by_cases h : q = p
      · rw [h, hv, State.setTree_tree, DirTree.get_del _ hne] at hb
        cases hb
      · rwa [hv, State.setTree_tree, DirTree.get_del_ne _ h] at hb
    · rintro ⟨b', m', hb⟩
      refine ⟨b', m', ?_⟩
      rwa [hv, State.setTree_tree, DirTree.get_del_ne _ (hsp d hd).symm]
  handledStable _ _ _ _ _ _ := trivial
  handledKept _ := trivial
  absent _ _ := trivial
  young _ _ _ _ := trivial

/-! ## The caller -/

/-- The digest is chosen and its blob is there. -/
structure Chosen (tenant func : Str) (act : Reactivation) (digest : Str) (s : ReactivateState) :
    Prop where
  chosen : chosenIn tenant func act s = some digest
  blob : HasBlob digest s.state

theorem Chosen.stable (c : Option FsCall) :
    (reactivateThread tenant func act grace .publisher).Stable c
      (Chosen tenant func act digest) :=
  fun _ _ h hr => ⟨hr.chosen.trans h.chosen, hr.blob digest h.chosen h.blob⟩

/-- A step of the caller that keeps the blob. -/
theorem Chosen.step {s s' : ReactivateState} {c : FsCall} {r : FsRes c}
    (h : Chosen tenant func act digest s)
    (he : reactivateExec tenant func act grace .publisher s c r s')
    (hb : ∀ b m, s.state.tree.get (wasmPath digest) = some (.file b m) →
      s'.state.tree.get (wasmPath digest) = some (.file b m)) :
    Chosen tenant func act digest s' := by
  refine ⟨?_, ?_⟩
  · rw [chosenIn_publisher he.2.1, h.chosen]
    rfl
  · obtain ⟨b, m, hf⟩ := h.blob
    exact ⟨b, m, hb b m hf⟩

theorem reactivate_actor (hd : isValidDigest digest = true) :
    Actor Traced.state (reactivateThread tenant func act grace .publisher) .publisher
      (fun _ => True) (Chosen tenant func act digest) where
  exec _ h := h.1
  stable c := Chosen.stable (some c)
  temps _ hr ht := ⟨by rw [hr.temps]; exact ht, hr.files _⟩
  same _ h he hv := ⟨trivial, h.step he (by simp [hv])⟩
  quiet _ h he hq :=
    ⟨trivial, h.step he fun _ _ => hq.get_file (wasmPath_not_temp hd)⟩
  cleanup {p r s s'} h ht he hv := by
    have hne : wasmPath digest ≠ p := fun heq =>
      wasmPath_not_temp hd (heq ▸ s.state.temp_named p _ ht)
    refine ⟨trivial, h.step he fun b m hb => ?_⟩
    rwa [hv, State.setTree_tree, DirTree.get_del_ne _ hne]

/-- Writing the pointer leaves the blob alone. -/
theorem sat_activate_chosen {staged : Staged} {s : ReactivateState}
    (hd : isValidDigest digest = true) (hs : Chosen tenant func act digest s) :
    Sat (reactivateThread tenant func act grace .publisher)
      (fun _ => Chosen tenant func act digest) (activate tenant func staged).run s := by
  refine ((reactivate_actor hd).sat_activate (S := Chosen tenant func act digest) hs
    (fun {path s s' tmp m} hp _ hs h => ⟨trivial, hs.step h.exec fun b m' hb => ?_⟩)).mono
    fun r s hr => ?_
  · have hne : wasmPath digest ≠ tmp := fun heq =>
      wasmPath_not_temp hd (heq ▸ s.state.temp_named tmp _ h.mine)
    rw [h.view_eq, State.renamed, State.setTree_tree,
      DirTree.get_put_ne _ _ (wasmPath_ne_pointer hd hp), DirTree.get_del_ne _ hne]
    exact hb
  · cases r with
    | ok _ => exact hr
    | error _ => exact hr.1

/-- The call that settles the digest. -/
theorem chosen_of_call {s s' : ReactivateState} {c : FsCall} {r : FsRes c}
    (hs : chosenIn tenant func act s = none) (hc : c.readOnly = true)
    (hd : chosen tenant func act c r = some digest)
    (he : reactivateExec tenant func act grace .publisher s c r s') :
    Chosen tenant func act digest s' := by
  obtain ⟨⟨ch, -, hx⟩, htr, pend, ha⟩ := he
  refine ⟨?_, ?_⟩
  · rw [chosenIn_publisher htr, hs, hd]
    rfl
  · simp only [notCollected, hd, Bool.and_eq_true] at ha
    rw [exec_readOnly hc hx]
    cases hg : s.state.tree.get (wasmPath digest) with
    | none => simp [hg] at ha
    | some n => cases n with
      | dir => simp [hg, Node.isFile] at ha
      | file b m => exact ⟨b, m, hg⟩

theorem chosenIn_none_stable (c : Option FsCall) :
    (reactivateThread tenant func act grace .publisher).Stable c
      fun s => chosenIn tenant func act s = none :=
  fun _ _ h hr => hr.chosen.trans h

/-- Where `activate_digest` returns, the blob it checked is there. -/
theorem sat_activateDigest {s : ReactivateState}
    (hs : chosenIn tenant func (.digest digest) s = none) :
    Sat (reactivateThread tenant func (.digest digest) grace .publisher)
      (fun r s => r = .ok () → Chosen tenant func (.digest digest) digest s)
      (activateDigest tenant func digest).run s := by
  unfold activateDigest
  split
  · exact nofun
  split
  · exact nofun
  rename_i hd
  have hd : isValidDigest digest = true := by simpa using hd
  rw [wasmExists, if_pos hd]
  refine Sat.liftE (Sat.bind (Sat.perform _ (chosenIn_none_stable _) hs
    fun s₁ r s₂ hs₁ he => ⟨trivial, ?_⟩))
  cases r with
  | error e => exact nofun
  | ok m =>
    cases hm : m.isDir with
    | true =>
      simp only [hm]
      exact nofun
    | false =>
      have hch : Chosen tenant func (.digest digest) digest s₂ :=
        chosen_of_call hs₁ rfl (by simp [chosen, hm]) he
      simp only [hm]
      exact (sat_activate_chosen hd hch).mono fun _ _ h _ => h

/-- What `active` remembers is chosen. -/
theorem sat_active {other : Staged} {s : ReactivateState}
    (hs : chosenIn tenant func (.rollback other) s = none) :
    Sat (reactivateThread tenant func (.rollback other) grace .publisher)
      (fun r s => ∀ staged, r = .ok (some staged) → isValidDigest staged.digest = true ∧
        Chosen tenant func (.rollback other) staged.digest s) (active tenant func).run s := by
  unfold active readPointer
  split
  · exact nofun
  refine Sat.bindE (Sat.mapErr ?_)
  split
  · exact nofun
  rename_i path hpath
  refine Sat.bind (Sat.perform _ (chosenIn_none_stable _) hs fun s₁ r s₂ hs₁ he => ⟨trivial, ?_⟩)
  rcases r with (_ | _) | contents
  · exact nofun
  · exact nofun
  have hch : Chosen tenant func (.rollback other) (Str.trim contents) s₂ :=
    chosen_of_call hs₁ rfl (by simp [chosen, hpath]) he
  show Sat _ _ (if (!isValidDigest (Str.trim contents)) = true then _ else _) s₂
  split
  · exact nofun
  rename_i hd
  rintro staged heq
  cases heq
  exact ⟨by simpa using hd, hch⟩

/-- Where the rollback returns a component, its blob is there. -/
theorem sat_rollback {other : Staged} {s : ReactivateState}
    (hs : chosenIn tenant func (.rollback other) s = none) :
    Sat (reactivateThread tenant func (.rollback other) grace .publisher)
      (fun r s => ∀ staged, r = .ok (some staged) →
        Chosen tenant func (.rollback other) staged.digest s)
      (reactivate tenant func (.rollback other)).run s := by
  refine Sat.bindE ((sat_active hs).mono fun r s₁ hr => ?_)
  rcases r with e | _ | remembered
  · exact nofun
  · exact nofun
  obtain ⟨hd, hs₁⟩ := hr remembered rfl
  -- the other component, then the remembered one
  refine Sat.liftE ((sat_activate_chosen hd hs₁).mono fun _ s₂ hs₂ => ?_)
  refine Sat.bindE ((sat_activate_chosen hd hs₂).mono fun r s₃ hs₃ => ?_)
  cases r with
  | error e => exact nofun
  | ok _ =>
    rintro staged heq
    cases heq
    exact hs₃

theorem sat_reactivate {s : ReactivateState} (hs : chosenIn tenant func act s = none) :
    Sat (reactivateThread tenant func act grace .publisher)
      (fun r s => ∀ staged, r = .ok (some staged) → Chosen tenant func act staged.digest s)
      (reactivate tenant func act).run s := by
  cases act with
  | digest digest =>
    refine Sat.bindE ((sat_activateDigest hs).mono fun r s hr => ?_)
    cases r with
    | error e => exact nofun
    | ok _ =>
      rintro staged heq
      cases heq
      exact hr rfl
  | rollback other => exact sat_rollback hs

/-! ## Both together -/

abbrev ReactivateResult : Party → Type
  | .gc => Except Error Nat
  | .publisher => Except PublishError (Option Staged)

def reactivatePrograms (W : Wasm) (engine : W.Engine) (grace : Nat) (tenant func : Str)
    (act : Reactivation) : ∀ t, FsM (ReactivateResult t)
  | .gc => (gc W engine grace).run
  | .publisher => (reactivate tenant func act).run

/-- The two programs from the files `s₀`, nothing called yet. -/
def reactivateStart (W : Wasm) (engine : W.Engine) (grace : Nat) (tenant func : Str)
    (act : Reactivation) (s₀ : State Party) :
    Config Party ReactivateState FsCall FsRes ReactivateResult :=
  ⟨⟨s₀, []⟩, reactivatePrograms W engine grace tenant func act⟩

theorem reactivate_compatible (tenant func : Str) (act : Reactivation) (grace : Nat) :
    Compatible ((system fun _ => True).traced.restrict fun pend t s c r =>
        notCollected tenant func act grace pend t s c r = true)
      (reactivateThread tenant func act grace) fun _ => True where
  exec := by
    rintro pend (_ | _) s c r s' - - ⟨⟨he, htr⟩, ha⟩
    · exact ⟨he, htr, pend, ha⟩
    · exact ⟨he, htr, pend, ha⟩
  guar := by
    rintro pend (_ | _) (_ | _) s c r s' hne hc - ⟨⟨he, htr⟩, ha⟩ hg
    · exact absurd rfl hne
    · exact hg
    · -- the choice must not fall on the blob `gc` is about to remove
      intro p hpend hsp d hd
      rw [chosenIn_publisher htr] at hd
      cases hch : chosenIn tenant func act s with
      | some d' =>
        rw [hch, Option.some_or, Option.some.injEq] at hd
        exact hsp d (hd ▸ hch)
      | none =>
        rw [hch, Option.none_or] at hd
        simp only [notCollected, hd, hpend, Bool.and_eq_true, bne_iff_ne] at ha
        exact fun heq => ha.2 (by rw [heq])
    · exact absurd rfl hne
  env _ _ _ _ _ h := h.1.elim
  inv _ _ _ _ _ _ := trivial
  envInv _ _ _ _ _ := trivial

/-- **Re-activation survives a concurrent gc** that does not find the chosen blob old. -/
theorem reactivated_survives_gc (W : Wasm) (engine : W.Engine) (grace : Nat) (tenant func : Str)
    (act : Reactivation) (s₀ : State Party)
    {C : Config Party ReactivateState FsCall FsRes ReactivateResult}
    (hr : Reach ((system fun _ => True).traced.restrict fun pend t s c r =>
        notCollected tenant func act grace pend t s c r = true)
      (reactivateStart W engine grace tenant func act s₀) C)
    {staged : Staged} (hp : C.prog .publisher = .ret (.ok (some staged))) :
    HasBlob staged.digest C.shared.state := by
  have hpost := Reach.post (Q := fun t a s => match t, a with
      | .gc, _ => True
      | .publisher, r => ∀ staged, r = .ok (some staged) → Chosen tenant func act staged.digest s)
    (reactivate_compatible tenant func act grace) ?_ trivial ?_ hr hp
  · exact (hpost staged rfl).blob
  · rintro (_ | _) r s s' h hrel
    · trivial
    · exact fun staged heq => Chosen.stable none s s' (h staged heq) hrel
  · rintro (_ | _)
    · exact (Collector.sat_gcUnreferencedBlobs (fun refs dirs => reactivate_collector _)
        trivial).mono fun _ _ _ => trivial
    · exact sat_reactivate rfl

/-! ## Runs -/

/-- `(t, f)` points at `digest`, whose blob is from time `mtime`; the blob of `other` is new. -/
def rollbackState (digest other : Str) (mtime : Nat) : State Party :=
  .ofTree <| (((((⟨∅⟩ : DirTree).put wasmDir .dir).put (wasmPath digest) (.file [] mtime)).put
    (wasmPath other) (.file [] 100)).mkdirs (tenantsDir.join ['t'])).put
    ((tenantsDir.join ['t']).join ['f']) (.file (.ofStr digest) 0)

def rollbackDigest : Str := List.replicate 64 'a'
def rollbackOther : Str := List.replicate 64 'b'

def rollbackStart (mtime : Nat) : Config Party ReactivateState FsCall FsRes ReactivateResult :=
  reactivateStart Wasm.plain (0 : Nat) 10 ['t'] ['f'] (.rollback ⟨rollbackOther⟩)
    (rollbackState rollbackDigest rollbackOther mtime)

/-- Both are done, and the caller has re-activated a component. -/
def reactivateDone (C : Config Party ReactivateState FsCall FsRes ReactivateResult) : Bool :=
  match C.prog .gc, C.prog .publisher with
  | .ret _, .ret (.ok (some staged)) => staged.digest == rollbackDigest
  | _, _ => false

theorem reactivateDone_iff {C : Config Party ReactivateState FsCall FsRes ReactivateResult} :
    reactivateDone C = true ↔
      ∃ r, C.prog .gc = .ret r ∧ C.prog .publisher = .ret (.ok (some ⟨rollbackDigest⟩)) := by
  unfold reactivateDone
  constructor
  · intro h
    split at h
    · rename_i r staged hg hp
      obtain ⟨d⟩ := staged
      have hd : d = rollbackDigest := beq_iff_eq.1 h
      exact ⟨r, hg, hd ▸ hp⟩
    · cases h
  · rintro ⟨r, hg, hp⟩
    rw [hg, hp]
    exact beq_self_eq_true _

/-- `gc` reads the pointer while it names the other component, then comes to the blobs. -/
def rollbackUnderGc : List (Party × Choice) :=
  let step := Choice.ofNow 100
  let blobs := [rollbackDigest ++ ".wasm".toList, rollbackOther ++ ".wasm".toList]
  -- `active`, then the other component
  [(.publisher, step), (.publisher, step), (.publisher, .ofSuffix 100 ['a']), (.publisher, step),
    (.publisher, step), (.publisher, step), (.publisher, step),
  -- the pointers
    (.gc, .ofNames 100 [['t']]), (.gc, step), (.gc, .ofNames 100 [['f']]), (.gc, step),
  -- the remembered component
    (.publisher, step), (.publisher, .ofSuffix 100 ['b']), (.publisher, step), (.publisher, step),
    (.publisher, step), (.publisher, step),
  -- the blobs
    (.gc, .ofNames 100 [['f']]), (.gc, step), (.gc, .ofNames 100 blobs), (.gc, .ofNames 100 blobs),
    (.gc, step), (.gc, step)]

/-- With a blob younger than the grace period. -/
theorem reactivated_survives_gc_young :
    ∃ C, (rollbackStart 95).play
        (checked (tracing (execIf fun _ => True))
          (notCollected ['t'] ['f'] (.rollback ⟨rollbackOther⟩) 10)) rollbackUnderGc = some C ∧
      HasBlob rollbackDigest C.shared.state := by
  have hrun : ((rollbackStart 95).play
      (checked (tracing (execIf fun _ => True))
        (notCollected ['t'] ['f'] (.rollback ⟨rollbackOther⟩) 10)) rollbackUnderGc).any
      reactivateDone = true := by
    decide +kernel
  rw [Option.any_eq_true] at hrun
  obtain ⟨C, hplay, hC⟩ := hrun
  obtain ⟨r, -, hp⟩ := reactivateDone_iff.1 hC
  exact ⟨C, hplay, reactivated_survives_gc Wasm.plain (0 : Nat) 10 ['t'] ['f'] _ _
    (play_restrict (tracing_sound execIf_sound) hplay) hp⟩

theorem reactivated_lost_to_gc :
    ¬ ∀ (W : Wasm) (engine : W.Engine) (grace : Nat) (tenant func : Str) (act : Reactivation)
      (s₀ : State Party) (C : Config Party ReactivateState FsCall FsRes ReactivateResult) r staged,
      Reach (system fun _ => True).traced (reactivateStart W engine grace tenant func act s₀) C →
      C.prog .gc = .ret r → C.prog .publisher = .ret (.ok (some staged)) →
      HasBlob staged.digest C.shared.state := by
  intro h
  have hrun : ((rollbackStart 0).play (tracing (execIf fun _ => True))
      (rollbackUnderGc ++ [(.gc, Choice.ofNow 100)])).any (fun C => reactivateDone C &&
        (C.shared.state.tree.get (wasmPath rollbackDigest)).isNone) = true := by
    decide +kernel
  rw [Option.any_eq_true] at hrun
  obtain ⟨C, hplay, hC⟩ := hrun
  rw [Bool.and_eq_true, Option.isNone_iff_eq_none] at hC
  obtain ⟨r, hg, hp⟩ := reactivateDone_iff.1 hC.1
  obtain ⟨b, m, hb⟩ := h Wasm.plain (0 : Nat) 10 _ _ _ _ C r _
    (play_reach (tracing_sound execIf_sound) hplay) hg hp
  exact nomatch hC.2.symm.trans hb

end Warpline
