import Warpline.Core.Proof.GcSteps
import Warpline.Core.Proof.StageSteps
import Warpline.Fs.System

/-!
# Staging under a concurrent garbage collection

One `gc` run against one `stage` followed by `activate`, all within the grace period. `stage`
protects a blob that is already there by renewing its modification time, while `gc` looks at the
time and removes the file in two separate calls.

`staged_survives_gc`: the staged blob is there at the end, provided the renewal does not fall
between those two calls. `staged_lost_to_gc` is the run where it does.

The invariant is about the age of the blob: one from before the start is `Stale`, and `gc` only
ever removes the blob while it is; one written or renewed during the run is `Fresh` and stays.
-/

set_option autoImplicit false

namespace Warpline

open Conc Fs

/-- A file that was last written before `t₀`. -/
def Stale (t₀ : Nat) (p : PathBuf) (s : State Party) : Prop :=
  ∃ b m, s.tree.get p = some (.file b m) ∧ m < t₀

/-- A file that has been written since `t₀`. -/
def Fresh (t₀ : Nat) (p : PathBuf) (s : State Party) : Prop :=
  ∃ b m, s.tree.get p = some (.file b m) ∧ t₀ ≤ m

def stageActivate (W : Wasm) (engine : W.Engine) (tenant func : Str) (wasm : Bytes) :
    ExceptT PublishError FsM Staged := do
  let staged ← stage W engine wasm
  activate tenant func staged
  pure staged

/-- `stage` does not renew the blob's time while `gc` is about to remove the blob. -/
def renewedInTime (digest : Str) : (Party → Option FsCall) → Party → State Party →
    (c : FsCall) → FsRes c → Bool
  | pend, .publisher, _, .touch p, .ok _ =>
    p != wasmPath digest || pend .gc != some (.removeFile (wasmPath digest))
  | _, _, _, _, _ => true

/-! ## The two settings -/

section
variable (t₀ grace : Nat) (p : PathBuf)

/-- `gc` removes files only, and never a fresh blob. -/
def collectorGuar (s s' : State Party) : Prop :=
  s'.temps = s.temps ∧ (∀ q b m, s'.tree.get q = some (.file b m) → s.tree.get q = some (.file b m)) ∧
    (Fresh t₀ p s → Fresh t₀ p s')

def collectorThread : Thread (State Party) FsCall FsRes where
  exec := Exec (Within t₀ grace) .gc
  rely := fun c s s' => c = some (.removeFile p) → Stale t₀ p s → Stale t₀ p s'
  guar := fun _ => collectorGuar t₀ p

def publisherThread : Thread (State Party) FsCall FsRes where
  exec := Exec (Within t₀ grace) .publisher
  rely := fun _ => collectorGuar t₀ p
  guar := fun c s s' => Stale t₀ p s → Stale t₀ p s' ∨ c = .touch p

end

variable {t₀ grace : Nat} {p : PathBuf}

/-- A stale blob and a fresh one are not the same file. -/
theorem Stale.not_fresh {s : State Party} (h : Stale t₀ p s) : ¬ Fresh t₀ p s := by
  rintro ⟨b, m, hb, hm⟩
  obtain ⟨b', m', hb', hm'⟩ := h
  rw [hb, Option.some.injEq, Node.file.injEq] at hb'
  omega

theorem collector (Target : PathBuf → Prop) :
    Collector id (collectorThread t₀ grace p) .gc (Within t₀ grace) grace Target
      (fun _ _ => True) (fun q s => q = p → Stale t₀ p s) (fun _ _ => True) where
  exec _ h := h
  stable _ _ _ _ h _ := h
  same {n c r s s'} _ _ _ hv := by
    obtain rfl : s' = s := hv
    exact ⟨⟨rfl, fun _ _ _ h => h, id⟩, trivial⟩
  old {n s q m s'} _ _ he hm hq := by
    subst hq
    obtain ⟨ch, ⟨hlo, hhi⟩, he⟩ := he
    obtain rfl := exec_readOnly rfl he
    obtain ⟨node, hr, hn⟩ | ⟨e, hr, -⟩ := exec_metadata he
    · obtain rfl := Except.ok.inj hr
      cases node with
      | dir => simp only [metadataOf] at hm; omega
      | file b m => exact ⟨b, m, hn, by simp only [metadataOf] at hm; omega⟩
    · cases hr
  oldStable q s s' h hr hq := by
    subst hq
    exact hr rfl (h rfl)
  remove {n s q b m r s'} _ hold _ hq _ hv := by
    obtain rfl : s' = s.setTree (s.tree.del q) := hv
    have hne : q ≠ [] := by
      rintro rfl
      cases hq
    refine ⟨⟨rfl, fun q' b' m' hb => ?_, fun hf => ?_⟩, trivial⟩
    · by_cases h : q' = q
      · rw [h, State.setTree_tree, DirTree.get_del _ hne] at hb
        cases hb
      · rwa [State.setTree_tree, DirTree.get_del_ne _ h] at hb
    · by_cases h : p = q
      · exact absurd hf (hold h.symm).not_fresh
      · obtain ⟨b', m', hb', hm'⟩ := hf
        exact ⟨b', m', by rwa [State.setTree_tree, DirTree.get_del_ne _ h], hm'⟩
  handledStable _ _ _ _ _ _ := trivial
  handledKept _ := trivial
  absent _ _ := trivial
  young _ _ _ _ := trivial

/-! ## The publisher -/

/-- What the publisher may rely on between its calls: it is kept by `gc`, by quiet calls and by
what happens at the other paths the publisher writes. -/
structure Kept (t₀ : Nat) (p : PathBuf) (R : State Party → Prop) : Prop where
  gc : ∀ {s s'}, R s → collectorGuar t₀ p s s' → R s'
  quiet : ∀ {s s'}, R s → Quiet .publisher s s' → R s'
  other : ∀ {s s' : State Party}, R s → s'.tree.get p = s.tree.get p → R s'

theorem kept_true : Kept t₀ p fun _ => True :=
  ⟨fun _ _ => trivial, fun _ _ => trivial, fun _ _ => trivial⟩

theorem kept_fresh (hp : ¬ TempPath p) : Kept t₀ p (Fresh t₀ p) where
  gc h hg := hg.2.2 h
  quiet := fun ⟨b, m, hb, hm⟩ hq => ⟨b, m, hq.get_file hp hb, hm⟩
  other := fun ⟨b, m, hb, hm⟩ he => ⟨b, m, he.trans hb, hm⟩

/-- No file is at `p`. -/
def NoFile (p : PathBuf) (s : State Party) : Prop := ∀ b m, s.tree.get p ≠ some (.file b m)

theorem kept_noFile (hp : ¬ TempPath p) : Kept t₀ p (NoFile p) where
  gc h hg b m hb := h b m (hg.2.1 p b m hb)
  quiet {s s'} h hq b m hb := by
    obtain he | ⟨-, he⟩ := hq.get hp
    · exact h b m (he ▸ hb)
    · rw [he] at hb
      cases hb
  other h he b m hb := h b m (he ▸ hb)

theorem Stale.congr {s s' : State Party} (h : Stale t₀ p s)
    (he : s'.tree.get p = s.tree.get p) : Stale t₀ p s' := by
  obtain ⟨b, m, hb, hm⟩ := h
  exact ⟨b, m, he.trans hb, hm⟩

theorem publisher {R : State Party → Prop} (hp : ¬ TempPath p) (hR : Kept t₀ p R) :
    Actor id (publisherThread t₀ grace p) .publisher (Within t₀ grace) R where
  exec _ h := h
  stable _ _ _ h hr := hR.gc h hr
  temps _ hr ht := ⟨by rw [id, hr.1]; exact ht, fun b m => hr.2.1 _ b m⟩
  same {c r s s'} _ h _ hv := by
    obtain rfl : s' = s := hv
    exact ⟨.inl, h⟩
  quiet _ h _ hq := ⟨fun ⟨b, m, hb, hm⟩ => .inl ⟨b, m, hq.get_file hp hb, hm⟩, hR.quiet h hq⟩
  cleanup {q r s s'} h ht _ hv := by
    obtain rfl : s' = s.setTree (s.tree.del q) := hv
    have hne : p ≠ q := fun he => hp (he ▸ s.temp_named q _ ht)
    have he : (s.setTree (s.tree.del q)).tree.get p = s.tree.get p := DirTree.get_del_ne _ hne
    exact ⟨fun hst => .inl (hst.congr he), hR.other h he⟩

/-- Publishing a file at another path. -/
theorem Published.other {R : State Party → Prop} (hp : ¬ TempPath p) (hR : Kept t₀ p R)
    {A : Choice → Prop} {dest tmp : PathBuf} {bytes : Bytes} {m : Nat} {s s' : State Party}
    (hd : p ≠ dest)
    (h : Published id (publisherThread t₀ grace p) .publisher A dest bytes tmp m s s')
    (hs : R s) : (publisherThread t₀ grace p).guar (.rename tmp dest) s s' ∧ R s' := by
  have hne : p ≠ tmp := fun he => hp (he ▸ s.temp_named tmp _ h.mine)
  have he : s'.tree.get p = s.tree.get p := by
    obtain rfl : s' = s.renamed tmp dest bytes m := h.view_eq
    rw [State.renamed, State.setTree_tree, DirTree.get_put_ne _ _ hd, DirTree.get_del_ne _ hne]
  exact ⟨fun hst => .inl (hst.congr he), hR.other hs he⟩

theorem Touched.other {R : State Party → Prop} (hR : Kept t₀ p R) {A : Choice → Prop}
    {q : PathBuf} {bytes : Bytes} {m now : Nat} {s s' : State Party} (hd : p ≠ q)
    (h : Touched id (publisherThread t₀ grace p) A q bytes m now s s') (hs : R s) :
    (publisherThread t₀ grace p).guar (.touch q) s s' ∧ R s' := by
  have he : s'.tree.get p = s.tree.get p := by
    obtain rfl : s' = s.setTree (s.tree.put q (.file bytes now)) := h.view_eq
    rw [State.setTree_tree, DirTree.get_put_ne _ _ hd]
  exact ⟨fun hst => .inl (hst.congr he), hR.other hs he⟩

/-- Where the publisher returns, the blob it staged is fresh. -/
theorem sat_publisher (W : Wasm) (engine : W.Engine) (tenant func : Str) (wasm : Bytes)
    (s : State Party) :
    Sat (publisherThread t₀ grace (wasmPath (W.digest wasm)))
      (fun r s => ∀ staged, r = .ok staged → Fresh t₀ (wasmPath (W.digest wasm)) s)
      (stageActivate W engine tenant func wasm).run s := by
  have hd := W.digest_valid wasm
  have hp := wasmPath_not_temp hd
  have hne := wasmPath_ne_cwasm W engine hd hd
  refine Sat.bindE (((publisher hp kept_true).sat_stage (publisher hp (kept_noFile hp)) trivial
    (fun _ _ _ h => h.other hp kept_true hne trivial)
    (fun _ h => h.other kept_true hne trivial)
    (S := Fresh t₀ (wasmPath (W.digest wasm))) ?_ ?_ ?_).mono fun r s hr => ?_)
  · -- the blob is there and is renewed
    intro s s' b m now _ h
    refine ⟨fun _ => .inr rfl, b, now, ?_, ?_⟩
    · obtain rfl : s' = s.setTree (s.tree.put _ (.file b now)) := h.view_eq
      exact DirTree.get_put _ _ fun he => by have := h.was; rw [he] at this; cases this
    · obtain ⟨ch, ha, rfl⟩ := h.clock
      exact ha.1
  · intro s _ hn b m hb
    exact nomatch hn.symm.trans hb
  · -- the blob is not there and is written
    intro s s' tmp m hno h
    refine ⟨fun ⟨b, m, hb, _⟩ => absurd hb (hno b m), wasm, m, ?_, ?_⟩
    · obtain rfl : s' = s.renamed tmp _ wasm m := h.view_eq
      exact DirTree.get_put _ _ fun he => h.notDir (by rw [he]; rfl)
    · obtain ⟨ch, ha, rfl⟩ := h.clock
      exact ha.1
  · cases r with
    | error e => exact nofun
    | ok staged =>
    refine Sat.bindE (((publisher hp (kept_fresh hp)).sat_activate hr.1
      (fun hpath _ hs h => h.other hp (kept_fresh hp) (wasmPath_ne_pointer hd hpath) hs)).mono
      fun r s hr => ?_)
    cases r with
    | ok _ => exact fun _ _ => hr
    | error e => exact nofun

/-! ## Both together -/

abbrev StageGcResult : Party → Type
  | .gc => Except Error Nat
  | .publisher => Except PublishError Staged

/-- `gc` by one runtime, `stage` and `activate` by the same or another one. -/
def stageGcPrograms (W : Wasm) (collectorEngine engine : W.Engine) (tenant func : Str)
    (wasm : Bytes) (grace : Nat) : ∀ t, FsM (StageGcResult t)
  | .gc => (gc W collectorEngine grace).run
  | .publisher => (stageActivate W engine tenant func wasm).run

def stageGcThread (t₀ grace : Nat) (p : PathBuf) : Party → Thread (State Party) FsCall FsRes
  | .gc => collectorThread t₀ grace p
  | .publisher => publisherThread t₀ grace p

theorem stageGc_compatible (t₀ grace : Nat) {digest : Str} :
    Compatible ((system (Within t₀ grace)).restrict fun pend t s c r =>
        renewedInTime digest pend t s c r = true)
      (stageGcThread t₀ grace (wasmPath digest)) fun _ => True where
  exec := by
    rintro pend (_ | _) s c r s' - - ⟨he, -⟩ <;> exact he
  guar := by
    rintro pend (_ | _) (_ | _) s c r s' hne hc - ⟨he, ha⟩ hg
    · exact absurd rfl hne
    · exact hg
    · -- the publisher's call must leave a stale blob alone while `gc` is about to remove it
      intro hpend hst
      obtain h | rfl := hg hst
      · exact h
      obtain ⟨ch, -, he⟩ := he
      obtain ⟨b, m, rfl, -, -⟩ | ⟨e, -, rfl, -⟩ := exec_touch he
      · simp [renewedInTime, hpend] at ha
      · exact hst
    · exact absurd rfl hne
  env _ _ _ _ _ h := h.elim
  inv _ _ _ _ _ _ := trivial
  envInv _ _ _ _ _ := trivial

/-- **A staged component survives a concurrent gc** that finishes within the grace period, if its
renewal does not fall between `gc`'s look at the blob and its removal. -/
theorem staged_survives_gc (W : Wasm) (collectorEngine engine : W.Engine) (tenant func : Str)
    (wasm : Bytes) (t₀ grace : Nat) (s₀ : State Party)
    {C : Config Party (State Party) FsCall FsRes StageGcResult}
    (hr : Reach ((system (Within t₀ grace)).restrict fun pend t s c r =>
        renewedInTime (W.digest wasm) pend t s c r = true)
      ⟨s₀, stageGcPrograms W collectorEngine engine tenant func wasm grace⟩ C)
    {staged : Staged} (hp : C.prog .publisher = .ret (.ok staged)) :
    ∃ b m, C.shared.tree.get (wasmPath (W.digest wasm)) = some (.file b m) := by
  have hpost := Reach.post (Q := fun t a s => match t, a with
      | .gc, _ => True
      | .publisher, r => ∀ staged, r = .ok staged → Fresh t₀ (wasmPath (W.digest wasm)) s)
    (stageGc_compatible t₀ grace) ?_ trivial ?_ hr hp
  · obtain ⟨b, m, hb, -⟩ := hpost staged rfl
    exact ⟨b, m, hb⟩
  · rintro (_ | _) r s s' h hrel
    · trivial
    · exact fun staged hst => hrel.2.2 (h staged hst)
  · rintro (_ | _)
    · exact (Collector.sat_gcUnreferencedBlobs (fun refs dirs => collector _) trivial).mono
        fun _ _ _ => trivial
    · exact sat_publisher W engine tenant func wasm s₀

/-! ## Runs -/

/-- A registry that holds only the blob of `wasm`, last touched at time 0. -/
def blobState (wasm : Bytes) : State Party :=
  .ofTree (((⟨∅⟩ : DirTree).put wasmDir .dir).put (wasmPath (Wasm.plain.digest wasm)) (.file wasm 0))

def stageGcStart (wasm : Bytes) : Config Party (State Party) FsCall FsRes StageGcResult :=
  ⟨blobState wasm, stageGcPrograms Wasm.plain (0 : Nat) (0 : Nat) ['t'] ['f'] wasm 10⟩

/-- Both are done, the publisher with success. -/
def stageGcDone (C : Config Party (State Party) FsCall FsRes StageGcResult) : Bool :=
  match C.prog .gc, C.prog .publisher with
  | .ret _, .ret (.ok _) => true
  | _, _ => false

theorem stageGcDone_iff {C : Config Party (State Party) FsCall FsRes StageGcResult} :
    stageGcDone C = true ↔
      ∃ r staged, C.prog .gc = .ret r ∧ C.prog .publisher = .ret (.ok staged) := by
  unfold stageGcDone
  constructor
  · intro h
    split at h
    · rename_i r staged hg hp
      exact ⟨r, staged, hg, hp⟩
    · cases h
  · rintro ⟨r, staged, hg, hp⟩
    rw [hg, hp]

/-- The renewal at time 100 falls between `gc`'s look at the blob and its removal. -/
def lateRenewal (digest : Str) : List (Party × Choice) :=
  let blob := digest ++ ".wasm".toList
  let cwasm := cacheFileName Wasm.plain (0 : Nat) digest
  let step := Choice.ofNow 100
  -- no tenants, and the old blob in `wasm/`
  [(.gc, step), (.gc, step), (.gc, .ofNames 100 [blob]), (.gc, .ofNames 100 [blob]), (.gc, step),
  -- `stage`: compile, publish the `.cwasm`, renew the blob
    (.publisher, step), (.publisher, step), (.publisher, .ofSuffix 100 ['a']), (.publisher, step),
    (.publisher, step), (.publisher, step), (.publisher, step), (.publisher, step),
  -- `gc` removes the blob
    (.gc, step),
  -- `activate`
    (.publisher, step), (.publisher, .ofSuffix 100 ['b']), (.publisher, step), (.publisher, step),
    (.publisher, step), (.publisher, step),
  -- the rest of `gc`: the new `.cwasm` stays
    (.gc, step), (.gc, .ofNames 100 [cwasm]), (.gc, .ofNames 100 [cwasm]), (.gc, step)]

/-- The renewal comes before `gc` looks at the blob it has listed. -/
def earlyRenewal (digest : Str) : List (Party × Choice) :=
  let blob := digest ++ ".wasm".toList
  let cwasm := cacheFileName Wasm.plain (0 : Nat) digest
  let step := Choice.ofNow 100
  [(.gc, step), (.gc, step), (.gc, .ofNames 100 [blob]), (.gc, .ofNames 100 [blob]),
    (.publisher, step), (.publisher, step), (.publisher, .ofSuffix 100 ['a']), (.publisher, step),
    (.publisher, step), (.publisher, step), (.publisher, step), (.publisher, step),
    (.gc, step),
    (.publisher, step), (.publisher, .ofSuffix 100 ['b']), (.publisher, step), (.publisher, step),
    (.publisher, step), (.publisher, step),
    (.gc, step), (.gc, .ofNames 100 [cwasm]), (.gc, .ofNames 100 [cwasm]), (.gc, step)]

theorem staged_survives_gc_early :
    ∃ C, (stageGcStart [.raw [1]]).play
        (checked (execIf (Within 100 10)) (renewedInTime (plainDigest [.raw [1]])))
        (earlyRenewal (plainDigest [.raw [1]])) = some C ∧
      ∃ b m, C.shared.tree.get (wasmPath (plainDigest [.raw [1]])) = some (.file b m) := by
  have hrun : ((stageGcStart [.raw [1]]).play
      (checked (execIf (Within 100 10)) (renewedInTime (plainDigest [.raw [1]])))
      (earlyRenewal (plainDigest [.raw [1]]))).any stageGcDone = true := by
    decide +kernel
  rw [Option.any_eq_true] at hrun
  obtain ⟨C, hplay, hC⟩ := hrun
  obtain ⟨r, staged, -, hp⟩ := stageGcDone_iff.1 hC
  exact ⟨C, hplay, staged_survives_gc Wasm.plain (0 : Nat) (0 : Nat) ['t'] ['f'] [.raw [1]] 100 10
    _ (play_restrict execIf_sound hplay) hp⟩

theorem staged_lost_to_gc :
    ¬ ∀ (W : Wasm) (collectorEngine engine : W.Engine) (tenant func : Str) (wasm : Bytes)
      (t₀ grace : Nat) (s₀ : State Party) (C : Config Party (State Party) FsCall FsRes _) r staged,
      Reach (system (Within t₀ grace))
        ⟨s₀, stageGcPrograms W collectorEngine engine tenant func wasm grace⟩ C →
      C.prog .gc = .ret r → C.prog .publisher = .ret (.ok staged) →
      ∃ b m, C.shared.tree.get (wasmPath (W.digest wasm)) = some (.file b m) := by
  intro h
  have hrun : ((stageGcStart [.raw [1]]).play (execIf (Within 100 10))
      (lateRenewal (plainDigest [.raw [1]]))).any (fun C => stageGcDone C &&
        (C.shared.tree.get (wasmPath (plainDigest [.raw [1]]))).isNone) = true := by
    decide +kernel
  rw [Option.any_eq_true] at hrun
  obtain ⟨C, hplay, hC⟩ := hrun
  rw [Bool.and_eq_true, Option.isNone_iff_eq_none] at hC
  obtain ⟨r, staged, hg, hp⟩ := stageGcDone_iff.1 hC.1
  obtain ⟨b, m, hb⟩ := h _ _ _ _ _ [.raw [1]] 100 10 _ C r staged
    (play_reach execIf_sound hplay) hg hp
  exact nomatch hC.2.symm.trans hb

end Warpline
