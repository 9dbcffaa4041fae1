import Warpline.Core.Proof.AtomicWrite

/-!
# The steps of a garbage collection

`GcTarget` says which files pass 2 may remove. A `Collector` is the setting of a thread that
collects: an assertion `R n` that holds after `n` removals, what an old file is known by from the
moment it is looked at to its removal (`Old`), and what is settled of a path once it has been
looked at (`Handled`). `Collector.gcRemove` is the one lemma about pass 2 that the results on gc
use; pass 1 only reads (`gcReferenced_calls`).
-/

set_option autoImplicit false

namespace Warpline

open Conc Fs

/-- The two sides of a race with gc. -/
inductive Party
  | gc
  | publisher
  deriving DecidableEq, Repr

/-- The files pass 2 removes once they are old. -/
def GcTarget (W : Wasm) (engine : W.Engine) (referenced : List Str) (tenantDirs : List PathBuf)
    (p : PathBuf) : Prop :=
  (∃ dir name, (dir ∈ tenantDirs ∨ dir = wasmDir ∨ dir = cwasmDir) ∧ isTempName name = true ∧
      p = dir.child name) ∨
    (∃ name, collectibleWasm referenced name.toStringLossy = true ∧ p = wasmDir.child name) ∨
    ∃ name, collectibleCwasm referenced (W.compatHash engine) name.toStringLossy = true ∧
      p = cwasmDir.child name

/-- No pointer is a target. -/
theorem GcTarget.not_pointer {W : Wasm} {engine : W.Engine} {referenced : List Str}
    {tenantDirs : List PathBuf} {p : PathBuf} (h : GcTarget W engine referenced tenantDirs p)
    (tenant func : Str) : pointerPath tenant func ≠ some p := by
  intro hp
  have hlen := pointerPath_length hp
  have hwasm : wasmDir.length = 1 := by decide
  have hcwasm : cwasmDir.length = 1 := by decide
  rcases h with ⟨dir, name, -, hn, rfl⟩ | ⟨name, -, rfl⟩ | ⟨name, -, rfl⟩
  · obtain ⟨-, hf, heq⟩ := pointerPath_eq_some.1 hp
    rw [PathBuf.child_inj] at heq
    rw [heq.2, isTempName, Bytes.toStringLossy_ofStr, List.isPrefixOf_iff_prefix] at hn
    exact (validName_spec hf).2.1 (hn.subset (by decide))
  · simp [PathBuf.child, hwasm] at hlen
  · simp [PathBuf.child, hcwasm] at hlen

/-! ## Pass 1 -/

theorem pointerEntry_calls (dir : PathBuf) (referenced : List Str)
    (entry : Except IoError Bytes) :
    (pointerEntry dir referenced entry).run.Calls fun c => c.readOnly = true := by
  unfold pointerEntry
  split
  · trivial
  · split
    · trivial
    · refine .bind (.perform rfl) fun r => ?_
      split
      · trivial
      · trivial
      · rename_i contents
        show Prog.Calls _ (if isValidDigest contents.trim = true then _ else _)
        split <;> trivial

theorem tenantEntry_calls (acc : List Str × List PathBuf) (entry : Except IoError Bytes) :
    (tenantEntry acc entry).run.Calls fun c => c.readOnly = true := by
  unfold tenantEntry
  split
  · trivial
  · refine .bindE (.mapErr (.perform rfl)) fun fileType => ?_
    split
    · trivial
    · refine .bindE (.mapErr (.perform rfl)) fun entries => ?_
      exact .bindE (.foldlE (pointerEntry_calls _) _ _) fun _ => trivial

/-- Pass 1 only reads. -/
theorem gcReferenced_calls : gcReferenced.run.Calls fun c => c.readOnly = true := by
  refine .liftE (.perform rfl) fun r => ?_
  split
  · exact .foldlE tenantEntry_calls _ _
  · trivial
  · trivial

/-! ## Pass 2 -/

variable {τ σ : Type} [DecidableEq τ]

/-- A thread that collects: what it removes is a target it has found older than the grace time, and
removing it keeps the assertion `R`, which counts what has been removed. -/
structure Collector (view : σ → State τ) (T : Thread σ FsCall FsRes) (me : τ)
    (A : Choice → Prop) (grace : Nat) (Target : PathBuf → Prop) (R : Nat → σ → Prop)
    (Old : PathBuf → σ → Prop) (Handled : PathBuf → State τ → Prop) : Prop where
  exec : ∀ {n s c r s'}, R n s → T.exec s c r s' →
    ∃ ch, A ch ∧ Fs.exec me ch (view s) c = some (r, view s')
  stable : ∀ n c, T.Stable (some c) (R n)
  same : ∀ {n c r s s'}, (c.quiet = true ∨ ∃ e, r = .error e) → R n s → T.exec s c r s' →
    view s' = view s → T.guar c s s' ∧ R n s'
  old : ∀ {n s p m s'}, R n s → Target p → T.exec s (.metadata p) (.ok m) s' →
    grace ≤ m.elapsed → Old p s'
  oldStable : ∀ p, T.Stable (some (.removeFile p)) (Old p)
  remove : ∀ {n s p b m r s'}, R n s → Old p s → Target p →
    (view s).tree.get p = some (.file b m) → T.exec s (.removeFile p) r s' →
    view s' = (view s).setTree ((view s).tree.del p) → T.guar (.removeFile p) s s' ∧ R (n + 1) s'
  handledStable : ∀ p c, T.Stable (some c) fun s => Handled p (view s)
  handledKept : ∀ {p q s}, Handled q s → Handled q (s.setTree (s.tree.del p))
  absent : ∀ {n s p}, R n s → (∀ b m, (view s).tree.get p ≠ some (.file b m)) →
    Handled p (view s)
  young : ∀ {n s p b m ch}, R n s → A ch → (view s).tree.get p = some (.file b m) →
    ¬ grace ≤ ch.now - m → Handled p (view s)

/-- No call of pass 2 can fail but on a missing file. -/
structure Clean (view : σ → State τ) (A : Choice → Prop) (R : Nat → σ → Prop) : Prop where
  faithful : ∀ ch, A ch → ch.Faithful
  parents : ∀ {n s p}, R n s → (view s).tree.get p ≠ none →
    (view s).tree.get p.parent = some .dir

/-- Where `dir` is, it is a directory. -/
def Lists (view : σ → State τ) (R : Nat → σ → Prop) (dir : PathBuf) : Prop :=
  ∀ n s n' s', R n s → R n' s' → (view s).tree.get dir ≠ none → (view s').tree.get dir = some .dir

variable {view : σ → State τ} {T : Thread σ FsCall FsRes} {me : τ} {A : Choice → Prop}
  {grace : Nat} {Target : PathBuf → Prop} {R : Nat → σ → Prop} {Old : PathBuf → σ → Prop}
  {Handled : PathBuf → State τ → Prop} {n : Nat} {s s' : σ}

/-- `n` files are removed, and unless something was in the way all of `H` is handled. -/
def Progress (view : σ → State τ) (A : Choice → Prop) (R : Nat → σ → Prop)
    (Handled : PathBuf → State τ → Prop) (n : Nat) (H : Set PathBuf) (s : σ) : Prop :=
  R n s ∧ (Clean view A R → ∀ q ∈ H, Handled q (view s))

omit [DecidableEq τ] in
theorem Progress.mono {H H' : Set PathBuf} (h : Progress view A R Handled n H s)
    (hq : Clean view A R → ∀ q ∈ H', q ∈ H ∨ Handled q (view s)) : Progress view A R Handled n H' s :=
  ⟨h.1, fun hc q hm => (hq hc q hm).elim (h.2 hc q) id⟩

theorem Progress.stable (h : Collector view T me A grace Target R Old Handled) (n : Nat)
    (H : Set PathBuf) (c : FsCall) : T.Stable (some c) (Progress view A R Handled n H) :=
  fun s s' hs hr => ⟨h.stable n c s s' hs.1 hr,
    fun hc q hq => h.handledStable q c s s' (hs.2 hc q hq) hr⟩

/-- A reading call changes nothing; its answer is about the state it leaves. -/
theorem Progress.read (h : Collector view T me A grace Target R Old Handled) {H : Set PathBuf}
    {c : FsCall} {r : FsRes c} (hc : c.readOnly = true) (hs : Progress view A R Handled n H s)
    (he : T.exec s c r s') : T.guar c s s' ∧ Progress view A R Handled n H s' ∧
      ∃ ch, A ch ∧ Fs.exec me ch (view s') c = some (r, view s') := by
  obtain ⟨ch, ha, hx⟩ := h.exec hs.1 he
  have hv := exec_readOnly hc hx
  obtain ⟨hg, hR⟩ := h.same (.inl (FsCall.quiet_of_readOnly hc)) hs.1 he hv
  refine ⟨hg, ⟨hR, ?_⟩, ch, ha, ?_⟩
  · rw [hv]
    exact hs.2
  · rwa [hv] at hx ⊢

/-- One file: removed if it is old. -/
theorem Collector.sat_collect (h : Collector view T me A grace Target R Old Handled) {p : PathBuf}
    {H : Set PathBuf} (hp : Target p) (hs : Progress view A R Handled n H s) :
    Sat T (fun b => Progress view A R Handled (if b then n + 1 else n) (insert p H))
      (collect grace p) s := by
  refine Sat.bind (Sat.bind (Sat.perform _ (Progress.stable h n H _) hs fun s₀ r s₁ hs₀ he => ?_))
  obtain ⟨hg, hs₁, ch, ha, hx⟩ := hs₀.read h rfl he
  refine ⟨hg, ?_⟩
  obtain ⟨node, rfl, hn⟩ | ⟨e, rfl, hn, -⟩ := exec_metadata hx
  swap
  · refine hs₁.mono fun hc q hq => hq.symm.imp_right ?_
    rintro rfl
    refine h.absent hs₁.1 ?_
    obtain hn | hn := hn
    · rw [(hc.faithful ch ha).1] at hn
      cases hn
    · simp [hn]
  by_cases hold : grace ≤ (metadataOf ch.now node).elapsed
  swap
  · show Sat T _ (if decide _ = true then removed p else pure false) s₁
    rw [if_neg (by simpa using hold)]
    refine hs₁.mono fun _ q hq => hq.symm.imp_right ?_
    rintro rfl
    cases node with
    | dir => exact h.absent hs₁.1 (by simp [hn])
    | file b m => exact h.young hs₁.1 ha hn hold
  show Sat T _ (if decide _ = true then removed p else pure false) s₁
  rw [if_pos (by simpa using hold)]
  refine Sat.bind (Sat.perform (fun s => Progress view A R Handled n H s ∧ Old p s)
    ((Progress.stable h n H _).and (h.oldStable p)) ⟨hs₁, h.old hs₀.1 hp he hold⟩
    fun s₂ r s₃ hs₂ he => ?_)
  obtain ⟨hs₂, hold⟩ := hs₂
  obtain ⟨ch, ha, hx⟩ := h.exec hs₂.1 he
  obtain ⟨b, m, rfl, hb, hv⟩ | ⟨e, rfl, hv, hf, -⟩ := exec_removeFile hx
  · obtain ⟨hg, hR⟩ := h.remove hs₂.1 hold hp hb he hv
    have hne : p ≠ [] := by
      rintro rfl
      cases hb
    refine ⟨hg, hR, fun hc q hq => ?_⟩
    rcases hq with rfl | hq
    · exact h.absent hR (by rw [hv]; simp [DirTree.get_del _ hne])
    · rw [hv]
      exact h.handledKept (hs₂.2 hc q hq)
  · obtain ⟨hg, hR⟩ := h.same (.inr ⟨e, rfl⟩) hs₂.1 he hv
    refine ⟨hg, hR, fun hc q hq => ?_⟩
    rw [hv]
    rcases hq with rfl | hq
    · refine h.absent hs₂.1 ?_
      rw [(hc.faithful ch ha).1] at hf
      exact hf.resolve_left (by decide)
    · exact hs₂.2 hc q hq

/-- The selected entries of a directory. -/
def selected (dir : PathBuf) (sel : Bytes → Bool) (names : Set Bytes) : Set PathBuf :=
  {p | ∃ name ∈ names, sel name = true ∧ p = dir.child name}

theorem Collector.sat_collectEntry (h : Collector view T me A grace Target R Old Handled)
    {dir : PathBuf} {sel : Bytes → Bool} {name : Bytes} {base count : Nat} {H : Set PathBuf}
    (hsel : sel name = true → Target (dir.child name))
    (hs : Progress view A R Handled (base + count) H s) :
    Sat T (fun count => Progress view A R Handled (base + count) (H ∪ selected dir sel {name}))
      (collectEntry sel grace dir count name) s := by
  unfold collectEntry
  split
  · rename_i hn
    have hsub : H ∪ selected dir sel {name} ⊆ insert (dir.child name) H := by
      rintro q (hq | ⟨name', rfl, -, rfl⟩)
      · exact .inr hq
      · exact .inl rfl
    refine Sat.bind ((h.sat_collect (hsel hn) hs).mono fun b s hP => ?_)
    cases b with
    | true => exact hP.mono fun _ q hq => .inl (hsub hq)
    | false => exact hP.mono fun _ q hq => .inl (hsub hq)
  · rename_i hn
    refine hs.mono fun _ q hq => hq.imp_right ?_
    rintro ⟨name', rfl, hn', -⟩
    exact absurd hn' hn

/-- Where `dir` is no directory, nothing is in it. -/
theorem Progress.noDir (h : Collector view T me A grace Target R Old Handled) {dir : PathBuf}
    {sel : Bytes → Bool} {H : Set PathBuf} (hs : Progress view A R Handled n H s)
    (hd : Clean view A R → (view s).tree.get dir ≠ some .dir) :
    Progress view A R Handled n (H ∪ selected dir sel Set.univ) s := by
  refine hs.mono fun hc q hq => hq.imp_right ?_
  rintro ⟨name, -, -, rfl⟩
  refine h.absent hs.1 fun b m hb => hd hc ?_
  have := hc.parents hs.1 (p := dir.child name) (by simp [hb])
  rwa [PathBuf.parent_child] at this

/-- What a complete listing leaves out is not there. -/
theorem Progress.listed (h : Collector view T me A grace Target R Old Handled) {dir : PathBuf}
    {sel : Bytes → Bool} {H : Set PathBuf} {ch : Choice} (hs : Progress view A R Handled n H s)
    (ha : A ch) (hl : Listing (view s).tree dir ch.entries) :
    Progress view A R Handled n (H ∪ selected dir sel {name | name ∉ listed ch.entries}) s := by
  refine hs.mono fun hc q hq => hq.imp_right ?_
  rintro ⟨name, hn, -, rfl⟩
  refine h.absent hs.1 fun b m hb => hn ?_
  exact hl.2.2 (hc.faithful ch ha).2 (DirTree.mem_children.2 (by simp [hb]))

theorem Collector.sat_sweep (h : Collector view T me A grace Target R Old Handled) {dir : PathBuf}
    {H : Set PathBuf} {base : Nat}
    (hsel : ∀ name, isTempName name = true → Target (dir.child name))
    (hs : Progress view A R Handled base H s) :
    Sat T (fun count =>
        Progress view A R Handled (base + count) (H ∪ selected dir isTempName Set.univ))
      (sweepStaleTempFiles dir grace) s := by
  refine Sat.bind (Sat.perform _ (Progress.stable h base H _) hs fun s₀ r s₁ hs₀ he => ?_)
  obtain ⟨hg, hs₁, ch, ha, hx⟩ := hs₀.read h rfl he
  refine ⟨hg, ?_⟩
  obtain ⟨entries, rfl, -, rfl, hl⟩ | ⟨e, rfl, hd, -⟩ := exec_readDir hx
  swap
  · refine Progress.noDir h hs₁ fun hc => ?_
    rw [(hc.faithful ch ha).1] at hd
    exact hd.resolve_left (by decide)
  have hstart : Progress view A R Handled (base + 0)
      (H ∪ selected dir isTempName {name | name ∉ listed ch.entries ∨ name ∈ []}) s₁ := by
    simpa using Progress.listed h hs₁ ha hl
  refine (Sat.foldlM (fun done count => Progress view A R Handled (base + count)
      (H ∪ selected dir isTempName {name | name ∉ listed ch.entries ∨ name ∈ done}))
    hstart fun done name rest count s _ hI => ?_).mono fun count s hI => ?_
  · refine (h.sat_collectEntry (hsel name) hI).mono fun count s hP => hP.mono fun _ q hq => .inl ?_
    rcases hq with hq | ⟨name', hn, hsel, rfl⟩
    · exact .inl (.inl hq)
    · rw [Set.mem_ofPred_eq, List.mem_append, List.mem_singleton] at hn
      rcases hn with hn | hn | rfl
      · exact .inl (.inr ⟨name', .inl hn, hsel, rfl⟩)
      · exact .inl (.inr ⟨name', .inr hn, hsel, rfl⟩)
      · exact .inr ⟨name', rfl, hsel, rfl⟩
  · refine hI.mono fun _ q hq => .inl ?_
    rcases hq with hq | ⟨name, -, hsel, rfl⟩
    · exact .inl hq
    · exact .inr ⟨name, (em (name ∈ listed ch.entries)).symm, hsel, rfl⟩

/-- `wasm/` or `cwasm/`: every old temporary file and every old collectible blob. -/
theorem Collector.sat_gcDir (h : Collector view T me A grace Target R Old Handled) {dir : PathBuf}
    {sel : Str → Bool} {H : Set PathBuf} {base : Nat}
    (htmp : ∀ name, isTempName name = true → Target (dir.child name))
    (hsel : ∀ name, sel name.toStringLossy = true → Target (dir.child name))
    (hs : Progress view A R Handled base H s) :
    Sat T (fun r s => match r with
      | .ok count => Progress view A R Handled (base + count) (H ∪ selected dir isTempName Set.univ ∪
          selected dir (fun name => sel name.toStringLossy) Set.univ) s
      | .error _ => ∃ n, R n s ∧ (Clean view A R → ¬ Lists view R dir))
      (gcDir dir sel grace).run s := by
  refine Sat.liftE (Sat.bind (Sat.perform _ (Progress.stable h base H _) hs fun s₀ r s₁ hs₀ he => ?_))
  obtain ⟨hg, hs₁, ch, ha, hx⟩ := hs₀.read h rfl he
  refine ⟨hg, ?_⟩
  obtain ⟨node, rfl, hn⟩ | ⟨e, rfl, hn, -⟩ := exec_metadata hx
  swap
  · have hd : Clean view A R → (view s₁).tree.get dir ≠ some .dir := by
      intro hc
      rw [(hc.faithful ch ha).1] at hn
      simp [hn.resolve_left (by decide)]
    exact Progress.noDir h (Progress.noDir h hs₁ hd) hd
  -- the directory is there
  refine Sat.liftE ((h.sat_sweep htmp hs₁).mono fun swept s₂ hs₂ => ?_)
  refine Sat.bindE (sat_io (Sat.perform _ (Progress.stable h _ _ _) hs₂ fun s₃ r s₄ hs₃ he => ?_))
  obtain ⟨hg, hs₄, ch, ha, hx⟩ := hs₃.read h rfl he
  refine ⟨hg, ?_⟩
  obtain ⟨entries, rfl, -, rfl, hl⟩ | ⟨e, rfl, hd, -⟩ := exec_readDir hx
  swap
  · refine ⟨_, hs₄.1, fun hc hlists => ?_⟩
    rw [(hc.faithful ch ha).1] at hd
    exact hd.resolve_left (by decide) (hlists _ _ _ _ hs₁.1 hs₄.1 (by simp [hn]))
  refine Sat.foldlE (fun done count => Progress view A R Handled (base + count)
      (H ∪ selected dir isTempName Set.univ ∪ selected dir (fun name => sel name.toStringLossy)
        {name | name ∉ listed ch.entries ∨ .ok name ∈ done}))
    (by simpa using Progress.listed h hs₄ ha hl)
    (fun done entry rest count s hl hI => ?_) (fun count s hI => ?_)
  · cases entry with
    | error e =>
      refine ⟨_, hI.1, fun hc => ?_⟩
      obtain ⟨name, hname⟩ := listed_length_eq.1 (hc.faithful ch ha).2 (.error e) (by simp [hl])
      cases hname
    | ok name =>
      refine Sat.bind (f := fun a => Prog.ret (Except.ok a))
        ((h.sat_collectEntry (hsel name) hI).mono fun count s hP =>
          hP.mono fun _ q hq => .inl ?_)
      rcases hq with hq | ⟨name', hn, hs', rfl⟩
      · exact .inl (.inl hq)
      · rw [Set.mem_ofPred_eq, List.mem_append, List.mem_singleton, Except.ok.injEq] at hn
        rcases hn with hn | hn | rfl
        · exact .inl (.inr ⟨name', .inl hn, hs', rfl⟩)
        · exact .inl (.inr ⟨name', .inr hn, hs', rfl⟩)
        · exact .inr ⟨name', rfl, hs', rfl⟩
  · refine hI.mono fun _ q hq => .inl ?_
    rcases hq with hq | ⟨name, -, hs', rfl⟩
    · exact .inl hq
    · exact .inr ⟨name, (em (.ok name ∈ ch.entries)).symm.imp_left (mt mem_listed.1), hs', rfl⟩

/-- **Pass 2** removes only old targets; when nothing is in its way, no target it found old is
left. -/
theorem Collector.sat_gcRemove {W : Wasm} {engine : W.Engine} {referenced : List Str}
    {tenantDirs : List PathBuf}
    (h : Collector view T me A grace (GcTarget W engine referenced tenantDirs) R Old Handled)
    (hs : R 0 s) :
    Sat T (fun r s => match r with
      | .ok count => R count s ∧
          (Clean view A R → ∀ p, GcTarget W engine referenced tenantDirs p → Handled p (view s))
      | .error _ => ∃ n, R n s ∧
          (Clean view A R → ¬ (Lists view R wasmDir ∧ Lists view R cwasmDir)))
      (gcRemove W engine grace referenced tenantDirs).run s := by
  have htmp : ∀ dir, dir ∈ tenantDirs ∨ dir = wasmDir ∨ dir = cwasmDir → ∀ name,
      isTempName name = true → GcTarget W engine referenced tenantDirs (dir.child name) :=
    fun dir hd name hn => .inl ⟨dir, name, hd, hn, rfl⟩
  -- the tenant directories
  have hstart : Progress view A R Handled (0 + 0)
      {p | ∃ dir ∈ ([] : List PathBuf), p ∈ selected dir isTempName Set.univ} s := ⟨hs, by simp⟩
  refine Sat.liftE ((Sat.foldlM (fun done count => Progress view A R Handled (0 + count)
      {p | ∃ dir ∈ done, p ∈ selected dir isTempName Set.univ}) hstart
    fun done dir rest count s hd hI => ?_).mono fun swept s₁ hs₁ => ?_)
  · have hmem : dir ∈ tenantDirs := by simp [hd]
    refine Sat.bind ((h.sat_sweep (htmp dir (.inl hmem)) hI).mono fun m s hP => ?_)
    rw [Nat.add_assoc] at hP
    refine hP.mono fun _ q hq => .inl ?_
    obtain ⟨dir', hd', hq⟩ := hq
    rcases List.mem_append.1 hd' with hd' | hd'
    · exact .inl ⟨dir', hd', hq⟩
    · rw [List.mem_singleton.1 hd'] at hq
      exact .inr hq
  -- `wasm/`, then `cwasm/`
  refine Sat.bindE ((h.sat_gcDir (htmp _ (.inr (.inl rfl)))
    (fun name hn => .inr (.inl ⟨name, hn, rfl⟩)) hs₁).mono fun r s₂ hs₂ => ?_)
  cases r with
  | error e =>
    obtain ⟨n, hn, hl⟩ := hs₂
    exact ⟨n, hn, fun hc h => hl hc h.1⟩
  | ok wasm =>
  refine Sat.bindE ((h.sat_gcDir (htmp _ (.inr (.inr rfl)))
    (fun name hn => .inr (.inr ⟨name, hn, rfl⟩)) hs₂).mono fun r s₃ hs₃ => ?_)
  cases r with
  | error e =>
    obtain ⟨n, hn, hl⟩ := hs₃
    exact ⟨n, hn, fun hc h => hl hc h.2⟩
  | ok cwasm =>
  refine ⟨by simpa using hs₃.1, fun hc p hp => hs₃.2 hc p ?_⟩
  rcases hp with ⟨dir, name, hd | rfl | rfl, hn, rfl⟩ | ⟨name, hn, rfl⟩ | ⟨name, hn, rfl⟩
  · exact .inl (.inl (.inl (.inl ⟨dir, hd, name, trivial, hn, rfl⟩)))
  · exact .inl (.inl (.inl (.inr ⟨name, trivial, hn, rfl⟩)))
  · exact .inl (.inr ⟨name, trivial, hn, rfl⟩)
  · exact .inl (.inl (.inr ⟨name, trivial, hn, rfl⟩))
  · exact .inr ⟨name, trivial, hn, rfl⟩

/-- Pass 1 keeps what reading calls keep. -/
theorem Collector.sat_gcReferenced (h : Collector view T me A grace Target R Old Handled)
    (hs : R n s) : Sat T (fun _ => R n) gcReferenced.run s := by
  refine gcReferenced_calls.sat (fun c _ => h.stable n c) (fun c s r s' hc hs he => ?_) hs
  obtain ⟨ch, -, hx⟩ := h.exec hs he
  exact h.same (.inl (FsCall.quiet_of_readOnly hc)) hs he (exec_readOnly hc hx)

/-- **`gc_unreferenced_blobs`**, whatever its first pass learns. -/
theorem Collector.sat_gcUnreferencedBlobs {W : Wasm} {engine : W.Engine}
    (h : ∀ referenced tenantDirs,
      Collector view T me A grace (GcTarget W engine referenced tenantDirs) R Old Handled)
    (hs : R 0 s) : Sat T (fun _ s => ∃ n, R n s) (gcUnreferencedBlobs W engine grace).run s := by
  refine Sat.bindE (((h [] []).sat_gcReferenced hs).mono fun r s₁ hs₁ => ?_)
  cases r with
  | error e => exact ⟨0, hs₁⟩
  | ok q =>
    refine ((h q.1 q.2).sat_gcRemove hs₁).mono fun r s₂ hs₂ => ?_
    cases r with
    | error e =>
      obtain ⟨n, hn, -⟩ := hs₂
      exact ⟨n, hn⟩
    | ok n => exact ⟨n, hs₂.1⟩

end Warpline
