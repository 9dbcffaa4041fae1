import Warpline.Core.Proof.GcSteps
import Warpline.Core.Runtime
import Warpline.Fs.System

/-!
# What a garbage collection removes

One `gc` with nothing else changing the tree. `Collectable` says in terms of the tree what there
is to remove; `gc` sees it through the digests and directories its first pass returns
(`Learned`). The clock runs from `t₀` to `t₁` during the run, so a file that comes of age in
between may be removed or not; a run that takes no time removes exactly the old ones.
-/

set_option autoImplicit false

namespace Warpline

open Conc Fs

/-! ## What there is to collect -/

section
variable (t : DirTree)

/-- The file `p` holds `digest`, as `read_pointer` reads it. -/
def HoldsDigest (p : PathBuf) (digest : Str) : Prop :=
  isValidDigest digest = true ∧
    ∃ contents m, t.get p = some (.file (.ofStr contents) m) ∧ Str.trim contents = digest

/-- A directory of pointers. -/
def TenantDir (dir : PathBuf) : Prop := (∃ name, dir = tenantsDir.child name) ∧ t.get dir = some .dir

/-- Some pointer holds `digest`. -/
def Referenced (digest : Str) : Prop :=
  ∃ dir name, TenantDir t dir ∧ isTempName name = false ∧ HoldsDigest t (dir.child name) digest

/-- A file with text in it. -/
def Readable (p : PathBuf) : Prop := ∃ contents m, t.get p = some (.file (.ofStr contents) m)

/-- Nothing in the tree keeps pass 1 from listing the tenants and reading their pointers. -/
structure PointersReadable : Prop where
  tenants : t.get tenantsDir = none ∨ t.get tenantsDir = some .dir
  pointer : ∀ dir name, TenantDir t dir → isTempName name = false → t.get (dir.child name) ≠ none →
    Readable t (dir.child name)

/-- What `gc` is to remove once it is old. -/
inductive Collectable (W : Wasm) (engine : W.Engine) : PathBuf → Prop
  | temp {dir : PathBuf} {name : Bytes} : TenantDir t dir ∨ dir = wasmDir ∨ dir = cwasmDir →
      isTempName name = true → Collectable W engine (dir.child name)
  | wasm {name : Bytes} {digest : Str} : name.toStringLossy = digest ++ ".wasm".toList →
      ¬ Referenced t digest → Collectable W engine (wasmDir.child name)
  | cwasm {name : Bytes} {digest compat : Str} :
      name.toStringLossy = digest ++ '-' :: compat ++ ".cwasm".toList → '-' ∉ digest →
      ¬ Referenced t digest ∨ compat ≠ W.compatHash engine →
      Collectable W engine (cwasmDir.child name)

/-- `p` is a file that is at least `grace` old at time `now`. -/
def OldAt (grace now : Nat) (p : PathBuf) : Prop :=
  ∃ b m, t.get p = some (.file b m) ∧ grace ≤ now - m

/-- What pass 1 returns. -/
structure Learned (referenced : List Str) (tenantDirs : List PathBuf) : Prop where
  referenced : ∀ digest, digest ∈ referenced ↔ Referenced t digest
  tenantDirs : ∀ dir, dir ∈ tenantDirs ↔ TenantDir t dir

end

theorem Learned.collectable {W : Wasm} {engine : W.Engine} {t : DirTree} {referenced : List Str}
    {tenantDirs : List PathBuf} (h : Learned t referenced tenantDirs) (p : PathBuf) :
    GcTarget W engine referenced tenantDirs p ↔ Collectable t W engine p := by
  constructor
  · rintro (⟨dir, name, hd, hn, rfl⟩ | ⟨name, hn, rfl⟩ | ⟨name, hn, rfl⟩)
    · exact .temp (hd.imp_left (h.tenantDirs dir).1) hn
    · unfold collectibleWasm at hn
      split at hn
      · rename_i digest hs
        refine .wasm (Str.stripSuffix_eq_some.1 hs) fun hr => ?_
        simp [(h.referenced digest).2 hr] at hn
      · cases hn
    · unfold collectibleCwasm at hn
      split at hn
      · rename_i rest hs
        split at hn
        · rename_i digest compat hsplit
          obtain ⟨rfl, hdash⟩ := Str.splitOnce_eq_some.1 hsplit
          refine .cwasm (Str.stripSuffix_eq_some.1 hs) hdash ?_
          rw [Bool.or_eq_true, bne_iff_ne] at hn
          refine hn.imp_left fun hc hr => ?_
          simp [(h.referenced digest).2 hr] at hc
        · cases hn
      · cases hn
  · rintro (⟨hd, hn⟩ | ⟨hn, hr⟩ | ⟨hn, hdash, hr⟩)
    · exact .inl ⟨_, _, hd.imp_left (h.tenantDirs _).2, hn, rfl⟩
    · refine .inr (.inl ⟨_, ?_, rfl⟩)
      rw [collectibleWasm, Str.stripSuffix_eq_some.2 hn]
      simpa [h.referenced] using hr
    · refine .inr (.inr ⟨_, ?_, rfl⟩)
      rw [collectibleCwasm, Str.stripSuffix_eq_some.2 hn]
      dsimp only
      rw [Str.splitOnce_eq_some.2 ⟨rfl, hdash⟩]
      simpa [h.referenced] using hr

/-! ## Pass 1 -/

section
variable {τ : Type} [DecidableEq τ] {me : τ} {A : Choice → Prop} {s : State τ}

/-- The setting of a program that runs alone on the tree. -/
abbrev Alone (me : τ) (A : Choice → Prop) : Thread (State τ) FsCall FsRes :=
  .alone (fun ch s c => Fs.exec me ch s c) A

theorem holdsDigest_iff {t : DirTree} {p : PathBuf} {contents : Str} {m : Nat}
    (h : t.get p = some (.file (.ofStr contents) m)) {digest : Str} :
    HoldsDigest t p digest ↔ isValidDigest (Str.trim contents) = true ∧ digest = Str.trim contents := by
  constructor
  · rintro ⟨hd, contents', m', h', rfl⟩
    rw [h, Option.some.injEq, Node.file.injEq, Bytes.ofStr_inj] at h'
    rw [h'.1]
    exact ⟨hd, rfl⟩
  · rintro ⟨hd, rfl⟩
    exact ⟨hd, contents, m, h, rfl⟩

/-- A reading call of a program that runs alone. -/
theorem sat_read {c : FsCall} {Q : FsRes c → State τ → Prop} (hc : c.readOnly = true)
    (h : ∀ ch r, A ch → Fs.exec me ch s c = some (r, s) → Q r s) :
    Sat (Alone me A) Q (Prog.perform c) s :=
  Sat.perform (· = s) Thread.alone_stable rfl fun s₁ r s₂ hs₁ he => by
    obtain ⟨ch, ha, hx⟩ := he
    subst hs₁
    have hv := exec_readOnly hc hx
    subst hv
    exact ⟨trivial, h ch r ha hx⟩

theorem sat_pointerEntry {dir : PathBuf} (hdir : TenantDir s.tree dir) {referenced : List Str}
    {entry : Except IoError Bytes} (hentry : (∀ ch, A ch → ch.Faithful) → ∃ name, entry = .ok name)
    (hname : ∀ name, entry = .ok name → s.tree.get (dir.child name) ≠ none) :
    Sat (Alone me A) (fun r s' => s' = s ∧ match r with
      | .ok referenced' => ∃ name, entry = .ok name ∧
          (∀ digest, digest ∈ referenced' ↔ digest ∈ referenced ∨
            isTempName name = false ∧ HoldsDigest s.tree (dir.child name) digest) ∧
          (isTempName name = false → Readable s.tree (dir.child name))
      | .error _ => (∀ ch, A ch → ch.Faithful) → ¬ PointersReadable s.tree)
      (pointerEntry dir referenced entry).run s := by
  unfold pointerEntry
  split
  · refine ⟨rfl, fun hf => ?_⟩
    obtain ⟨name, hn⟩ := hentry hf
    cases hn
  · rename_i name
    split
    · rename_i htemp
      exact ⟨rfl, name, rfl, by simp [htemp], by simp [htemp]⟩
    rename_i htemp
    rw [Bool.not_eq_true] at htemp
    refine Sat.bind (sat_read rfl fun ch r ha hx => ?_)
    obtain ⟨contents, m, rfl, hg⟩ | ⟨e, rfl, hf, hnf⟩ := exec_readToString hx
    · have hread : Readable s.tree (dir.child name) := ⟨contents, m, hg⟩
      show Sat _ _ (if isValidDigest contents.trim = true then _ else _) s
      split
      · rename_i hd
        refine ⟨rfl, name, rfl, fun digest => ?_, fun _ => hread⟩
        rw [holdsDigest_iff hg, List.mem_cons, or_comm]
        simp [htemp, hd]
      · rename_i hd
        refine ⟨rfl, name, rfl, fun digest => ?_, fun _ => hread⟩
        rw [holdsDigest_iff hg]
        simp [hd]
    · cases e with
      | notFound => exact absurd (hnf rfl) (hname name rfl)
      | other =>
        refine ⟨rfl, fun hall hp => ?_⟩
        obtain ⟨str, m, hg⟩ := hp.pointer dir name hdir htemp (hname name rfl)
        rw [(hall ch ha).1] at hf
        exact hf.resolve_left (by decide) str m hg

/-- A digest some pointer in `dir` holds. -/
def ReferencedIn (t : DirTree) (dir : PathBuf) (digest : Str) : Prop :=
  ∃ name, isTempName name = false ∧ HoldsDigest t (dir.child name) digest

theorem mem_snoc_ok {done : List (Except IoError Bytes)} {name name' : Bytes} :
    .ok name' ∈ done ++ [.ok name] ↔ .ok name' ∈ done ∨ name' = name := by
  simp

theorem forall_snoc_ok {done : List (Except IoError Bytes)} {name : Bytes}
    (h : ∀ x ∈ done, ∃ name, x = .ok name) : ∀ x ∈ done ++ [.ok name], ∃ name, x = .ok name := by
  intro x hx
  rcases List.mem_append.1 hx with hx | hx
  · exact h x hx
  · exact ⟨name, List.mem_singleton.1 hx⟩

theorem sat_pointers {dir : PathBuf} (hdir : TenantDir s.tree dir) {referenced : List Str}
    {entries : List (Except IoError Bytes)} (hl : Listing s.tree dir entries)
    (hentries : (∀ ch, A ch → ch.Faithful) → (listed entries).length = entries.length) :
    Sat (Alone me A) (fun r s' => s' = s ∧ match r with
      | .ok referenced' =>
          (∀ digest, digest ∈ referenced' ↔ digest ∈ referenced ∨ ReferencedIn s.tree dir digest) ∧
          ∀ name, isTempName name = false → s.tree.get (dir.child name) ≠ none →
            Readable s.tree (dir.child name)
      | .error _ => (∀ ch, A ch → ch.Faithful) → ¬ PointersReadable s.tree)
      (entries.foldlM (pointerEntry dir) referenced).run s := by
  refine Sat.foldlE (fun done referenced' s' => s' = s ∧ (∀ x ∈ done, ∃ name, x = .ok name) ∧
      (∀ digest, digest ∈ referenced' ↔ digest ∈ referenced ∨ ∃ name, .ok name ∈ done ∧
        isTempName name = false ∧ HoldsDigest s.tree (dir.child name) digest) ∧
      ∀ name, .ok name ∈ done → isTempName name = false → Readable s.tree (dir.child name))
    (by simp) (fun done entry rest referenced' s' hsplit hI => ?_) (fun referenced' s' hI => ?_)
  · obtain ⟨rfl, hok, hrefs, hread⟩ := hI
    have hmem : entry ∈ entries := by simp [hsplit]
    refine (sat_pointerEntry hdir (fun hf => listed_length_eq.1 (hentries hf) entry hmem)
      (fun name hn => ?_)).mono fun r s₁ hr => ?_
    · have := DirTree.mem_children.1 (hl.2.1 (mem_listed.2 (hn ▸ hmem)))
      exact Option.isSome_iff_ne_none.1 this
    cases r with
    | error e => exact hr
    | ok referenced'' =>
      obtain ⟨rfl, name, rfl, hrefs', hread'⟩ := hr
      refine ⟨rfl, forall_snoc_ok hok, fun digest => ?_, fun name' hn => ?_⟩
      · simp only [hrefs', hrefs, mem_snoc_ok, or_and_right, exists_or, exists_eq_left, or_assoc]
      · rcases mem_snoc_ok.1 hn with hn | rfl
        · exact hread name' hn
        · exact hread'
  · obtain ⟨rfl, hok, hrefs, hread⟩ := hI
    -- nothing in the directory is left out
    have hall : ∀ name, s'.tree.get (dir.child name) ≠ none → .ok name ∈ entries := fun name hn =>
      mem_listed.1 (hl.2.2 (listed_length_eq.2 hok)
        (DirTree.mem_children.2 (Option.isSome_iff_ne_none.2 hn)))
    refine ⟨rfl, fun digest => ?_, fun name ht hn => hread name (hall name hn) ht⟩
    rw [hrefs]
    refine or_congr_right ⟨fun ⟨name, _, h⟩ => ⟨name, h⟩, fun ⟨name, ht, hd⟩ => ⟨name, ?_, ht, hd⟩⟩
    obtain ⟨-, contents, m, hg, -⟩ := hd
    exact hall name (by simp [hg])

theorem sat_tenantEntry {acc : List Str × List PathBuf} {entry : Except IoError Bytes}
    (hentry : (∀ ch, A ch → ch.Faithful) → ∃ name, entry = .ok name)
    (hname : ∀ name, entry = .ok name → s.tree.get (tenantsDir.child name) ≠ none) :
    Sat (Alone me A) (fun r s' => s' = s ∧ match r with
      | .ok acc' => ∃ name, entry = .ok name ∧
          (∀ digest, digest ∈ acc'.1 ↔ digest ∈ acc.1 ∨ TenantDir s.tree (tenantsDir.child name) ∧
            ReferencedIn s.tree (tenantsDir.child name) digest) ∧
          (∀ dir, dir ∈ acc'.2 ↔ dir ∈ acc.2 ∨ TenantDir s.tree dir ∧ dir = tenantsDir.child name) ∧
          (TenantDir s.tree (tenantsDir.child name) → ∀ func, isTempName func = false →
            s.tree.get ((tenantsDir.child name).child func) ≠ none →
            Readable s.tree ((tenantsDir.child name).child func))
      | .error _ => (∀ ch, A ch → ch.Faithful) → ¬ PointersReadable s.tree)
      (tenantEntry acc entry).run s := by
  unfold tenantEntry
  split
  · refine ⟨rfl, fun hf => ?_⟩
    obtain ⟨name, hn⟩ := hentry hf
    cases hn
  rename_i name
  refine Sat.bindE (sat_io (sat_read rfl fun ch r ha hx => ?_))
  obtain ⟨node, rfl, hn⟩ | ⟨e, rfl, hf, -⟩ := exec_metadata hx
  swap
  · refine ⟨rfl, fun hall _ => ?_⟩
    rw [(hall ch ha).1] at hf
    exact hname name rfl (hf.resolve_left (by decide))
  cases node with
  | file b m =>
    have hnot : ¬ TenantDir s.tree (tenantsDir.child name) := fun h => by
      have := h.2
      rw [hn] at this
      cases this
    refine ⟨rfl, name, rfl, fun digest => by simp [hnot], fun dir => ?_, fun h => absurd h hnot⟩
    refine ⟨.inl, fun h => h.resolve_right ?_⟩
    rintro ⟨h, rfl⟩
    exact hnot h
  | dir =>
    have htenant : TenantDir s.tree (tenantsDir.child name) := ⟨⟨name, rfl⟩, hn⟩
    refine Sat.bindE (sat_io (sat_read rfl fun ch r ha hx => ?_))
    obtain ⟨entries, rfl, -, rfl, hl⟩ | ⟨e, rfl, hd, -⟩ := exec_readDir hx
    swap
    · refine ⟨rfl, fun hall _ => ?_⟩
      rw [(hall ch ha).1] at hd
      exact hd.resolve_left (by decide) hn
    refine Sat.bindE ((sat_pointers htenant hl fun hall => (hall ch ha).2).mono fun r s₁ hr => ?_)
    cases r with
    | error e => exact hr
    | ok referenced =>
      obtain ⟨rfl, hrefs, hread⟩ := hr
      refine ⟨rfl, name, rfl, fun digest => ?_, fun dir => ?_, fun _ => hread⟩
      · simp only [hrefs, htenant, true_and]
      · simp only [List.mem_append, List.mem_singleton]
        refine or_congr_right ⟨?_, And.right⟩
        rintro rfl
        exact ⟨htenant, rfl⟩

/-- Pass 1 after the entries `done` of the tenants' directory. -/
structure Passed (t : DirTree) (done : List (Except IoError Bytes)) (referenced : List Str)
    (tenantDirs : List PathBuf) : Prop where
  ok : ∀ x ∈ done, ∃ name, x = .ok name
  referenced : ∀ digest, digest ∈ referenced ↔ ∃ name, .ok name ∈ done ∧
    TenantDir t (tenantsDir.child name) ∧ ReferencedIn t (tenantsDir.child name) digest
  tenantDirs : ∀ dir, dir ∈ tenantDirs ↔ TenantDir t dir ∧ ∃ name, .ok name ∈ done ∧
    dir = tenantsDir.child name
  readable : ∀ name, .ok name ∈ done → TenantDir t (tenantsDir.child name) → ∀ func,
    isTempName func = false → t.get ((tenantsDir.child name).child func) ≠ none →
    Readable t ((tenantsDir.child name).child func)

theorem Passed.nil (t : DirTree) : Passed t [] [] [] := by
  constructor <;> simp

/-- One more entry, of which `tenant_entry` has said what it adds. -/
theorem Passed.snoc {t : DirTree} {done : List (Except IoError Bytes)}
    {referenced referenced' : List Str} {dirs dirs' : List PathBuf} {name : Bytes}
    (h : Passed t done referenced dirs)
    (hrefs : ∀ digest, digest ∈ referenced' ↔ digest ∈ referenced ∨
      TenantDir t (tenantsDir.child name) ∧ ReferencedIn t (tenantsDir.child name) digest)
    (hdirs : ∀ dir, dir ∈ dirs' ↔ dir ∈ dirs ∨ TenantDir t dir ∧ dir = tenantsDir.child name)
    (hread : TenantDir t (tenantsDir.child name) → ∀ func, isTempName func = false →
      t.get ((tenantsDir.child name).child func) ≠ none →
      Readable t ((tenantsDir.child name).child func)) :
    Passed t (done ++ [.ok name]) referenced' dirs' := by
  refine ⟨forall_snoc_ok h.ok, fun digest => ?_, fun dir => ?_, fun name' hn => ?_⟩
  · simp only [hrefs, h.referenced, mem_snoc_ok, or_and_right, exists_or, exists_eq_left]
  · simp only [hdirs, h.tenantDirs, mem_snoc_ok, or_and_right, exists_or, exists_eq_left,
      and_or_left]
  · rcases mem_snoc_ok.1 hn with hn | rfl
    · exact h.readable name' hn
    · exact hread

/-- Once no tenant is left out, all is learned. -/
theorem Passed.learned {t : DirTree} {entries : List (Except IoError Bytes)}
    {referenced : List Str} {dirs : List PathBuf} (h : Passed t entries referenced dirs)
    (hdir : t.get tenantsDir = some .dir)
    (hall : ∀ name, TenantDir t (tenantsDir.child name) → .ok name ∈ entries) :
    Learned t referenced dirs ∧ PointersReadable t := by
  refine ⟨⟨fun digest => ?_, fun dir => ?_⟩, .inr hdir, ?_⟩
  · rw [h.referenced]
    constructor
    · rintro ⟨name, -, hd, func, h⟩
      exact ⟨_, func, hd, h⟩
    · rintro ⟨_, func, hd, h⟩
      obtain ⟨name, rfl⟩ := hd.1
      exact ⟨name, hall name hd, hd, func, h⟩
  · rw [h.tenantDirs]
    refine ⟨And.left, fun hd => ⟨hd, ?_⟩⟩
    obtain ⟨name, rfl⟩ := hd.1
    exact ⟨name, hall name hd, rfl⟩
  · intro dir func hd
    obtain ⟨name, rfl⟩ := hd.1
    exact h.readable name (hall name hd) hd func

/-- Where there is no directory of tenants, there is nothing to learn. -/
theorem learned_missing {t : DirTree} (htree : t.WellFormed) (h : t.get tenantsDir = none) :
    Learned t [] [] ∧ PointersReadable t := by
  have hnone : ∀ dir, ¬ TenantDir t dir := by
    rintro _ ⟨⟨name, rfl⟩, hg⟩
    have := htree _ (by rw [hg]; simp)
    rw [PathBuf.parent_child, h] at this
    cases this
  refine ⟨⟨fun digest => ?_, fun dir => ?_⟩, .inl h, fun dir _ h => absurd h (hnone dir)⟩
  · refine ⟨fun h => absurd h List.not_mem_nil, ?_⟩
    rintro ⟨dir, -, h, -⟩
    exact absurd h (hnone dir)
  · exact ⟨fun h => absurd h List.not_mem_nil, fun h => absurd h (hnone dir)⟩

theorem tenantsDir_underFile {t : DirTree} (h : t.get tenantsDir = none) :
    t.underFile tenantsDir = false := by
  have hroot : t.get [] = some .dir := rfl
  have htenants : t.get [Bytes.ofStr "tenants".toList] = none := h
  show [[], [Bytes.ofStr "tenants".toList]].any _ = false
  simp only [List.any_cons, List.any_nil, hroot, htenants, Option.any_some, Option.any_none,
    Node.isFile, Bool.or_self]

/-- **Pass 1** changes nothing and, if it succeeds, has learned every reference. -/
theorem sat_gcReferenced_learned (htree : s.tree.WellFormed) :
    Sat (Alone me A) (fun r s' => s' = s ∧ match r with
      | .ok q => Learned s.tree q.1 q.2 ∧ PointersReadable s.tree
      | .error _ => (∀ ch, A ch → ch.Faithful) → ¬ PointersReadable s.tree) gcReferenced.run s := by
  refine Sat.liftE (sat_read rfl fun ch r ha hx => ?_)
  obtain ⟨entries, rfl, hdir, rfl, hl⟩ | ⟨e, rfl, hd, hnf⟩ := exec_readDir hx
  swap
  · cases e with
    | notFound => exact ⟨rfl, learned_missing htree (hnf rfl)⟩
    | other =>
      refine ⟨rfl, fun hall hp => ?_⟩
      have hf := (hall ch ha).1
      rw [hf] at hd
      have hn := hp.tenants.resolve_right (hd.resolve_left (by decide))
      cases exec_readDir_missing hx hf hn (tenantsDir_underFile hn)
  refine Sat.foldlE (fun done acc s' => s' = s ∧ Passed s.tree done acc.1 acc.2)
    ⟨rfl, .nil _⟩ (fun done entry rest acc s' hsplit hI => ?_) (fun acc s' hI => ?_)
  · obtain ⟨rfl, hpass⟩ := hI
    have hmem : entry ∈ ch.entries := by simp [hsplit]
    refine (sat_tenantEntry (fun hall => listed_length_eq.1 (hall ch ha).2 entry hmem)
      (fun name hn => ?_)).mono fun r s₁ hr => ?_
    · have := DirTree.mem_children.1 (hl.2.1 (mem_listed.2 (hn ▸ hmem)))
      exact Option.isSome_iff_ne_none.1 this
    cases r with
    | error e => exact hr
    | ok acc' =>
      obtain ⟨rfl, name, rfl, hrefs, hdirs, hread⟩ := hr
      exact ⟨rfl, hpass.snoc hrefs hdirs hread⟩
  · obtain ⟨rfl, hpass⟩ := hI
    refine ⟨rfl, hpass.learned hdir fun name hn => ?_⟩
    exact mem_listed.1 (hl.2.2 (listed_length_eq.2 hpass.ok)
      (DirTree.mem_children.2 (by simp [hn.2])))

/-! ## Pass 2 -/

/-- Nothing fails, and the clock is in `[t₀, t₁]`. -/
def Calm (t₀ t₁ : Nat) (ch : Choice) : Prop := ch.Faithful ∧ t₀ ≤ ch.now ∧ ch.now ≤ t₁

instance (t₀ t₁ : Nat) : DecidablePred (Calm t₀ t₁) := fun ch => by
  unfold Calm
  infer_instance

/-- The old targets among the files of `t` that have been removed. -/
structure RemovedFrom (t : DirTree) (Target : PathBuf → Prop) (grace t₁ : Nat)
    (removed : Finset PathBuf) (t' : DirTree) : Prop where
  tree : ∀ p, t'.get p = if p ∈ removed then none else t.get p
  old : ∀ p ∈ removed, Target p ∧ OldAt t grace t₁ p

section
variable {t t' : DirTree} {Target : PathBuf → Prop} {grace t₀ t₁ : Nat} {removed : Finset PathBuf}

theorem RemovedFrom.get_file (h : RemovedFrom t Target grace t₁ removed t') {p : PathBuf} {n : Node}
    (hp : t'.get p = some n) : p ∉ removed ∧ t.get p = some n := by
  have := h.tree p
  rw [hp] at this
  split at this
  · cases this
  · rename_i hm
    exact ⟨hm, this.symm⟩

/-- Directories stay. -/
theorem RemovedFrom.get_dir (h : RemovedFrom t Target grace t₁ removed t') {p : PathBuf}
    (hp : t.get p = some .dir) : t'.get p = some .dir := by
  rw [h.tree, if_neg, hp]
  intro hm
  obtain ⟨-, b, m, hb, -⟩ := h.old p hm
  rw [hp] at hb
  cases hb

theorem RemovedFrom.remove (h : RemovedFrom t Target grace t₁ removed t') {p : PathBuf} {b : Bytes}
    {m : Nat} (hp : t'.get p = some (.file b m)) (ht : Target p) (hold : grace ≤ t₁ - m) :
    p ∉ removed ∧ RemovedFrom t Target grace t₁ (insert p removed) (t'.del p) := by
  obtain ⟨hm, hb⟩ := h.get_file hp
  have hne : p ≠ [] := by
    rintro rfl
    cases hp
  refine ⟨hm, fun q => ?_, fun q hq => ?_⟩
  · by_cases hqp : q = p
    · subst hqp
      rw [DirTree.get_del _ hne, if_pos (Finset.mem_insert_self ..)]
    · rw [DirTree.get_del_ne _ hqp, h.tree]
      simp [hqp]
  · rcases Finset.mem_insert.1 hq with rfl | hq
    · exact ⟨ht, b, m, hb, hold⟩
    · exact h.old q hq

end

theorem gc_collector (me : τ) (t : DirTree) (Target : PathBuf → Prop) (grace t₀ t₁ : Nat) :
    Collector id (Alone me (Calm t₀ t₁)) me (Calm t₀ t₁) grace Target
      (fun n s => ∃ removed, removed.card = n ∧ RemovedFrom t Target grace t₁ removed s.tree)
      (fun p _ => ∀ b m, t.get p = some (.file b m) → grace ≤ t₁ - m)
      (fun p s => ¬ OldAt s.tree grace t₀ p) where
  exec _ he := he
  stable _ _ := Thread.alone_stable
  same {n c r s s'} _ hs _ hv := ⟨trivial, by
    have hv : s' = s := hv
    rwa [hv]⟩
  old {n s p m s'} hs _ he hm b m' hb := by
    obtain ⟨ch, ha, hx⟩ := he
    obtain ⟨removed, -, hR⟩ := hs
    obtain ⟨node, hr, hn⟩ | ⟨e, hr, -⟩ := exec_metadata hx
    · cases hr
      rw [(hR.get_file hn).2, Option.some.injEq] at hb
      subst hb
      exact hm.trans (Nat.sub_le_sub_right ha.2.2 m')
    · cases hr
  oldStable _ := Thread.alone_stable
  remove {n s p b m r s'} hs hold ht hp he hv := by
    obtain ⟨removed, rfl, hR⟩ := hs
    obtain ⟨hm, hR'⟩ := hR.remove hp ht (hold b m (hR.get_file hp).2)
    refine ⟨trivial, insert p removed, Finset.card_insert_of_notMem hm, ?_⟩
    have hv : s' = s.setTree (s.tree.del p) := hv
    rw [hv]
    exact hR'
  handledStable _ _ := Thread.alone_stable
  handledKept {p q s} hq h := by
    obtain ⟨b, m, hb, hold⟩ := h
    refine hq ⟨b, m, ?_, hold⟩
    by_cases hqp : q = p
    · subst hqp
      have hne : q ≠ [] := by
        rintro rfl
        cases hb
      rw [State.setTree_tree, DirTree.get_del _ hne] at hb
      cases hb
    · rwa [State.setTree_tree, DirTree.get_del_ne _ hqp] at hb
  absent _ hn := by
    rintro ⟨b, m, hb, -⟩
    exact hn b m hb
  young {n s p b m ch} _ ha hb hy := by
    rintro ⟨b', m', hb', hold⟩
    have hbb := hb.symm.trans hb'
    rw [Option.some.injEq, Node.file.injEq] at hbb
    rw [hbb.2] at hy
    exact hy (hold.trans (Nat.sub_le_sub_right ha.2.1 m'))

/-- Pass 2 next to nothing else. -/
theorem sat_gcRemove_exact {W : Wasm} {engine : W.Engine} {grace t₀ t₁ : Nat}
    {referenced : List Str} {tenantDirs : List PathBuf} (htree : s.tree.WellFormed)
    (hdirs : ∀ dir ∈ [wasmDir, cwasmDir], s.tree.get dir = none ∨ s.tree.get dir = some .dir) :
    Sat (Alone me (Calm t₀ t₁)) (fun r s' => ∃ removed, r = .ok removed.card ∧
        RemovedFrom s.tree (GcTarget W engine referenced tenantDirs) grace t₁ removed s'.tree ∧
        ∀ p, GcTarget W engine referenced tenantDirs p → ¬ OldAt s'.tree grace t₀ p)
      (gcRemove W engine grace referenced tenantDirs).run s := by
  have hcol := gc_collector me s.tree (GcTarget W engine referenced tenantDirs) grace t₀ t₁
  have hclean : Clean id (Calm t₀ t₁) (fun n (s' : State τ) => ∃ removed, removed.card = n ∧
      RemovedFrom s.tree (GcTarget W engine referenced tenantDirs) grace t₁ removed s'.tree) := by
    refine ⟨fun ch ha => ha.1, fun {n s' p} hR hp => ?_⟩
    obtain ⟨removed, -, hR⟩ := hR
    refine hR.get_dir (htree p fun hn => hp ?_)
    show s'.tree.get p = none
    rw [hR.tree, hn, ite_self]
  have hlists : ∀ dir ∈ [wasmDir, cwasmDir], Lists id (fun n (s' : State τ) =>
      ∃ removed, removed.card = n ∧ RemovedFrom s.tree (GcTarget W engine referenced tenantDirs)
        grace t₁ removed s'.tree) dir := by
    rintro dir hd n s₁ n' s₂ ⟨_, -, h₁⟩ ⟨_, -, h₂⟩ hne
    rcases hdirs dir hd with hnone | hdir
    · refine absurd ?_ hne
      show s₁.tree.get dir = none
      rw [h₁.tree, hnone, ite_self]
    · exact h₂.get_dir hdir
  have hstart : RemovedFrom s.tree (GcTarget W engine referenced tenantDirs) grace t₁ ∅ s.tree :=
    ⟨fun p => by simp, by simp⟩
  refine (hcol.sat_gcRemove ⟨∅, rfl, hstart⟩).mono fun r s' hr => ?_
  cases r with
  | error e =>
    obtain ⟨-, -, hl⟩ := hr
    exact absurd ⟨hlists _ (by simp), hlists _ (by simp)⟩ (hl hclean)
  | ok count =>
    obtain ⟨⟨removed, rfl, hR⟩, hh⟩ := hr
    exact ⟨removed, rfl, hR, hh hclean⟩

/-! ## Both passes -/

/-- What `gc` has done to the tree: everything collectable that was old when it began is gone, and
nothing else but what came of age meanwhile. -/
structure Collected (W : Wasm) (engine : W.Engine) (grace t₀ t₁ : Nat) (t t' : DirTree)
    (removed : Finset PathBuf) : Prop where
  tree : ∀ p, t'.get p = if p ∈ removed then none else t.get p
  old : ∀ p ∈ removed, Collectable t W engine p ∧ OldAt t grace t₁ p
  complete : ∀ p, Collectable t W engine p → OldAt t grace t₀ p → p ∈ removed

/-- The pointer of a function that can be loaded. -/
theorem referenced_of_pointer {t : DirTree} (htree : t.WellFormed) {tenant func digest : Str}
    {path : PathBuf} (hp : pointerPath tenant func = some path) (hd : HoldsDigest t path digest) :
    Referenced t digest := by
  obtain ⟨-, hf, rfl⟩ := pointerPath_eq_some.1 hp
  refine ⟨_, _, ⟨⟨_, rfl⟩, ?_⟩, ?_, hd⟩
  · obtain ⟨-, contents, m, hg, -⟩ := hd
    have := htree _ (by rw [hg]; exact nofun)
    rwa [PathBuf.parent_child] at this
  · rw [isTempName, Bytes.toStringLossy_ofStr, Bool.eq_false_iff, ne_eq, List.isPrefixOf_iff_prefix]
    exact fun hn => (validName_spec hf).2.1 (hn.subset (by decide))

theorem isTempName_digest {digest : Str} (h : isValidDigest digest = true) (rest : Str) :
    isTempName (.ofStr (digest ++ rest)) = false := by
  obtain ⟨c, tail, rfl, hc⟩ := digest_cons h
  rw [isTempName, Bytes.toStringLossy_ofStr, Bool.eq_false_iff, ne_eq, List.isPrefixOf_iff_prefix]
  rintro ⟨_, hs⟩
  exact hc (List.cons.inj hs).1.symm

/-- A referenced blob is not collectable. -/
theorem Referenced.wasm_kept {W : Wasm} {engine : W.Engine} {t : DirTree} {digest : Str}
    (h : Referenced t digest) : ¬ Collectable t W engine (wasmPath digest) := by
  have hd : isValidDigest digest = true := by
    obtain ⟨-, -, -, -, hd, -⟩ := h
    exact hd
  rw [wasmPath_eq hd]
  generalize hp : wasmDir.child _ = p
  rintro (⟨-, hn⟩ | ⟨hn, hr⟩ | ⟨hn, -, -⟩) <;> rw [PathBuf.child_inj] at hp
  · rw [← hp.2, isTempName_digest hd] at hn
    cases hn
  · rw [← hp.2, Bytes.toStringLossy_ofStr, List.append_left_inj] at hn
    exact hr (hn ▸ h)
  · exact absurd hp.1 (by decide)

/-- The compiled component of a referenced digest is not collectable. -/
theorem Referenced.cwasm_kept {W : Wasm} {engine : W.Engine} {t : DirTree} {digest : Str}
    (h : Referenced t digest) :
    ¬ Collectable t W engine (cwasmDir.join (cacheFileName W engine digest)) := by
  have hd : isValidDigest digest = true := by
    obtain ⟨-, -, -, -, hd, -⟩ := h
    exact hd
  rw [cwasmPath_eq W engine hd]
  generalize hp : cwasmDir.child _ = p
  rintro (⟨-, hn⟩ | ⟨hn, -⟩ | ⟨hn, hdash, hr⟩) <;> rw [PathBuf.child_inj] at hp
  · rw [← hp.2, cacheFileName, List.append_assoc, isTempName_digest hd] at hn
    cases hn
  · exact absurd hp.1 (by decide)
  · rw [← hp.2, Bytes.toStringLossy_ofStr, cacheFileName, List.append_left_inj] at hn
    have hsplit := Str.splitOnce_eq_some.2 ⟨hn, hdash⟩
    rw [Str.splitOnce_eq_some.2 ⟨rfl, fun hm => ((isValidDigest_spec hd).2 _ hm).2.2.1 rfl⟩,
      Option.some.injEq, Prod.mk.injEq] at hsplit
    obtain ⟨rfl, rfl⟩ := hsplit
    exact hr.elim (fun hr => hr h) (fun hr => hr rfl)

theorem Collected.kept {W : Wasm} {engine : W.Engine} {grace t₀ t₁ : Nat} {t t' : DirTree}
    {removed : Finset PathBuf} (h : Collected W engine grace t₀ t₁ t t' removed) {p : PathBuf}
    (hp : ¬ Collectable t W engine p) : t'.get p = t.get p := by
  rw [h.tree, if_neg fun hm => hp (h.old p hm).1]

/-- **What `gc` removes.** The choices `xs` resolve one run from `s₀`, and `q` is what its first pass
comes to, which succeeds unless a call fails or the tree has a pointer that cannot be read. If it
fails nothing is removed. If it succeeds and nothing fails afterwards, exactly the old collectable
files are gone, they are counted, and whatever could be loaded still can. -/
theorem gc_exact (W : Wasm) (engine : W.Engine) (grace t₀ t₁ : Nat) {s₀ s : State τ}
    (htree : s₀.tree.WellFormed) {xs ys : List Choice} {r : Except Error Nat}
    (hrun : (gc W engine grace).run.replay (fun ch s c => Fs.exec me ch s c) xs s₀ =
      some (r, ys, s)) :
    ∃ q zs, gcReferenced.run.replay (fun ch s c => Fs.exec me ch s c) xs s₀ = some (q, zs, s₀) ∧
      ((∀ ch ∈ xs, ch.Faithful) → (IsOk q ↔ PointersReadable s₀.tree)) ∧
      (∀ e, q = .error e → r = .error e ∧ s = s₀) ∧
      (IsOk q → (∀ ch ∈ zs, Calm t₀ t₁ ch) →
        (∀ dir ∈ [wasmDir, cwasmDir], s₀.tree.get dir = none ∨ s₀.tree.get dir = some .dir) →
        ∃ removed, Collected W engine grace t₀ t₁ s₀.tree s.tree removed ∧ r = .ok removed.card ∧
          ∀ tenant func path digest, pointerPath tenant func = some path →
            HoldsDigest s₀.tree path digest →
            HoldsDigest s.tree path digest ∧
            s.tree.get (wasmPath digest) = s₀.tree.get (wasmPath digest) ∧
            s.tree.get (cwasmDir.join (cacheFileName W engine digest)) =
              s₀.tree.get (cwasmDir.join (cacheFileName W engine digest))) := by
  obtain ⟨q, zs, s₁, hpass, hrest⟩ := Prog.replay_bindE hrun
  obtain ⟨rfl, hq⟩ := (sat_gcReferenced_learned (A := fun _ => True) htree).replay
    (fun _ _ => trivial) hpass
  refine ⟨q, zs, hpass, fun hall => ?_, ?_, ?_⟩
  · obtain ⟨-, hq'⟩ := (sat_gcReferenced_learned htree).replay hall hpass
    cases q with
    | ok a => exact ⟨fun _ => hq.2, fun _ => ⟨a, rfl⟩⟩
    | error e =>
      refine ⟨?_, fun hp => absurd hp (hq' fun _ => id)⟩
      rintro ⟨a, ha⟩
      cases ha
  · rintro e rfl
    exact ⟨hrest.1, hrest.2.2⟩
  · rintro ⟨⟨referenced, tenantDirs⟩, rfl⟩ hcalm hdirs
    obtain ⟨hlearned, -⟩ := hq
    obtain ⟨removed, hr, hR, hold⟩ := (sat_gcRemove_exact htree hdirs).replay hcalm hrest
    have hcol : Collected W engine grace t₀ t₁ s₁.tree s.tree removed := by
      refine ⟨hR.tree, fun p hp => ⟨(hlearned.collectable p).1 (hR.old p hp).1, (hR.old p hp).2⟩,
        fun p hp ⟨b, m, hb, hage⟩ => ?_⟩
      by_contra hm
      refine hold p ((hlearned.collectable p).2 hp) ⟨b, m, ?_, hage⟩
      rw [hR.tree, if_neg hm, hb]
    refine ⟨removed, hcol, hr, fun tenant func path digest hp hd => ?_⟩
    have href := referenced_of_pointer htree hp hd
    refine ⟨?_, hcol.kept href.wasm_kept, hcol.kept href.cwasm_kept⟩
    obtain ⟨hv, contents, m, hg, ht⟩ := hd
    refine ⟨hv, contents, m, ?_, ht⟩
    rw [hcol.kept fun hc => ?_, hg]
    exact ((hlearned.collectable path).2 hc).not_pointer tenant func hp

end

/-! ## A run -/

/-- A pointer, its blob, an unreferenced blob, and an old and a new temporary file. -/
def litteredState : State Unit :=
  .ofTree <| (((((((⟨∅⟩ : DirTree).mkdirs (tenantsDir.join ['t'])).put
    ((tenantsDir.join ['t']).join ['f']) (.file (.ofStr (List.replicate 64 'a')) 0)).put
    ((tenantsDir.join ['t']).child (tempName ['x'])) (.file [] 0)).put wasmDir .dir).put
    (wasmPath (List.replicate 64 'a')) (.file [] 0)).put
    (wasmPath (List.replicate 64 'b')) (.file [] 0)).put
    (wasmDir.child (tempName ['y'])) (.file [] 95)

def littered : List Choice :=
  let step := Choice.ofNow 100
  let pointers := Choice.ofNames 100 [['f'], ".tmpx".toList]
  let blobs (rest : List Str) := Choice.ofNames 100
    ([List.replicate 64 'a' ++ ".wasm".toList, List.replicate 64 'b' ++ ".wasm".toList] ++ rest)
  [.ofNames 100 [['t']], step, pointers, step, pointers, step, step, step, blobs [".tmpy".toList],
    step, blobs [".tmpy".toList], step, step, step]

theorem gc_exact_littered :
    ∃ r s, (gc Wasm.plain (0 : Nat) 10).run.replay (fun ch s c => Fs.exec () ch s c) littered
        litteredState = some (r, [], s) ∧
      ∃ removed, Collected Wasm.plain (0 : Nat) 10 100 100 litteredState.tree s.tree removed ∧
        r = .ok removed.card := by
  have hgc : ((gc Wasm.plain (0 : Nat) 10).run.replay (fun ch s c => Fs.exec () ch s c) littered
      litteredState).any (fun q => q.2.1.isEmpty) = true := by
    decide +kernel
  have hpass : (gcReferenced.run.replay (fun ch s c => Fs.exec () ch s c) littered
      litteredState).any (fun q => q.1.toBool && q.2.1.all (Calm 100 100 ·)) = true := by
    decide +kernel
  rw [Option.any_eq_true] at hgc hpass
  obtain ⟨⟨r, ys, s⟩, hrun, hnil⟩ := hgc
  obtain ⟨⟨q', zs', s'⟩, hpass, hcalm⟩ := hpass
  rw [List.isEmpty_iff] at hnil
  subst hnil
  obtain ⟨q, zs, hq, -, -, hok⟩ := gc_exact Wasm.plain (0 : Nat) 10 100 100 (by decide +kernel) hrun
  rw [hq] at hpass
  cases hpass
  rw [Bool.and_eq_true, List.all_eq_true] at hcalm
  cases q' with
  | error e => exact nomatch hcalm.1
  | ok a =>
    obtain ⟨removed, hcol, hr, -⟩ := hok ⟨a, rfl⟩
      (fun ch hc => of_decide_eq_true (hcalm.2 ch hc)) (by decide +kernel)
    exact ⟨r, s, hrun, removed, hcol, hr⟩

end Warpline
