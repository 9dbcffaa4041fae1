import Warpline.Fs.Exec

/-!
# What a file-system call does

One inversion lemma for each call, so that no proof unfolds `exec`. `exec_readOnly` and
`exec_quiet` are about whole groups of calls: those that change nothing, and those that change
nothing but the caller's own temporary files (`Quiet`). What is left are the three calls that
change a file under its published name: `exec_touch`, `exec_rename` and `exec_removeFile`.
-/

set_option autoImplicit false

namespace Fs

section
variable {τ : Type}

/-! ## What a call can change -/

/-- The calls that only look. -/
def FsCall.readOnly : FsCall → Bool
  | .readDir _ | .metadata _ | .read _ | .readToString _ => true
  | _ => false

/-- The calls that change no file but a temporary one of the caller's own. -/
def FsCall.quiet : FsCall → Bool
  | .touch _ | .rename _ _ | .removeFile _ => false
  | _ => true

theorem FsCall.quiet_of_readOnly {c : FsCall} (h : c.readOnly = true) : c.quiet = true := by
  cases c <;> first | rfl | cases h

/-- The effect of a quiet call: missing directories are made, and temporary files of `me`. -/
structure Quiet (me : τ) (s s' : State τ) : Prop where
  kept : ∀ p t, s.temps p = some t → s'.temps p = some t
  fresh : ∀ p, s'.temps p = s.temps p ∨
    (s.temps p = none ∧ s.tree.get p = none ∧ s'.temps p = some me)
  tree : ∀ p, s'.tree.get p = s.tree.get p ∨
    (s'.temps p = some me ∧ ∃ b m, s'.tree.get p = some (.file b m)) ∨
    (s.tree.get p = none ∧ s'.tree.get p = some .dir)

theorem Quiet.refl (me : τ) (s : State τ) : Quiet me s s :=
  ⟨fun _ _ h => h, fun _ => .inl rfl, fun _ => .inl rfl⟩

/-- A path that is no temporary file of `me` changes only from nothing to a directory. -/
theorem Quiet.get {me : τ} {s s' : State τ} (h : Quiet me s s') {p : PathBuf}
    (hp : ¬ TempPath p) : s'.tree.get p = s.tree.get p ∨
      (s.tree.get p = none ∧ s'.tree.get p = some .dir) := by
  obtain h | ⟨ht, -⟩ | h := h.tree p
  · exact .inl h
  · exact absurd (s'.temp_named p _ ht) hp
  · exact .inr h

/-- A file that is no temporary file of `me` stays as it is. -/
theorem Quiet.get_file {me : τ} {s s' : State τ} (h : Quiet me s s') {p : PathBuf} {n : Node}
    (hp : ¬ TempPath p) (hn : s.tree.get p = some n) : s'.tree.get p = some n := by
  obtain h | ⟨h, -⟩ := h.get hp
  · exact h.trans hn
  · rw [hn] at h
    cases h

theorem locate_ok {t : DirTree} {p : PathBuf} {n : Node} : locate t p = .ok n ↔ t.get p = some n := by
  unfold locate
  cases t.get p with
  | some n' => simp
  | none => by_cases h : t.underFile p <;> simp [h]

theorem locate_error {t : DirTree} {p : PathBuf} {e : IoError} (h : locate t p = .error e) :
    t.get p = none := by
  cases hg : t.get p with
  | none => rfl
  | some n => rw [locate_ok.2 hg] at h; cases h

theorem quiet_handOut {me : τ} {s : State τ} {dir : PathBuf} {suffix : Str} {now : Nat}
    (hg : s.tree.get (dir.child (tempName suffix)) = none)
    (ht : s.temps (dir.child (tempName suffix)) = none) :
    Quiet me s (s.handOut me dir suffix now) := by
  refine ⟨fun p t h => ?_, fun p => ?_, fun p => ?_⟩
  · have hp : p ≠ dir.child (tempName suffix) := by
      rintro rfl
      rw [ht] at h
      cases h
    exact (Function.update_of_ne hp _ _).trans h
  · by_cases hp : p = dir.child (tempName suffix)
    · subst hp
      exact .inr ⟨ht, hg, Function.update_self ..⟩
    · exact .inl (Function.update_of_ne hp _ _)
  · by_cases hp : p = dir.child (tempName suffix)
    · subst hp
      exact .inr (.inl ⟨Function.update_self .., [], now,
        DirTree.get_put _ _ (PathBuf.child_ne_nil _ _)⟩)
    · exact .inl (DirTree.get_put_ne _ _ hp)

/-- Overwriting a file of one's own. -/
theorem quiet_put {me : τ} {s : State τ} {p : PathBuf} {b b' : Bytes} {m m' : Nat}
    (ht : s.temps p = some me) (hg : s.tree.get p = some (.file b m)) :
    Quiet me s (s.setTree (s.tree.put p (.file b' m'))) := by
  have hp : p ≠ [] := by
    rintro rfl
    cases hg
  refine ⟨fun _ _ h => h, fun _ => .inl rfl, fun q => ?_⟩
  by_cases hq : q = p
  · subst hq
    exact .inr (.inl ⟨ht, b', m', DirTree.get_put _ _ hp⟩)
  · exact .inl (DirTree.get_put_ne _ _ hq)

variable [DecidableEq τ] {me : τ} {ch : Choice} {s s' : State τ}

theorem exec_readOnly {c : FsCall} {r : FsRes c} (hc : c.readOnly = true)
    (h : exec me ch s c = some (r, s')) : s' = s := by
  cases c <;> cases hc
  all_goals
    simp only [exec] at h
    repeat' split at h
    all_goals first | cases h; rfl | cases h
theorem exec_quiet {c : FsCall} {r : FsRes c} (hc : c.quiet = true)
    (h : exec me ch s c = some (r, s')) : Quiet me s s' := by
  by_cases hro : c.readOnly = true
  · rw [exec_readOnly hro h]
    exact .refl me s
  cases c with
  | readDir | metadata | read | readToString => exact absurd rfl hro
  | touch | rename | removeFile => cases hc
  | createDirAll dir =>
    simp only [exec] at h
    split at h <;> cases h
    · exact .refl me s
    · refine ⟨fun _ _ h => h, fun _ => .inl rfl, fun p => ?_⟩
      obtain h | h := s.tree.get_mkdirs dir p
      · exact .inl h
      · exact .inr (.inr h)
  | createTemp dir =>
    simp only [exec] at h
    split at h
    · cases h; exact .refl me s
    · split at h
      · cases h; exact .refl me s
      · cases h; exact .refl me s
      · split at h <;> cases h
        rename_i hfree
        exact quiet_handOut hfree.1 hfree.2
  | writeAll p b =>
    simp only [exec] at h
    split at h
    · rename_i ht
      split at h
      · rename_i hg
        cases h
        exact quiet_put ht hg
      · cases h; exact .refl me s
    · cases h
  | syncAll p | setPermissions p =>
    simp only [exec] at h
    split at h <;> cases h
    exact .refl me s

/-- `touch` renews the time of a file, or fails and leaves everything as it is. -/
theorem exec_touch {p : PathBuf} {r : FsRes (.touch p)} (h : exec me ch s (.touch p) = some (r, s')) :
    (∃ b m, r = .ok () ∧ s.tree.get p = some (.file b m) ∧
        s' = s.setTree (s.tree.put p (.file b ch.now))) ∨
      ∃ e, r = .error e ∧ s' = s ∧ (e = .notFound → s.tree.get p = none) := by
  simp only [exec] at h
  split at h
  · cases h; exact .inr ⟨_, rfl, rfl, nofun⟩
  · split at h
    · rename_i e he
      cases h; exact .inr ⟨e, rfl, rfl, fun _ => locate_error he⟩
    · cases h; exact .inr ⟨_, rfl, rfl, nofun⟩
    · rename_i b m hg
      cases h; exact .inl ⟨b, m, rfl, locate_ok.1 hg, rfl⟩

theorem exec_removeFile {p : PathBuf} {r : FsRes (.removeFile p)}
    (h : exec me ch s (.removeFile p) = some (r, s')) :
    (∃ b m, r = .ok () ∧ s.tree.get p = some (.file b m) ∧ s' = s.setTree (s.tree.del p)) ∨
      ∃ e, r = .error e ∧ s' = s ∧ (ch.fault = true ∨ ∀ b m, s.tree.get p ≠ some (.file b m)) ∧
        (e = .notFound → s.tree.get p = none) := by
  simp only [exec] at h
  split at h
  · rename_i hf
    cases h; exact .inr ⟨_, rfl, rfl, .inl hf, nofun⟩
  · split at h
    · rename_i e he
      have hn := locate_error he
      cases h; exact .inr ⟨e, rfl, rfl, .inr (by simp [hn]), fun _ => hn⟩
    · rename_i hg
      rw [locate_ok] at hg
      cases h; exact .inr ⟨_, rfl, rfl, .inr (by simp [hg]), nofun⟩
    · rename_i b m hg
      cases h; exact .inl ⟨b, m, rfl, locate_ok.1 hg, rfl⟩

theorem exec_rename {src dest : PathBuf} {r : FsRes (.rename src dest)}
    (h : exec me ch s (.rename src dest) = some (r, s')) :
    (∃ b m, r = .ok () ∧ s.tree.get src = some (.file b m) ∧ s.tree.get dest ≠ some .dir ∧
        s.tree.get dest.parent = some .dir ∧ s' = s.renamed src dest b m) ∨
      ∃ e, r = .error e ∧ s' = s ∧ (ch.fault = true ∨ s.tree.get src = none ∨
        s.tree.get dest = some .dir ∨ s.tree.get dest.parent ≠ some .dir) := by
  simp only [exec] at h
  split at h
  · rename_i hf
    cases h; exact .inr ⟨_, rfl, rfl, .inl hf⟩
  · split at h
    · rename_i _ _ e he
      cases h; exact .inr ⟨e, rfl, rfl, .inr (.inl (locate_error he))⟩
    · cases h
    · rename_i hg hd
      cases h; exact .inr ⟨_, rfl, rfl, .inr (.inr (.inl hd))⟩
    · rename_i b m hg hd
      split at h
      · rename_i e he
        cases h
        exact .inr ⟨e, rfl, rfl, .inr (.inr (.inr (by simp [locate_error he])))⟩
      · rename_i hpar
        rw [locate_ok] at hpar
        cases h; exact .inr ⟨_, rfl, rfl, .inr (.inr (.inr (by simp [hpar])))⟩
      · rename_i hpar
        cases h
        exact .inl ⟨b, m, rfl, locate_ok.1 hg, hd, locate_ok.1 hpar, rfl⟩

/-! ## What the reading calls answer -/

theorem exec_metadata {p : PathBuf} {r : FsRes (.metadata p)}
    (h : exec me ch s (.metadata p) = some (r, s')) :
    (∃ n, r = .ok (metadataOf ch.now n) ∧ s.tree.get p = some n) ∨
      ∃ e, r = .error e ∧ (ch.fault = true ∨ s.tree.get p = none) ∧
        (e = .notFound → s.tree.get p = none) := by
  simp only [exec] at h
  split at h
  · rename_i hf
    cases h; exact .inr ⟨_, rfl, .inl hf, nofun⟩
  · split at h
    · rename_i e he
      have hn := locate_error he
      cases h; exact .inr ⟨e, rfl, .inr hn, fun _ => hn⟩
    · rename_i n hg
      cases h; exact .inl ⟨n, rfl, locate_ok.1 hg⟩

theorem exec_read {p : PathBuf} {r : FsRes (.read p)} (h : exec me ch s (.read p) = some (r, s')) :
    (∃ b m, r = .ok b ∧ s.tree.get p = some (.file b m)) ∨
      ∃ e, r = .error e ∧ (ch.fault = true ∨ ∀ b m, s.tree.get p ≠ some (.file b m)) := by
  simp only [exec] at h
  split at h
  · rename_i hf
    cases h; exact .inr ⟨_, rfl, .inl hf⟩
  · split at h
    · rename_i e he
      cases h; exact .inr ⟨e, rfl, .inr (by simp [locate_error he])⟩
    · rename_i hg
      rw [locate_ok] at hg
      cases h; exact .inr ⟨_, rfl, .inr (by simp [hg])⟩
    · rename_i b m hg
      cases h; exact .inl ⟨b, m, rfl, locate_ok.1 hg⟩

theorem exec_readToString {p : PathBuf} {r : FsRes (.readToString p)}
    (h : exec me ch s (.readToString p) = some (r, s')) :
    (∃ str m, r = .ok str ∧ s.tree.get p = some (.file (.ofStr str) m)) ∨
      ∃ e, r = .error e ∧
        (ch.fault = true ∨ ∀ str m, s.tree.get p ≠ some (.file (.ofStr str) m)) ∧
        (e = .notFound → s.tree.get p = none) := by
  simp only [exec] at h
  split at h
  · rename_i hf
    cases h; exact .inr ⟨_, rfl, .inl hf, nofun⟩
  · split at h
    · rename_i e he
      have hn := locate_error he
      cases h; exact .inr ⟨e, rfl, .inr (by simp [hn]), fun _ => hn⟩
    · rename_i hg
      rw [locate_ok] at hg
      cases h; exact .inr ⟨_, rfl, .inr (by simp [hg]), nofun⟩
    · rename_i b m hg
      rw [locate_ok] at hg
      split at h
      · rename_i str hs
        rw [Bytes.toStr_eq_some] at hs
        subst hs
        cases h; exact .inl ⟨str, m, rfl, hg⟩
      · rename_i hs
        cases h
        refine .inr ⟨_, rfl, .inr fun str m' hg' => ?_, nofun⟩
        rw [hg, Option.some.injEq, Node.file.injEq] at hg'
        rw [hg'.1, Bytes.toStr_ofStr] at hs
        cases hs

theorem exec_readDir {dir : PathBuf} {r : FsRes (.readDir dir)}
    (h : exec me ch s (.readDir dir) = some (r, s')) :
    (∃ entries, r = .ok entries ∧ s.tree.get dir = some .dir ∧ entries = ch.entries ∧
        Listing s.tree dir entries) ∨
      ∃ e, r = .error e ∧ (ch.fault = true ∨ s.tree.get dir ≠ some .dir) ∧
        (e = .notFound → s.tree.get dir = none) := by
  simp only [exec] at h
  split at h
  · rename_i hf
    cases h; exact .inr ⟨_, rfl, .inl hf, nofun⟩
  · split at h
    · rename_i e he
      have hn := locate_error he
      cases h; exact .inr ⟨e, rfl, .inr (by simp [hn]), fun _ => hn⟩
    · rename_i hg
      rw [locate_ok] at hg
      cases h; exact .inr ⟨_, rfl, .inr (by simp [hg]), nofun⟩
    · rename_i hg
      rw [locate_ok] at hg
      split at h <;> cases h
      rename_i hl
      exact .inl ⟨_, rfl, hg, rfl, hl⟩

theorem exec_readDir_missing {dir : PathBuf} {r : FsRes (.readDir dir)}
    (h : exec me ch s (.readDir dir) = some (r, s')) (hf : ch.fault = false)
    (hn : s.tree.get dir = none) (hu : s.tree.underFile dir = false) : r = .error .notFound := by
  simp only [exec, hf, Bool.false_eq_true, if_false, locate, hn, hu] at h
  cases h
  rfl

theorem exec_readToString_missing {p : PathBuf} {r : FsRes (.readToString p)}
    (h : exec me ch s (.readToString p) = some (r, s')) (hf : ch.fault = false)
    (hn : s.tree.get p = none) (hu : s.tree.underFile p = false) : r = .error .notFound := by
  simp only [exec, hf, Bool.false_eq_true, if_false, locate, hn, hu] at h
  cases h
  rfl

/-! ## Creating and writing a temporary file -/

theorem exec_createDirAll {dir : PathBuf} {r : FsRes (.createDirAll dir)}
    (h : exec me ch s (.createDirAll dir) = some (r, s')) :
    (r = .ok () ∧ s.tree.underFile dir = false ∧ s' = s.setTree (s.tree.mkdirs dir)) ∨
      ∃ e, r = .error e ∧ s' = s ∧ (ch.fault = true ∨ s.tree.underFile dir = true) := by
  simp only [exec] at h
  split at h
  · rename_i hf
    rw [Bool.or_eq_true] at hf
    cases h; exact .inr ⟨_, rfl, rfl, hf⟩
  · rename_i hf
    simp only [Bool.or_eq_true, not_or, Bool.not_eq_true] at hf
    cases h; exact .inl ⟨rfl, hf.2, rfl⟩

theorem exec_createTemp {dir : PathBuf} {r : FsRes (.createTemp dir)}
    (h : exec me ch s (.createTemp dir) = some (r, s')) :
    (∃ suffix, r = .ok (dir.child (tempName suffix)) ∧
        s.tree.get (dir.child (tempName suffix)) = none ∧
        s.temps (dir.child (tempName suffix)) = none ∧ s' = s.handOut me dir suffix ch.now) ∨
      ∃ e, r = .error e ∧ s' = s ∧ (ch.fault = true ∨ s.tree.get dir ≠ some .dir) := by
  simp only [exec] at h
  split at h
  · rename_i hf
    cases h; exact .inr ⟨_, rfl, rfl, .inl hf⟩
  · split at h
    · rename_i e he
      cases h; exact .inr ⟨e, rfl, rfl, .inr (by simp [locate_error he])⟩
    · rename_i hg
      rw [locate_ok] at hg
      cases h; exact .inr ⟨_, rfl, rfl, .inr (by simp [hg])⟩
    · split at h <;> cases h
      rename_i hfree
      exact .inl ⟨ch.suffix, rfl, hfree.1, hfree.2, rfl⟩

/-- Writing through the handle of a temporary file, whether or not its name is still there. -/
theorem exec_writeAll {p : PathBuf} {b : Bytes} {r : FsRes (.writeAll p b)}
    (h : exec me ch s (.writeAll p b) = some (r, s')) :
    ∃ b', (r = .ok () ∧ b' = b ∨ ∃ e, r = .error e ∧ ch.fault = true) ∧
      ((∃ b₀ m₀, s.tree.get p = some (.file b₀ m₀) ∧
          s' = s.setTree (s.tree.put p (.file b' ch.now))) ∨
        ((∀ b₀ m₀, s.tree.get p ≠ some (.file b₀ m₀)) ∧ s' = s)) := by
  simp only [exec] at h
  split at h
  · refine ⟨if ch.fault then ch.partialWrite else b, ?_, ?_⟩
    · have hr : r = if ch.fault then .error .other else .ok () := by
        split at h <;> cases h <;> rfl
      rw [hr]
      by_cases hf : ch.fault = true
      · exact .inr ⟨.other, by simp [hf], hf⟩
      · exact .inl ⟨by simp [hf], by simp [hf]⟩
    · split at h
      · rename_i b₀ m₀ hg
        cases h; exact .inl ⟨b₀, m₀, hg, rfl⟩
      · rename_i hg
        cases h; exact .inr ⟨hg, rfl⟩
  · cases h

theorem exec_syncAll {p : PathBuf} {r : FsRes (.syncAll p)}
    (h : exec me ch s (.syncAll p) = some (r, s')) :
    s' = s ∧ ∀ e, r = .error e → ch.fault = true := by
  simp only [exec] at h
  split at h <;> cases h
  by_cases hf : ch.fault = true <;> simp [hf]

theorem exec_setPermissions {p : PathBuf} {r : FsRes (.setPermissions p)}
    (h : exec me ch s (.setPermissions p) = some (r, s')) :
    s' = s ∧ ∀ e, r = .error e → ch.fault = true := by
  simp only [exec] at h
  split at h <;> cases h
  by_cases hf : ch.fault = true <;> simp [hf]

/-- A quiet call leaves every path alone that is no temporary file, and no directory it makes. -/
theorem exec_quiet_get {c : FsCall} {r : FsRes c} (hq : c.quiet = true)
    (h : exec me ch s c = some (r, s')) {p : PathBuf} (hp : ¬ TempPath p)
    (hc : ∀ dir, c = .createDirAll dir → ¬ p <+: dir) : s'.tree.get p = s.tree.get p := by
  obtain he | ⟨hn, hd⟩ := (exec_quiet hq h).get hp
  · exact he
  by_cases hro : c.readOnly = true
  · rw [exec_readOnly hro h]
  cases c with
  | readDir | metadata | read | readToString => exact absurd rfl hro
  | touch | rename | removeFile => cases hq
  | createDirAll dir =>
    obtain ⟨-, -, hv⟩ | ⟨e, -, hv, -⟩ := exec_createDirAll h
    · rw [hv]
      exact DirTree.get_mkdirs_of_not_prefix _ (hc dir rfl)
    · rw [hv]
  | createTemp dir =>
    obtain ⟨suffix, -, -, -, hv⟩ | ⟨e, -, hv, -⟩ := exec_createTemp h
    · rw [hv]
      refine DirTree.get_put_ne _ _ fun heq => hp ?_
      exact ⟨dir, suffix, heq⟩
    · rw [hv]
  | writeAll q b =>
    obtain ⟨b', -, ⟨b₀, m₀, hg, hv⟩ | ⟨-, hv⟩⟩ := exec_writeAll h
    · rw [hv]
      refine DirTree.get_put_ne _ _ fun heq => ?_
      rw [← heq, hn] at hg
      cases hg
    · rw [hv]
  | syncAll q => rw [(exec_syncAll h).1]
  | setPermissions q => rw [(exec_setPermissions h).1]

/-- A call leaves a path alone that it neither names nor makes a directory. -/
theorem exec_get_of_ne {c : FsCall} {r : FsRes c} (h : exec me ch s c = some (r, s')) {p : PathBuf}
    (hp : ¬ TempPath p) (hdir : ∀ dir, c = .createDirAll dir → ¬ p <+: dir) (htouch : c ≠ .touch p)
    (hremove : c ≠ .removeFile p) (hrename : ∀ q, c ≠ .rename p q ∧ c ≠ .rename q p) :
    s'.tree.get p = s.tree.get p := by
  by_cases hq : c.quiet = true
  · exact exec_quiet_get hq h hp hdir
  cases c with
  | touch q =>
    obtain ⟨b, m, -, -, hv⟩ | ⟨e, -, hv, -⟩ := exec_touch h
    · rw [hv]
      exact DirTree.get_put_ne _ _ fun heq => htouch (heq ▸ rfl)
    · rw [hv]
  | removeFile q =>
    obtain ⟨b, m, -, -, hv⟩ | ⟨e, -, hv, -⟩ := exec_removeFile h
    · rw [hv]
      exact DirTree.get_del_ne _ fun heq => hremove (heq ▸ rfl)
    · rw [hv]
  | rename src dest =>
    obtain ⟨b, m, -, -, -, -, hv⟩ | ⟨e, -, hv, -⟩ := exec_rename h
    · have hsrc : p ≠ src := fun heq => (hrename dest).1 (heq ▸ rfl)
      have hdest : p ≠ dest := fun heq => (hrename src).2 (heq ▸ rfl)
      rw [hv, State.renamed, State.setTree_tree, DirTree.get_put_ne _ _ hdest,
        DirTree.get_del_ne _ hsrc]
    · rw [hv]
  | _ => exact absurd rfl hq

end

end Fs
