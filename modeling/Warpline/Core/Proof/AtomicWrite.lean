import Warpline.Conc.Calls
import Warpline.Core.Registry
import Warpline.Fs.Effect

/-!
# Publishing a file by rename (`atomic_write`)

`Actor view T me A R`: the setting `T` of a thread `me` that owns its temporary files, whose
choices are within `A` and which keeps the assertion `R`; `view` is the files' part of the state.
For such a thread `Actor.sat_atomicWrite` reduces `atomic_write` to its one visible step, the rename:
either that step was made, with the file holding exactly the bytes, or `R` still holds. `Steady`
are the circumstances in which it cannot fail.
-/

set_option autoImplicit false

namespace Warpline

open Conc Fs

variable {τ σ : Type} [DecidableEq τ]

/-- A thread that works on the files for an assertion `R` of its own: its reads, its failures and
what it does to its own temporary files keep `R`. -/
structure Actor (view : σ → State τ) (T : Thread σ FsCall FsRes) (me : τ) (A : Choice → Prop)
    (R : σ → Prop) : Prop where
  exec : ∀ {s c r s'}, R s → T.exec s c r s' →
    ∃ ch, A ch ∧ Fs.exec me ch (view s) c = some (r, view s')
  stable : ∀ c, T.Stable (some c) R
  temps : ∀ {c s s' p}, R s → T.rely (some c) s s' → (view s).temps p = some me →
    (view s').temps p = some me ∧
      ∀ b m, (view s').tree.get p = some (.file b m) → (view s).tree.get p = some (.file b m)
  same : ∀ {c r s s'}, (c.quiet = true ∨ ∃ e, r = .error e) → R s → T.exec s c r s' →
    view s' = view s → T.guar c s s' ∧ R s'
  quiet : ∀ {c r s s'}, c.quiet = true → R s → T.exec s c r s' → Quiet me (view s) (view s') →
    T.guar c s s' ∧ R s'
  cleanup : ∀ {p r s s'}, R s → (view s).temps p = some me → T.exec s (.removeFile p) r s' →
    view s' = (view s).setTree ((view s).tree.del p) → T.guar (.removeFile p) s s' ∧ R s'

/-- Nothing is in the way of a write to `dest` in `dir`. -/
structure Steady (view : σ → State τ) (T : Thread σ FsCall FsRes) (me : τ) (A : Choice → Prop)
    (R : σ → Prop) (dir dest : PathBuf) : Prop where
  noFault : ∀ ch, A ch → ch.fault = false
  keep : ∀ {c s s' p}, R s → T.rely (some c) s s' → (view s).temps p = some me →
    (view s').tree.get p = (view s).tree.get p
  dirs : ∀ {c s s'}, R s → T.rely (some c) s s' → (view s).tree.get dir = some .dir →
    (view s').tree.get dir = some .dir
  clear : ∀ {s}, R s → (view s).tree.underFile dir = false
  notDir : ∀ {s}, R s → (view s).tree.get dest ≠ some .dir
  parent : dest.parent = dir

/-- A thread between creating its temporary file and publishing it. -/
structure Holding (view : σ → State τ) (T : Thread σ FsCall FsRes) (me : τ) (A : Choice → Prop)
    (R : σ → Prop) (dir dest tmp : PathBuf) (P : Bytes → Nat → Prop) (s : σ) : Prop where
  inv : R s
  mine : (view s).temps tmp = some me
  holds : ∀ b m, (view s).tree.get tmp = some (.file b m) → P b m
  steady : Steady view T me A R dir dest →
    (∃ b m, (view s).tree.get tmp = some (.file b m)) ∧ (view s).tree.get dir = some .dir

/-- A step of `me` that renames its temporary file over `dest`. -/
structure Published (view : σ → State τ) (T : Thread σ FsCall FsRes) (me : τ) (A : Choice → Prop)
    (dest : PathBuf) (bytes : Bytes) (tmp : PathBuf) (mtime : Nat) (s s' : σ) : Prop where
  mine : (view s).temps tmp = some me
  held : (view s).tree.get tmp = some (.file bytes mtime)
  clock : ∃ ch, A ch ∧ ch.now = mtime
  notDir : (view s).tree.get dest ≠ some .dir
  exec : T.exec s (.rename tmp dest) (.ok ()) s'
  view_eq : view s' = (view s).renamed tmp dest bytes mtime

/-- A step that renews the time of `p`. -/
structure Touched (view : σ → State τ) (T : Thread σ FsCall FsRes) (A : Choice → Prop)
    (p : PathBuf) (bytes : Bytes) (mtime now : Nat) (s s' : σ) : Prop where
  was : (view s).tree.get p = some (.file bytes mtime)
  clock : ∃ ch, A ch ∧ ch.now = now
  exec : T.exec s (.touch p) (.ok ()) s'
  view_eq : view s' = (view s).setTree ((view s).tree.put p (.file bytes now))

variable {view : σ → State τ} {T : Thread σ FsCall FsRes} {me : τ} {A : Choice → Prop}
  {R S : σ → Prop} {s₁ s₂ : σ} {dir dest tmp : PathBuf} {P : Bytes → Nat → Prop}

theorem Holding.stable (h : Actor view T me A R) {c : FsCall} :
    T.Stable (some c) (Holding view T me A R dir dest tmp P) := by
  intro s s' hs hr
  obtain ⟨hm, hf⟩ := h.temps hs.inv hr hs.mine
  refine ⟨h.stable c s s' hs.inv hr, hm, fun b m hb => hs.holds b m (hf b m hb), fun hst => ?_⟩
  obtain ⟨⟨b, m, hb⟩, hd⟩ := hs.steady hst
  exact ⟨⟨b, m, (hst.keep hs.inv hr hs.mine).trans hb⟩, hst.dirs hs.inv hr hd⟩

omit [DecidableEq τ] in
/-- What is held depends on the files only. -/
theorem Holding.congr (hs : Holding view T me A R dir dest tmp P s₁) (hR : R s₂)
    (hv : view s₂ = view s₁) : Holding view T me A R dir dest tmp P s₂ :=
  ⟨hR, by rw [hv]; exact hs.mine, by rw [hv]; exact hs.holds, by rw [hv]; exact hs.steady⟩

theorem sat_io {α : Type} {Q : Except Error α → σ → Prop} {call : FsM (Except IoError α)} {s : σ}
    (h : Sat T (fun r => Q (r.mapError Error.io)) call s) : Sat T Q (io call).run s :=
  Sat.mapErr h

/-- The calls of `atomic_write` on its temporary file, up to the rename. -/
inductive TempCall (tmp : PathBuf) (bytes : Bytes) : FsCall → Prop
  | writeAll : TempCall tmp bytes (.writeAll tmp bytes)
  | syncAll : TempCall tmp bytes (.syncAll tmp)
  | setPermissions : TempCall tmp bytes (.setPermissions tmp)
  | removeFile : TempCall tmp bytes (.removeFile tmp)

omit [DecidableEq τ] in
/-- `atomic_write` in any setting: its calls keep `R`, but for a rename that succeeds. -/
theorem sat_atomicWrite_calls {P : PathBuf → Prop} {bytes : Bytes} {s : σ}
    (hst : ∀ c, T.Stable (some c) R) (hs : R s)
    (hdir : ∀ {s r s'}, R s → T.exec s (.createDirAll dir) r s' →
      T.guar (.createDirAll dir) s s' ∧ R s')
    (htemp : ∀ {s r s'}, R s → T.exec s (.createTemp dir) r s' →
      T.guar (.createTemp dir) s s' ∧ R s' ∧ ∀ tmp, r = .ok tmp → P tmp)
    (hwork : ∀ {tmp c s r s'}, P tmp → TempCall tmp bytes c → R s → T.exec s c r s' →
      T.guar c s s' ∧ R s')
    (hrename : ∀ {tmp s r s'}, P tmp → R s → T.exec s (.rename tmp dest) r s' →
      T.guar (.rename tmp dest) s s' ∧ match r with
        | .ok _ => S s'
        | .error _ => R s') :
    Sat T (fun r s => match r with
      | .ok _ => S s
      | .error _ => R s) (atomicWrite dir dest bytes).run s := by
  refine Sat.bindE (sat_io (Sat.perform R (hst _) hs fun s r s' hs he => ?_))
  refine ⟨(hdir hs he).1, ?_⟩
  have hs := (hdir hs he).2
  rcases r with e | _
  · exact hs
  refine Sat.bindE (sat_io (Sat.perform R (hst _) hs fun s r s' hs he => ?_))
  obtain ⟨hg, hs, htmp⟩ := htemp hs he
  refine ⟨hg, ?_⟩
  rcases r with e | tmp
  · exact hs
  have htmp : P tmp := htmp tmp rfl
  have hcall : ∀ {c : FsCall} {s : σ}, TempCall tmp bytes c → R s →
      Sat T (fun _ => R) (Prog.perform c) s :=
    fun hc hs => Sat.perform R (hst _) hs fun _ _ _ hs he => hwork htmp hc hs he
  suffices hall : Sat T (fun r s => match r with
      | .ok _ => S s
      | .error _ => R s)
      (do io (writeAll tmp bytes); io (syncAll tmp); io (setPermissions tmp)
          io (rename tmp dest) : ExceptT Error FsM Unit).run s' by
    refine Sat.onError (hall.mono fun r s hr => ?_)
    cases r with
    | ok _ => exact hr
    | error e => exact Sat.bind ((hcall .removeFile hr).mono fun _ _ hs => hs)
  refine Sat.bindE (sat_io ((hcall .writeAll hs).mono fun r s hs => ?_))
  rcases r with e | _
  · exact hs
  refine Sat.bindE (sat_io ((hcall .syncAll hs).mono fun r s hs => ?_))
  rcases r with e | _
  · exact hs
  refine Sat.bindE (sat_io ((hcall .setPermissions hs).mono fun r s hs => ?_))
  rcases r with e | _
  · exact hs
  refine sat_io (Sat.perform R (hst _) hs fun s r s' hs he => ?_)
  obtain ⟨hg, hr⟩ := hrename htmp hs he
  refine ⟨hg, ?_⟩
  cases r <;> exact hr

/-- A setting with fewer behaviours and a weaker promise. -/
theorem Actor.weaken {T' : Thread σ FsCall FsRes} (h : Actor view T me A R)
    (hx : ∀ {s c r s'}, T'.exec s c r s' → T.exec s c r s')
    (hr : ∀ {c s s'}, T'.rely (some c) s s' → T.rely (some c) s s')
    (hg : ∀ {s c r s'}, T'.exec s c r s' → T.guar c s s' → T'.guar c s s') :
    Actor view T' me A R where
  exec hs he := h.exec hs (hx he)
  stable c s s' hs hrel := h.stable c s s' hs (hr hrel)
  temps hs hrel ht := h.temps hs (hr hrel) ht
  same hc hs he hv := by
    obtain ⟨hgc, hR⟩ := h.same hc hs (hx he) hv
    exact ⟨hg he hgc, hR⟩
  quiet hc hs he hq := by
    obtain ⟨hgc, hR⟩ := h.quiet hc hs (hx he) hq
    exact ⟨hg he hgc, hR⟩
  cleanup hs ht he hv := by
    obtain ⟨hgc, hR⟩ := h.cleanup hs ht (hx he) hv
    exact ⟨hg he hgc, hR⟩

/-- Programs that only read. -/
theorem Actor.sat_reading (h : Actor view T me A R) {α : Type} {p : FsM α} {s : σ}
    (hp : p.Calls fun c => c.readOnly = true) (hs : R s) : Sat T (fun _ => R) p s := by
  refine hp.sat (fun c _ => h.stable c) (fun c s r s' hc hs he => ?_) hs
  obtain ⟨ch, -, hx⟩ := h.exec hs he
  exact h.same (.inl (FsCall.quiet_of_readOnly hc)) hs he (exec_readOnly hc hx)

/-- `touch`, whose failure changes nothing. -/
theorem Actor.sat_touch (h : Actor view T me A R) {p : PathBuf} {s : σ} (hs : R s)
    (ht : ∀ {s s' b m now}, R s → Touched view T A p b m now s s' → T.guar (.touch p) s s' ∧ S s') :
    Sat T (fun r s => match r with
      | .ok _ => S s
      | .error e => R s ∧ (e = .notFound → (view s).tree.get p = none)) (touch p) s := by
  refine Sat.perform R (h.stable _) hs fun s₁ r s₂ hs₁ he => ?_
  obtain ⟨ch, ha, hx⟩ := h.exec hs₁ he
  obtain ⟨b, m, rfl, hb, hv⟩ | ⟨e, rfl, hv, hn⟩ := exec_touch hx
  · exact ht hs₁ ⟨hb, ⟨ch, ha, rfl⟩, he, hv⟩
  · obtain ⟨hg, hR⟩ := h.same (.inr ⟨e, rfl⟩) hs₁ he hv
    exact ⟨hg, hR, by rw [hv]; exact hn⟩

/-- Dropping the temporary file. -/
theorem Actor.sat_dropTemp (h : Actor view T me A R) {s : σ}
    (hs : Holding view T me A R dir dest tmp P s) : Sat T (fun _ => R) (dropTemp tmp) s := by
  refine Sat.bind (Sat.perform _ (Holding.stable h) hs fun s₁ r s₂ hs₁ he => ?_)
  obtain ⟨ch, -, hx⟩ := h.exec hs₁.inv he
  obtain ⟨b, m, -, -, hv⟩ | ⟨e, rfl, hv, -⟩ := exec_removeFile hx
  · exact h.cleanup hs₁.inv hs₁.mine he hv
  · exact h.same (.inr ⟨e, rfl⟩) hs₁.inv he hv

/-- A call on the handle that does not write. -/
theorem Holding.handle (h : Actor view T me A R) {c : FsCall} {Q : FsRes c → σ → Prop}
    (hq : c.quiet = true) (hc : ∀ {ch s r s'}, Fs.exec me ch s c = some (r, s') →
      s' = s ∧ ∀ e, r = .error e → ch.fault = true)
    {s : σ} (hs : Holding view T me A R dir dest tmp P s)
    (hQ : ∀ r s, Holding view T me A R dir dest tmp P s →
      (∀ e, r = .error e → ¬ Steady view T me A R dir dest) → Q r s) :
    Sat T Q (Prog.perform c) s := by
  refine Sat.perform _ (Holding.stable h) hs fun s₁ r s₂ hs₁ he => ?_
  obtain ⟨ch, ha, hx⟩ := h.exec hs₁.inv he
  obtain ⟨hv, hf⟩ := hc hx
  obtain ⟨hg, hR⟩ := h.same (.inl hq) hs₁.inv he hv
  refine ⟨hg, hQ r _ (hs₁.congr hR hv) fun e hr hst => ?_⟩
  rw [hst.noFault ch ha] at hf
  exact absurd (hf e hr) (by decide)

omit [DecidableEq τ] in
/-- Writing to the file leaves it with what was written, at the time it was written. -/
theorem Holding.written (hs : Holding view T me A R dir dest tmp (fun _ _ => True) s₁) {now : Nat}
    {b : Bytes} (hR : R s₂)
    (he : (∃ b₀ m₀, (view s₁).tree.get tmp = some (.file b₀ m₀) ∧
        view s₂ = (view s₁).setTree ((view s₁).tree.put tmp (.file b now))) ∨
      ((∀ b₀ m₀, (view s₁).tree.get tmp ≠ some (.file b₀ m₀)) ∧ view s₂ = view s₁)) :
    Holding view T me A R dir dest tmp (fun b' m' => b' = b ∧ m' = now) s₂ := by
  obtain ⟨b₀, m₀, hg, hv⟩ | ⟨hg, hv⟩ := he
  · have hne : tmp ≠ [] := by
      rintro rfl
      cases hg
    have hnew := (view s₁).tree.get_put (.file b now) hne
    refine ⟨hR, by rw [hv]; exact hs.mine, fun b' m' hb => ?_, fun hst => ?_⟩
    · rw [hv, State.setTree_tree, hnew, Option.some.injEq, Node.file.injEq] at hb
      exact ⟨hb.1.symm, hb.2.symm⟩
    · have hd := (hs.steady hst).2
      rw [hv, State.setTree_tree]
      refine ⟨⟨b, now, hnew⟩, ?_⟩
      rw [DirTree.get_put_ne _ _ fun h => ?_]
      · exact hd
      · rw [h, hg] at hd
        cases hd
  · refine ⟨hR, by rw [hv]; exact hs.mine, fun b' m' hb => absurd (hv ▸ hb) (hg b' m'), ?_⟩
    rw [hv]
    exact hs.steady

/-- **`atomic_write`**: it succeeds by renaming a file with exactly the bytes to `dest`, or it
fails, only where something was in the way, and `R` still holds. -/
theorem Actor.sat_atomicWrite (h : Actor view T me A R) {bytes : Bytes} {s : σ} (hs : R s)
    (hpub : ∀ {s s' tmp m}, R s → Published view T me A dest bytes tmp m s s' →
      T.guar (.rename tmp dest) s s' ∧ S s') :
    Sat T (fun r s => match r with
      | .ok _ => S s
      | .error _ => R s ∧ ¬ Steady view T me A R dir dest) (atomicWrite dir dest bytes).run s := by
  -- create_dir_all
  refine Sat.bindE (sat_io (Sat.perform R (h.stable _) hs fun s₁ r s₂ hs₁ he => ?_))
  obtain ⟨ch, ha, hx⟩ := h.exec hs₁ he
  obtain ⟨hg, hs₂⟩ := h.quiet (c := .createDirAll dir) rfl hs₁ he (exec_quiet rfl hx)
  refine ⟨hg, ?_⟩
  obtain ⟨rfl, hu, hv⟩ | ⟨e, rfl, -, hf⟩ := exec_createDirAll hx
  swap
  · refine ⟨hs₂, fun hst => ?_⟩
    rw [hst.noFault ch ha, hst.clear hs₁] at hf
    exact absurd hf (by decide)
  -- create the temporary file
  refine Sat.bindE (sat_io (Sat.perform (fun s => R s ∧
      (Steady view T me A R dir dest → (view s).tree.get dir = some .dir)) ?_
    ⟨hs₂, fun _ => by rw [hv]; exact DirTree.get_mkdirs_self _ hu⟩ fun s₃ r s₄ hs₃ he => ?_))
  · rintro s s' ⟨hR, hd⟩ hr
    exact ⟨h.stable _ _ _ hR hr, fun hst => hst.dirs hR hr (hd hst)⟩
  obtain ⟨ch, ha, hx⟩ := h.exec hs₃.1 he
  obtain ⟨hg, hs₄⟩ := h.quiet (c := .createTemp dir) rfl hs₃.1 he (exec_quiet rfl hx)
  refine ⟨hg, ?_⟩
  obtain ⟨suffix, rfl, hfree, -, hv⟩ | ⟨e, rfl, -, hf⟩ := exec_createTemp hx
  swap
  · refine ⟨hs₄, fun hst => ?_⟩
    rw [hst.noFault ch ha] at hf
    obtain hf | hf := hf
    · exact absurd hf (by decide)
    · exact hf (hs₃.2 hst)
  have hnew : Holding view T me A R dir dest (dir.child (tempName suffix)) (fun _ _ => True)
      s₄ := by
    refine ⟨hs₄, by rw [hv]; exact Function.update_self .., fun _ _ _ => trivial, fun hst => ?_⟩
    rw [hv]
    refine ⟨⟨[], ch.now, DirTree.get_put _ _ (PathBuf.child_ne_nil _ _)⟩, ?_⟩
    rw [← hs₃.2 hst]
    refine DirTree.get_put_ne _ _ fun hd => ?_
    have := congrArg List.length hd
    simp [PathBuf.child] at this
  refine Sat.onError ?_
  generalize dir.child (tempName suffix) = tmp at hnew ⊢
  -- what is left returns early with the temporary file still in hand, or after the rename
  suffices hwork : Sat T (fun r s => match r with
      | .ok _ => S s
      | .error _ => (∃ P, Holding view T me A R dir dest tmp P s) ∧
          ¬ Steady view T me A R dir dest)
      (do io (writeAll tmp bytes); io (syncAll tmp); io (setPermissions tmp)
          io (rename tmp dest) : ExceptT Error FsM Unit).run s₄ by
    refine hwork.mono fun r s hr => ?_
    cases r with
    | ok a => exact hr
    | error e =>
      obtain ⟨⟨P, hP⟩, hn⟩ := hr
      exact (h.sat_dropTemp hP).mono fun _ s hR => ⟨hR, hn⟩
  -- write_all
  refine Sat.bindE (sat_io (Sat.perform _ (Holding.stable h) hnew fun s₅ r s₆ hs₅ he => ?_))
  obtain ⟨ch, ha, hx⟩ := h.exec hs₅.inv he
  obtain ⟨hg, hs₆⟩ := h.quiet (c := .writeAll tmp bytes) rfl hs₅.inv he (exec_quiet rfl hx)
  refine ⟨hg, ?_⟩
  obtain ⟨b', hb', hput⟩ := exec_writeAll hx
  have hs₆ := hs₅.written hs₆ hput
  obtain ⟨rfl, rfl⟩ | ⟨e, rfl, hf⟩ := hb'
  swap
  · exact ⟨⟨_, hs₆⟩, fun hst => by rw [hst.noFault ch ha] at hf; cases hf⟩
  -- sync_all and set_permissions
  refine Sat.bindE (sat_io (Holding.handle h rfl exec_syncAll hs₆ fun r s hs hn => ?_))
  cases r with
  | error e => exact ⟨⟨_, hs⟩, hn e rfl⟩
  | ok _ =>
  refine Sat.bindE (sat_io (Holding.handle h rfl exec_setPermissions hs fun r s hs hn => ?_))
  cases r with
  | error e => exact ⟨⟨_, hs⟩, hn e rfl⟩
  | ok _ =>
  -- persist
  refine sat_io (Sat.perform _ (Holding.stable h) hs fun s₇ r s₈ hs₇ hmv => ?_)
  obtain ⟨ch', ha', hx⟩ := h.exec hs₇.inv hmv
  obtain ⟨b, m, rfl, hb, hdir, -, hv⟩ | ⟨e, rfl, hv, hf⟩ := exec_rename hx
  · obtain ⟨rfl, rfl⟩ := hs₇.holds b m hb
    exact hpub hs₇.inv ⟨hs₇.mine, hb, ⟨ch, ha, rfl⟩, hdir, hmv, hv⟩
  · obtain ⟨hg, hR⟩ := h.same (.inr ⟨e, rfl⟩) hs₇.inv hmv hv
    refine ⟨hg, ⟨_, hs₇.congr hR hv⟩, fun hst => ?_⟩
    obtain ⟨⟨b, m, hb⟩, hd⟩ := hs₇.steady hst
    rw [hst.noFault ch' ha', hb, hst.parent, hd] at hf
    simp at hf
    exact hst.notDir hs₇.inv hf

omit [DecidableEq τ] in
/-- The files after a rename. -/
theorem renamed_get {t : τ} {s s' : State τ} {tmp dest : PathBuf} {bytes : Bytes} {m : Nat}
    (hv : s' = s.renamed tmp dest bytes m) (hmine : s.temps tmp = some t)
    (hdest : ¬ TempPath dest) (hdir : s.tree.get dest ≠ some .dir) :
    s'.tree.get dest = some (.file bytes m) ∧
      ∀ p, p ≠ dest → s.temps p ≠ some t → s'.tree.get p = s.tree.get p := by
  subst hv
  refine ⟨DirTree.get_put _ _ ?_, fun p hp ht => ?_⟩
  · rintro rfl
    exact hdir rfl
  · rw [State.renamed, State.setTree_tree, DirTree.get_put_ne _ _ hp, DirTree.get_del_ne]
    rintro rfl
    exact ht hmine

end Warpline
