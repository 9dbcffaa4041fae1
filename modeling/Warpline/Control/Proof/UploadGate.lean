import Warpline.Control.Handler
import Warpline.Control.Proof.Gate
import Warpline.Control.Proof.UploadLinear
import Warpline.Core.Proof.StageClean

/-!
# Functions are published for issued keys only

What an upload may do (`PublishCall`): touch the paths of its names and of digests, and write the row
of its own function with the digest of its module. Behind the gate it does so for a key stored for
its tenant. Every row of the table of functions, and every pointer that has changed, has been written
by a call (`Recorded`). A 201 needs the row and its commit (`needs_uploadHandler`), and every error
has the status of one (`Fails`). `upload_admits_issued` puts these together.
-/

set_option autoImplicit false

namespace Warpline

open Conc Fs

/-! ## An upload's calls -/

section
variable {W : Wasm} {ids : TenantIds} {tenant func : Str} {wasm : Bytes}

/-- The statements of an upload for `(tenant, func)` of a module with digest `hash`. -/
inductive PublishDbCall (ids : TenantIds) (tenant func hash : Str) : DbCall → Prop
  | beginTx : PublishDbCall ids tenant func hash .beginTx
  | setLocal (setting : String) : PublishDbCall ids tenant func hash (.setLocal setting)
  | lockTenant : PublishDbCall ids tenant func hash (.lockTenant tenant)
  | tenantId : PublishDbCall ids tenant func hash (.tenantId tenant)
  | countOthers : PublishDbCall ids tenant func hash (.countOthers (ids.id tenant) func)
  | upsert : PublishDbCall ids tenant func hash (.upsert ⟨ids.id tenant, func, hash⟩)
  | functionHash : PublishDbCall ids tenant func hash (.functionHash tenant func)
  | commit : PublishDbCall ids tenant func hash .commit
  | rollback : PublishDbCall ids tenant func hash .rollback

/-- What an upload for `(tenant, func)` of a module with digest `hash` may call. -/
def PublishCall (ids : TenantIds) (tenant func hash : Str) : UploadCall → Prop
  | .inl c => RegistryCall tenant func true c
  | .inr c => PublishDbCall ids tenant func hash c

variable {hash : Str} {s : Unit}

end

/-! ## What an answer needs -/

section
variable {W : Wasm} {engine : W.Engine} {maxFunctions : Int} {tenant func : Str} {staged : Staged}
  {wasm : Bytes}

end

/-! ## The handler -/

/-- Its names are valid. -/
def UploadRequest.Named (req : UploadRequest) : Prop :=
  validName req.tenant = true ∧ validName req.func = true

/-- An upload may publish its module under its names. -/
def UploadRequest.visit (W : Wasm) (ids : TenantIds) (req : UploadRequest) : Visit UploadCall where
  tenant := req.tenant
  bearer := bearerFrom req.headers
  may := fun _ c => req.Named ∧ ∃ wasm, req.wasm = .ok wasm ∧
    PublishCall ids req.tenant req.func (W.digest wasm) c

section
variable {W : Wasm} {τ : Type} {L : AuthCrate} {digest : Bytes → Str}
  {fromSlice : List UInt8 → Except Str AdminConfigBody} {admin : AdminState} {hashtext : Str → Int}
  {ids : TenantIds} {reqs : τ → UploadRequest}

abbrev UploadGateState (ids : TenantIds) (τ : Type) (L : AuthCrate) :=
  GateState τ (PublishState ids τ) UploadRes L

variable [DecidableEq τ] {s : UploadGateState ids τ L} {t : τ}

end

/-! ## Rows -/

section
variable {τ : Type} {P : FunctionRow → Prop} {db db' : Db τ} {me : τ}

/-- All rows are `P`, the committed ones and those of open transactions. -/
structure Db.RowsAre (P : FunctionRow → Prop) (db : Db τ) : Prop where
  functions : ∀ id func hash, db.functions.hash id func = some hash → P ⟨id, func, hash⟩
  txs : ∀ u writes, db.txs u = some writes → ∀ row ∈ writes, P row

theorem Db.RowsAre.visible (h : db.RowsAre P) {writes : List FunctionRow}
    (hw : ∀ row ∈ writes, P row) {id : Nat} {func hash : Str}
    (hv : (db.visible writes).hash id func = some hash) : P ⟨id, func, hash⟩ := by
  induction writes using List.reverseRecOn with
  | nil => exact h.functions _ _ _ hv
  | append_singleton writes row ih =>
    rw [Db.visible, List.foldl_concat, Functions.hash_upsert] at hv
    split at hv
    · rename_i hk
      obtain ⟨rfl, rfl⟩ := hk
      cases hv
      exact hw row (by simp)
    · exact ih (fun row hrow => hw row (by simp [hrow])) hv

variable [DecidableEq τ]

theorem Db.RowsAre.setTx (h : db.RowsAre P) {writes : List FunctionRow}
    (hw : ∀ row ∈ writes, P row) : (db.setTx me (some writes)).RowsAre P := by
  refine ⟨h.functions, fun u ws hu => ?_⟩
  have hu : Function.update db.txs me (some writes) u = some ws := hu
  rw [Function.update_apply] at hu
  split at hu
  · cases hu
    exact hw
  · exact h.txs u ws hu

theorem Db.RowsAre.endTx (h : db.RowsAre P) {functions : Functions}
    (hf : ∀ id func hash, functions.hash id func = some hash → P ⟨id, func, hash⟩) :
    (db.endTx me functions).RowsAre P := by
  refine ⟨hf, fun u ws hu => ?_⟩
  have hu : Function.update db.txs me none u = some ws := hu
  rw [Function.update_apply] at hu
  split at hu
  · cases hu
  · exact h.txs u ws hu

/-- A call adds the row it writes, and no other. -/
theorem Db.RowsAre.exec (h : db.RowsAre P) {hashtext : Str → Int} {ch : DbChoice} {c : DbCall}
    {r : DbRes c} (hx : Db.exec hashtext me ch db c = some (r, db'))
    (hc : ∀ row, c = .upsert row → P row) : db'.RowsAre P := by
  cases c with
  | beginTx =>
    obtain ⟨-, rfl⟩ | ⟨-, rfl⟩ := Db.exec_beginTx hx
    · exact h.setTx fun row hrow => by cases hrow
    · exact h
  | setLocal => exact Db.exec_setLocal hx ▸ h
  | lockTenant tenant =>
    obtain ⟨-, -, rfl⟩ | ⟨-, rfl⟩ := Db.exec_lockTenant hx
    · exact ⟨h.functions, h.txs⟩
    · exact h
  | tenantId => exact (Db.exec_tenantId hx).1 ▸ h
  | countOthers => exact (Db.exec_countOthers hx).1 ▸ h
  | upsert row =>
    obtain ⟨writes, hw, -, rfl⟩ | ⟨-, rfl⟩ := Db.exec_upsert hx
    · have hwrites : ∀ row' ∈ writes ++ [row], P row' := by
        intro row' hrow
        obtain hrow | hrow := List.mem_append.1 hrow
        · exact h.txs _ _ hw row' hrow
        · exact hc row' (by rw [List.mem_singleton.1 hrow])
      exact ⟨h.functions, (h.setTx hwrites).txs⟩
    · exact h
  | functionHash => exact (Db.exec_functionHash hx).1 ▸ h
  | commit =>
    obtain ⟨writes, hw, ⟨-, rfl⟩ | ⟨-, -, rfl⟩⟩ := Db.exec_commit hx
    · exact h.endTx fun _ _ _ hv => h.visible (h.txs _ _ hw) hv
    · exact h.endTx h.functions
  | rollback => exact Db.exec_rollback hx ▸ h.endTx h.functions

end

/-! ## The record -/

theorem Db.RowsAre.mono {τ : Type} {P Q : FunctionRow → Prop} {db : Db τ} (h : db.RowsAre P)
    (hPQ : ∀ row, P row → Q row) : db.RowsAre Q :=
  ⟨fun _ _ _ hv => hPQ _ (h.functions _ _ _ hv), fun u ws hu row hrow => hPQ _ (h.txs u ws hu row hrow)⟩

section
variable {W : Wasm} {τ : Type} {L : AuthCrate} {parseHost : Str → Option Str} {digest : Bytes → Str}
  {fromSlice : List UInt8 → Except Str AdminConfigBody} {admin : AdminState} {hashtext : Str → Int}
  {ids : TenantIds} {reqs : τ → UploadRequest} {files : State τ} {s s' : UploadGateState ids τ L}

/-- The row has been written by a call, which may not have committed it. -/
def RowWritten (s : UploadGateState ids τ L) (row : FunctionRow) : Prop :=
  ∃ t r, (t, ⟨.inr (.inr (.upsert row)), r⟩) ∈ s.trace

/-- A file-system call has been made that may change no pointer but that of `(tenant, func)`. -/
def PointerWritten (s : UploadGateState ids τ L) (tenant func : Str) : Prop :=
  ∃ t c r, (t, ⟨.inr (.inl c), r⟩) ∈ s.trace ∧
    ∀ tenant' func', RegistryCall tenant' func' true c → tenant' = tenant ∧ func' = func

/-- Every row has been written by a call, and every pointer that is not as in `files`. -/
structure Recorded (files : State τ) (s : UploadGateState ids τ L) : Prop where
  rows : s.state.back.shared.db.RowsAre (RowWritten s)
  pointers : ∀ tenant func path, pointerPath tenant func = some path →
    s.state.back.shared.files.tree.get path = files.tree.get path ∨ PointerWritten s tenant func

theorem RowWritten.mono {row : FunctionRow} (h : RowWritten s row) (htr : s.trace ⊆ s'.trace) :
    RowWritten s' row := by
  obtain ⟨t, r, hm⟩ := h
  exact ⟨t, r, htr hm⟩

theorem PointerWritten.mono {tenant func : Str} (h : PointerWritten s tenant func)
    (htr : s.trace ⊆ s'.trace) : PointerWritten s' tenant func := by
  obtain ⟨t, c, r, hm, honly⟩ := h
  exact ⟨t, c, r, htr hm, honly⟩

/-- What changes no pointer keeps the record of them. -/
theorem Recorded.pointers_keep (h : Recorded files s) (htr : s.trace ⊆ s'.trace) {tenant func : Str}
    {path : PathBuf} (hp : pointerPath tenant func = some path)
    (hsame : s'.state.back.shared.files.tree.get path = s.state.back.shared.files.tree.get path) :
    s'.state.back.shared.files.tree.get path = files.tree.get path ∨ PointerWritten s' tenant func := by
  rw [hsame]
  exact (h.pointers tenant func path hp).imp_right fun hw => hw.mono htr

/-- What changes neither rows nor files keeps the record. -/
theorem Recorded.keep (h : Recorded files s) (htr : s.trace ⊆ s'.trace)
    (hf : s'.state.back.shared.files = s.state.back.shared.files)
    (hdb : ∀ P, s.state.back.shared.db.RowsAre P → s'.state.back.shared.db.RowsAre P) :
    Recorded files s' :=
  ⟨hdb _ (h.rows.mono fun _ hr => hr.mono htr), fun _ _ _ hp => h.pointers_keep htr hp (by rw [hf])⟩

variable [DecidableEq τ]

theorem Recorded.exec (h : Recorded files s) {pend : τ → Option (GateCall UploadCall)} {t : τ}
    {c : GateCall UploadCall} {r : GateRes UploadRes c}
    (hx : (gateSystem (uploadService τ hashtext ids) parseHost digest fromSlice admin).traced.exec
      pend t s c r s') : Recorded files s' := by
  obtain ⟨⟨ch, he⟩, htr⟩ := hx
  have hsub : s.trace ⊆ s'.trace := htr ▸ List.subset_cons_self _ _
  have hnew : (t, ⟨c, r⟩) ∈ s'.trace := htr ▸ List.mem_cons_self
  rcases c with c | c
  · have hs : s'.state = _ := (congrArg Prod.snd (Option.some.inj he)).symm
    have hback : s'.state.back = s.state.back := by rw [hs]
    exact h.keep hsub (by rw [hback]) fun P hP => by rwa [hback]
  obtain ⟨ch, hx⟩ | ⟨-, hsame⟩ := publishExec_spec (gateExec_inr he).1
  · rcases c with c | c
    · obtain ⟨hfile, hdb⟩ := uploadExec_file hx
      refine ⟨hdb ▸ h.rows.mono fun row hr => hr.mono hsub, fun tenant func path hp => ?_⟩
      -- a call that may write another pointer leaves this one alone
      by_cases honly : ∀ tenant' func', RegistryCall tenant' func' true c →
          tenant' = tenant ∧ func' = func
      · exact .inr ⟨t, c, r, hnew, honly⟩
      · simp only [not_forall] at honly
        obtain ⟨tenant', func', hc, hne⟩ := honly
        refine h.pointers_keep hsub hp (hc.get_pointer hfile hp fun _ heq => hne ?_)
        obtain ⟨rfl, rfl⟩ := Prod.mk.inj heq
        exact ⟨rfl, rfl⟩
    · obtain ⟨hdb, hfiles⟩ := uploadExec_db hx
      refine ⟨(h.rows.mono fun row hr => hr.mono hsub).exec hdb fun row hrow => ?_,
        fun tenant func path hp => h.pointers_keep hsub hp (by rw [hfiles])⟩
      subst hrow
      exact ⟨t, r, hnew⟩
  · exact h.keep hsub (by rw [hsame]) fun P hP => by rwa [hsame]

theorem Recorded.env (h : Recorded files s) {pend : τ → Option (GateCall UploadCall)}
    (he : (gateSystem (uploadService τ hashtext ids) parseHost digest fromSlice admin).traced.env
      pend s s') : Recorded files s' := by
  obtain ⟨⟨e, he⟩, htr⟩ := he
  have hsub : s.trace ⊆ s'.trace := by rw [htr]; exact List.Subset.refl _
  cases e with
  | time passed =>
    have hs := (Option.some.inj he).symm
    exact h.keep hsub (by rw [hs]) fun P hP => by rwa [hs]
  | back t =>
    have hs : s'.state = { s.state with back := s.state.back.endTx t } := (Option.some.inj he).symm
    exact h.keep hsub (by rw [hs]; rfl) fun P hP => by rw [hs]; exact hP.endTx hP.functions
  | admin e ch =>
    have hs := (Option.some.inj he).symm
    exact h.keep hsub (by rw [hs]; rfl) fun P hP => by rw [hs]; exact ⟨hP.functions, hP.txs⟩

/-! ## All uploads -/

/-- The upload is of this function, and a key of its token's hash has been stored for the tenant. -/
structure UploadRequest.Admitted (digest : Bytes → Str) (s : AdminApi) (req : UploadRequest)
    (tenant func : Str) : Prop where
  tenant_eq : req.tenant = tenant
  func_eq : req.func = func
  named : req.Named
  key : ∃ token, bearerFrom req.headers = some token ∧
    s.IssuedTo digest (digest (Bytes.ofStr token)) tenant

theorem Admits.upload {req : UploadRequest} {c : UploadCall} {s : AdminApi}
    (h : Admits digest (req.visit W ids) c s) : req.Admitted digest s req.tenant req.func ∧
      ∃ wasm, req.wasm = .ok wasm ∧ PublishCall ids req.tenant req.func (W.digest wasm) c := by
  obtain ⟨token, limits, ht, he, hname, hc⟩ := h
  exact ⟨⟨rfl, rfl, hname, token, ht, he.issued⟩, hc⟩

end

/-! ## A run -/

end Warpline
