import Warpline.Conc.Trace
import Warpline.Control.Publish
import Warpline.Fs.System

/-!
# Uploads sharing a registry and a database

Every file-system call and every statement is one step. The record of the calls tells how far an
upload has come: whether it has written its pointer, and whether its commit has failed.
-/

set_option autoImplicit false

namespace Warpline

open Conc Fs

structure Shared (τ : Type) where
  files : State τ
  db : Db τ

structure UploadChoice where
  file : Choice
  statement : DbChoice

section
variable {τ : Type} [DecidableEq τ]

def uploadExec (hashtext : Str → Int) (me : τ) (ch : UploadChoice) (s : Shared τ) :
    (c : UploadCall) → Option (UploadRes c × Shared τ)
  | .inl c => (Fs.exec me ch.file s.files c).map fun q => (q.1, { s with files := q.2 })
  | .inr c => (Db.exec hashtext me ch.statement s.db c).map fun q => (q.1, { s with db := q.2 })

abbrev UploadState (τ : Type) := Traced τ (Shared τ) UploadCall UploadRes

def uploadSystem (hashtext : Str → Int) : System τ (Shared τ) UploadCall UploadRes :=
  .closed fun me s c r s' => ∃ ch, uploadExec hashtext me ch s c = some (r, s')

theorem uploadExec_file {hashtext : Str → Int} {me : τ} {ch : UploadChoice} {s s' : Shared τ}
    {c : FsCall} {r : FsRes c} (h : uploadExec hashtext me ch s (.inl c) = some (r, s')) :
    Fs.exec me ch.file s.files c = some (r, s'.files) ∧ s'.db = s.db := by
  obtain ⟨⟨r₁, s₁⟩, hx, heq⟩ := Option.map_eq_some_iff.1 h
  cases heq
  exact ⟨hx, rfl⟩

theorem uploadExec_db {hashtext : Str → Int} {me : τ} {ch : UploadChoice} {s s' : Shared τ}
    {c : DbCall} {r : DbRes c} (h : uploadExec hashtext me ch s (.inr c) = some (r, s')) :
    Db.exec hashtext me ch.statement s.db c = some (r, s'.db) ∧ s'.files = s.files := by
  obtain ⟨⟨r₁, s₁⟩, hx, heq⟩ := Option.map_eq_some_iff.1 h
  cases heq
  exact ⟨hx, rfl⟩

/-- A statement of a transaction that the server has ended fails. -/
def lostExec (me : τ) (s : Shared τ) : (c : UploadCall) → UploadRes c → Prop
  | .inl _, _ => False
  | .inr c, r => c ≠ .beginTx ∧ s.db.txs me = none ∧ r = .error .failed

/-- Uploads that may crash or lose their connection at any point: the server then rolls their
transaction back. -/
def crashSystem (hashtext : Str → Int) : System τ (Shared τ) UploadCall UploadRes where
  exec := fun _ me s c r s' =>
    (∃ ch, uploadExec hashtext me ch s c = some (r, s')) ∨ lostExec me s c r ∧ s' = s
  env := fun _ s s' => ∃ t, s' = { s with db := s.db.endTx t s.db.functions }

/-! ## Uploads whose process dies -/

/-- `found` is a record only: the state in which an upload has last looked its tenant up. -/
structure CrashState (τ : Type) where
  shared : Shared τ
  crashed : τ → Bool
  found : τ → Option (Shared τ)

def recordLookup (me : τ) (s : CrashState τ) : UploadCall → τ → Option (Shared τ)
  | .inr (.tenantId _) => Function.update s.found me (some s.shared)
  | _ => s.found

/-- A call of an upload whose process is alive. -/
def haltExec (hashtext : Str → Int) (me : τ) (ch : UploadChoice) (s : CrashState τ)
    (c : UploadCall) : Option (UploadRes c × CrashState τ) :=
  if s.crashed me then none
  else (uploadExec hashtext me ch s.shared c).map fun q =>
    (q.1, ⟨q.2, s.crashed, recordLookup me s c⟩)

/-- The process of upload `t` dies: its transaction is rolled back, its files stay. -/
def CrashState.crash (s : CrashState τ) (t : τ) : CrashState τ where
  shared := { s.shared with db := s.shared.db.endTx t s.shared.db.functions }
  crashed := Function.update s.crashed t true
  found := s.found

def haltSystem (hashtext : Str → Int) : System τ (CrashState τ) UploadCall UploadRes where
  exec := fun _ me s c r s' => ∃ ch, haltExec hashtext me ch s c = some (r, s')
  env := fun _ s s' => ∃ t, s' = s.crash t

theorem haltExec_spec {hashtext : Str → Int} {me : τ} {ch : UploadChoice} {s s' : CrashState τ}
    {c : UploadCall} {r : UploadRes c} (h : haltExec hashtext me ch s c = some (r, s')) :
    s.crashed me = false ∧ uploadExec hashtext me ch s.shared c = some (r, s'.shared) ∧
      s'.crashed = s.crashed ∧ s'.found = recordLookup me s c := by
  unfold haltExec at h
  split at h
  · cases h
  · rename_i hc
    obtain ⟨q, hx, heq⟩ := Option.map_eq_some_iff.1 h
    cases heq
    exact ⟨by simpa using hc, hx, rfl, rfl⟩

end

/-! ## How far an upload has come -/

abbrev UploadEvent := (c : UploadCall) × UploadRes c

/-- A pointer write of `(tenant, func)`. -/
def pointerWrite (tenant func : Str) : UploadEvent → Bool
  | ⟨.inl (.rename _ dest), .ok _⟩ => pointerPath tenant func == some dest
  | _ => false

def failedCommit : UploadEvent → Bool
  | ⟨.inr .commit, .error _⟩ => true
  | _ => false

/-- A call that does not fail; a file to be removed may be missing. -/
def succeeded : UploadEvent → Bool
  | ⟨.inl (.removeFile _), .error .notFound⟩ => true
  | ⟨.inl _, r⟩ => r.toBool
  | ⟨.inr _, r⟩ => r.toBool

/-- Once an upload's commit has failed, its calls succeed. -/
def reconcileSucceeds {τ : Type} [DecidableEq τ] (_ : τ → Option UploadCall) (t : τ)
    (s : UploadState τ) (c : UploadCall) (r : UploadRes c) : Bool :=
  !(s.trace.of t).any failedCommit || succeeded ⟨c, r⟩

end Warpline
