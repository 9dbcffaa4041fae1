import Warpline.Conc.System
import Warpline.Fs.Effect

/-!
# Programs sharing a tree

Several threads making file-system calls, every call one step. `A` limits what a call may leave
open: the range of the clock, or whether faults are injected.
-/

set_option autoImplicit false

namespace Fs

open Conc

variable {τ : Type} [DecidableEq τ]

def Exec (A : Choice → Prop) (me : τ) (s : State τ) (c : FsCall) (r : FsRes c) (s' : State τ) :
    Prop :=
  ∃ ch, A ch ∧ exec me ch s c = some (r, s')

def system (A : Choice → Prop) : System τ (State τ) FsCall FsRes := .closed (Exec A)

/-- The choices whose clock is in `[t₀, t₀ + span)`. -/
def Within (t₀ span : Nat) (ch : Choice) : Prop := t₀ ≤ ch.now ∧ ch.now < t₀ + span

instance (t₀ span : Nat) : DecidablePred (Within t₀ span) := fun ch => by
  unfold Within
  infer_instance

/-! ## Schedules -/

/-- Before any temporary file has been handed out. -/
def State.ofTree (tree : DirTree) : State τ := ⟨tree, fun _ => none, nofun⟩

omit [DecidableEq τ] in
@[simp] theorem State.ofTree_tree (tree : DirTree) : (State.ofTree tree : State τ).tree = tree := rfl

/-- At time `now`, without a fault. -/
def Choice.ofNow (now : Nat) : Choice := ⟨now, false, [], [], []⟩

def Choice.ofNames (now : Nat) (names : List Str) : Choice :=
  ⟨now, false, names.map fun name => .ok (.ofStr name), [], []⟩

def Choice.ofSuffix (now : Nat) (suffix : Str) : Choice := ⟨now, false, [], suffix, []⟩

/-- A call whose choice is fixed in advance. -/
def execIf (A : Choice → Prop) [DecidablePred A] (ch : Choice) (_ : τ → Option FsCall) (me : τ)
    (s : State τ) (c : FsCall) : Option (FsRes c × State τ) :=
  if A ch then exec me ch s c else none

theorem execIf_sound {A : Choice → Prop} [DecidablePred A] (ch : Choice) (pend : τ → Option FsCall)
    (me : τ) (s : State τ) (c : FsCall) (r : FsRes c) (s' : State τ)
    (h : execIf A ch pend me s c = some (r, s')) : Exec A me s c r s' := by
  unfold execIf at h
  split at h
  · rename_i ha
    exact ⟨ch, ha, h⟩
  · cases h

end Fs
