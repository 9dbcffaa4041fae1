import Mathlib

/-!
# A bounded channel with one receiver

`Mpsc α`: the values sent and not yet received, oldest first. Sending takes a free place and
fails when there is none or the receiver has closed the channel; closing keeps what is queued.
-/

set_option autoImplicit false

structure Mpsc (α : Type) where
  capacity : Nat
  queue : List α
  /-- The receiver has closed the channel. -/
  closed : Bool
  /-- A sender is left. -/
  sender : Bool
  deriving DecidableEq, Repr

namespace Mpsc

variable {α : Type}

def channel (capacity : Nat) : Mpsc α := ⟨capacity, [], false, true⟩

def trySend (c : Mpsc α) (a : α) : Option (Mpsc α) :=
  if c.closed = false ∧ c.queue.length < c.capacity then
    some { c with queue := c.queue ++ [a] }
  else none

/-- The oldest value and the channel without it. -/
def tryRecv (c : Mpsc α) : Option (α × Mpsc α) :=
  match c.queue with
  | [] => none
  | a :: q => some (a, { c with queue := q })

/-- `recv` returns nothing: the channel is empty and stays so. -/
def Finished (c : Mpsc α) : Prop := c.queue = [] ∧ (c.closed = true ∨ c.sender = false)

instance (c : Mpsc α) : Decidable c.Finished := inferInstanceAs (Decidable (_ ∧ _))

def close (c : Mpsc α) : Mpsc α := { c with closed := true }

@[simp] theorem queue_channel (n : Nat) : (channel n : Mpsc α).queue = [] := rfl
@[simp] theorem capacity_channel (n : Nat) : (channel n : Mpsc α).capacity = n := rfl
@[simp] theorem queue_close (c : Mpsc α) : c.close.queue = c.queue := rfl
@[simp] theorem capacity_close (c : Mpsc α) : c.close.capacity = c.capacity := rfl

theorem trySend_eq_some {c c' : Mpsc α} {a : α} : c.trySend a = some c' ↔
    c.closed = false ∧ c.queue.length < c.capacity ∧ c' = { c with queue := c.queue ++ [a] } := by
  unfold trySend
  split
  · rename_i h
    simp only [Option.some.injEq, h, true_and]
    exact eq_comm
  · rename_i h
    simp only [reduceCtorEq, false_iff]
    exact fun h' => h ⟨h'.1, h'.2.1⟩

theorem tryRecv_eq_some {c c' : Mpsc α} {a : α} : c.tryRecv = some (a, c') ↔
    c.queue = a :: c'.queue ∧ c' = { c with queue := c'.queue } := by
  obtain ⟨n, q, cl, sn⟩ := c
  cases q with
  | nil => simp [tryRecv]
  | cons b q =>
    simp only [tryRecv, Option.some.injEq, Prod.mk.injEq, List.cons.injEq]
    constructor
    · rintro ⟨rfl, rfl⟩
      simp
    · rintro ⟨⟨rfl, rfl⟩, h⟩
      exact ⟨rfl, h.symm⟩

theorem tryRecv_eq_none {c : Mpsc α} : c.tryRecv = none ↔ c.queue = [] := by
  obtain ⟨n, q, cl, sn⟩ := c
  cases q <;> simp [tryRecv]

end Mpsc
