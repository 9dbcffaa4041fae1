import Mathlib

/-!
# Programs over atomic calls

`Prog ι ρ α`: a sequential program whose only effects are calls `c : ι`, each answered by a
response of type `ρ c`. What a call does to the shared state is not part of the program: the
semantics (`Conc/System.lean`) and the logic (`Conc/Sat.lean`) take it as a parameter, so one
program text serves a sequential run as well as every interleaving of several programs.

Programs that can fail early are written in `ExceptT ε (Prog ι ρ)`.
-/

set_option autoImplicit false

namespace Conc

inductive Prog (ι : Type) (ρ : ι → Type) (α : Type) : Type
  | ret (a : α)
  | call (c : ι) (k : ρ c → Prog ι ρ α)

namespace Prog

variable {ι : Type} {ρ : ι → Type} {α β γ ε ε' : Type}

def bind : Prog ι ρ α → (α → Prog ι ρ β) → Prog ι ρ β
  | ret a, f => f a
  | call c k, f => call c fun r => (k r).bind f

instance : Monad (Prog ι ρ) where
  pure := ret
  bind := bind

@[simp] theorem pure_eq (a : α) : (pure a : Prog ι ρ α) = ret a := rfl
@[simp] theorem ret_bind (a : α) (f : α → Prog ι ρ β) : (ret a >>= f) = f a := rfl
@[simp] theorem call_bind (c : ι) (k : ρ c → Prog ι ρ α) (f : α → Prog ι ρ β) :
    (call c k >>= f) = call c fun r => k r >>= f := rfl

theorem bind_ret (p : Prog ι ρ α) : (p >>= ret) = p := by
  induction p with
  | ret a => rfl
  | call c k ih => exact congrArg (call c) (funext ih)

theorem bind_assoc (p : Prog ι ρ α) (f : α → Prog ι ρ β) (g : β → Prog ι ρ γ) :
    (p >>= f >>= g) = p >>= fun a => f a >>= g := by
  induction p with
  | ret a => rfl
  | call c k ih => exact congrArg (call c) (funext ih)

instance : LawfulMonad (Prog ι ρ) :=
  LawfulMonad.mk' _ bind_ret (fun _ _ => rfl) bind_assoc

/-- The program that makes one call and returns its response. -/
def perform (c : ι) : Prog ι ρ (ρ c) := call c ret

@[simp] theorem perform_bind (c : ι) (f : ρ c → Prog ι ρ α) : (perform c >>= f) = call c f := rfl

/-- The call a program is about to make, if it has not returned. -/
def pending : Prog ι ρ α → Option ι
  | ret _ => none
  | call c _ => some c

@[simp] theorem pending_ret (a : α) : (ret a : Prog ι ρ α).pending = none := rfl
@[simp] theorem pending_call (c : ι) (k : ρ c → Prog ι ρ α) : (call c k).pending = some c := rfl

/-- What a program returned, if it has. -/
def result : Prog ι ρ α → Option α
  | ret a => some a
  | call _ _ => none

theorem result_eq_some {p : Prog ι ρ α} {a : α} : p.result = some a ↔ p = ret a := by
  cases p <;> simp [result]

/-- The result of a program whose calls are answered by `answer`. -/
def answered (answer : (c : ι) → ρ c) : Prog ι ρ α → α
  | ret a => a
  | call c k => (k (answer c)).answered answer

@[simp] theorem answered_ret (answer : (c : ι) → ρ c) (a : α) :
    (ret a : Prog ι ρ α).answered answer = a := rfl
@[simp] theorem answered_call (answer : (c : ι) → ρ c) (c : ι) (k : ρ c → Prog ι ρ α) :
    (call c k).answered answer = (k (answer c)).answered answer := rfl

theorem answered_bind {answer : (c : ι) → ρ c} {p : Prog ι ρ α} {f : α → Prog ι ρ β} {a : α}
    (h : p.answered answer = a) : (p >>= f).answered answer = (f a).answered answer := by
  subst h
  induction p with
  | ret a => rfl
  | call c k ih => exact ih (answer c)

/-- The calls that a program makes when they are answered by `answer`. -/
def made (answer : (c : ι) → ρ c) : Prog ι ρ α → List ι
  | ret _ => []
  | call c k => c :: (k (answer c)).made answer

@[simp] theorem made_ret (answer : (c : ι) → ρ c) (a : α) :
    (ret a : Prog ι ρ α).made answer = [] := rfl
@[simp] theorem made_call (answer : (c : ι) → ρ c) (c : ι) (k : ρ c → Prog ι ρ α) :
    (call c k).made answer = c :: (k (answer c)).made answer := rfl

/-- A program alone over a server: its result, and the server's state after it. -/
def against {σ : Type} (server : σ → (c : ι) → ρ c × σ) : Prog ι ρ α → σ → α × σ
  | ret a, s => (a, s)
  | call c k, s => (k (server s c).1).against server (server s c).2

@[simp] theorem against_ret {σ : Type} (server : σ → (c : ι) → ρ c × σ) (a : α) (s : σ) :
    (ret a : Prog ι ρ α).against server s = (a, s) := rfl
@[simp] theorem against_call {σ : Type} (server : σ → (c : ι) → ρ c × σ) (c : ι)
    (k : ρ c → Prog ι ρ α) (s : σ) :
    (call c k).against server s = (k (server s c).1).against server (server s c).2 := rfl

/-! ## Early return -/

/-- Change the error of a program that can fail (`.map_err`). -/
def mapErr (f : ε → ε') (p : ExceptT ε (Prog ι ρ) α) : ExceptT ε' (Prog ι ρ) α :=
  ExceptT.mk (p.run >>= fun r => ret (r.mapError f))

/-- Run `cleanup` when `p` fails, then fail with `p`'s error: the drop of a guard that success
disarms. -/
def onError (cleanup : Prog ι ρ Unit) (p : ExceptT ε (Prog ι ρ) α) : ExceptT ε (Prog ι ρ) α :=
  ExceptT.mk (p.run >>= fun
    | .ok a => ret (.ok a)
    | .error e => cleanup >>= fun _ => ret (.error e))

/-- Run `cleanup` after `p`, whatever `p` returned: the drop of a guard. -/
def guarded (cleanup : Prog ι ρ Unit) (p : ExceptT ε (Prog ι ρ) α) : ExceptT ε (Prog ι ρ) α :=
  ExceptT.mk (p.run >>= fun r => cleanup >>= fun _ => ret r)

end Prog

end Conc
