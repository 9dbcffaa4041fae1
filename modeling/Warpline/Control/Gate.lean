import Warpline.Conc.Sum
import Warpline.Conc.Trace
import Warpline.Control.Admin

/-!
# Services behind the authenticator

A handler authenticates its caller and then works for the caller's tenant. It is a program over the
calls of the authenticator and those of the service behind it. All requests share the
authenticator's cache and the service, while the admin API works on the tables the authenticator
reads.
-/

set_option autoImplicit false

namespace Warpline

open Conc

section
variable {ι : Type} {ρ : ι → Type}

abbrev GateCall (ι : Type) := AuthCall ⊕ ι
abbrev GateRes (ρ : ι → Type) : GateCall ι → Type := Sum.elim AuthRes ρ
abbrev GateM (ρ : ι → Type) := Prog (GateCall ι) (GateRes ρ)

/-- The authenticator's outcome; without one (`auth` is its TTL), the default limits. -/
def authOutcome (digest : Bytes → Str) (auth : Option Nat) (tenant : Str) (bearer : Option Str) :
    GateM ρ (Except AuthError AuthOutcome) :=
  match auth with
  | some ttl => (Authenticator.authenticate digest ttl tenant bearer).inl
  | none => .ret (.ok (.authorized .default))

end

/-! ## All requests -/

/-- A service: how its calls are executed, what happens to it besides, and what it sees of the tables
of tenants. -/
structure Service (τ σ : Type) {ι : Type} (ρ : ι → Type) (κ ε : Type) where
  exec : κ → τ → σ → (c : ι) → Option (ρ c × σ)
  env : (τ → Option ι) → σ → ε → Option σ
  refresh : AdminDb → σ → σ

structure Gate (τ σ : Type) (L : AuthCrate) where
  auth : AuthState τ L
  back : σ
  admin : AdminApi

/-- How a call's outcome is left open. -/
structure GateChoice (κ : Type) where
  fails : Option SqlxError
  back : κ

/-- What happens beside the calls. -/
inductive GateEvent (ε : Type)
  | time (passed : Nat)
  | back (e : ε)
  | admin (e : AdminEvent) (ch : AdminChoice)

section
variable {τ σ ι κ ε : Type} {ρ : ι → Type} {L : AuthCrate} (S : Service τ σ ρ κ ε)
  (parseHost : Str → Option Str) (digest : Bytes → Str)
  (fromSlice : List UInt8 → Except Str AdminConfigBody) (admin : AdminState)

def gateExec (ch : GateChoice κ) (me : τ) (s : Gate τ σ L) :
    (c : GateCall ι) → Option (GateRes ρ c × Gate τ σ L)
  | .inl c =>
    let q := authExec ch.fails me s.auth c
    some (q.1, { s with auth := q.2 })
  | .inr c => (S.exec ch.back me s.back c).map fun q => (q.1, { s with back := q.2 })

/-- What a request waits for in the service. -/
def backPending (pend : τ → Option (GateCall ι)) (t : τ) : Option ι :=
  (pend t).bind fun
    | .inl _ => none
    | .inr c => some c

def gateEnv (pend : τ → Option (GateCall ι)) (s : Gate τ σ L) : GateEvent ε → Option (Gate τ σ L)
  | .time passed => some { s with auth := { s.auth with clock := s.auth.clock + passed } }
  | .back e => (S.env (backPending pend) s.back e).map fun back => { s with back }
  | .admin e ch =>
    let served := s.admin.serve parseHost digest fromSlice admin (e, ch)
    some {
      auth := { s.auth with db := served.db.authDb }
      back := S.refresh served.db s.back
      admin := served }

def gateSystem : System τ (Gate τ σ L) (GateCall ι) (GateRes ρ) where
  exec := fun _ t s c r s' => ∃ ch, gateExec S ch t s c = some (r, s')
  env := fun pend s s' => ∃ e, gateEnv S parseHost digest fromSlice admin pend s e = some s'

/-- Nothing has been served yet. -/
def Gate.new (L : AuthCrate) (back : σ) : Gate τ σ L where
  auth := AuthState.new L 0 AdminDb.new.authDb
  back := back
  admin := .new

/-! ## Schedules -/

abbrev GateState (τ σ : Type) {ι : Type} (ρ : ι → Type) (L : AuthCrate) :=
  Traced τ (Gate τ σ L) (GateCall ι) (GateRes ρ)

variable [DecidableEq τ] {α : τ → Type}

def gatePlay (C : Config τ (GateState τ σ ρ L) (GateCall ι) (GateRes ρ) α)
    (sched : List ((τ × GateChoice κ) ⊕ GateEvent ε)) :
    Option (Config τ (GateState τ σ ρ L) (GateCall ι) (GateRes ρ) α) :=
  C.playEnv (tracing fun ch _ t g c => gateExec S ch t g c)
    (fun e pend s => (gateEnv S parseHost digest fromSlice admin pend s.state e).map
      fun g => ⟨g, s.trace⟩) sched

theorem gatePlay_reach {C C' : Config τ (GateState τ σ ρ L) (GateCall ι) (GateRes ρ) α}
    {sched : List ((τ × GateChoice κ) ⊕ GateEvent ε)}
    (h : gatePlay S parseHost digest fromSlice admin C sched = some C') :
    Reach (gateSystem S parseHost digest fromSlice admin).traced C C' := by
  refine playEnv_reach (tracing_sound (S := gateSystem S parseHost digest fromSlice admin)
    fun ch pend t s c r s' hx => ⟨ch, hx⟩) (fun e pend s s' he => ?_) h
  obtain ⟨g, hg, rfl⟩ := Option.map_eq_some_iff.1 he
  exact ⟨⟨e, hg⟩, rfl⟩

end

end Warpline
