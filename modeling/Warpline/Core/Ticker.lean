import Warpline.Conc.System
import Warpline.Core.Invoke

/-!
# The epoch ticker (`sandbox.rs`: `EpochTicker`)

The ticker's thread sleeps to an absolute schedule and increments the epoch of the engine once a
round. Times are nanoseconds of the monotone clock that `Instant::now` reads.
-/

set_option autoImplicit false

namespace Warpline

open Conc

namespace EpochTicker

/-- `Duration::from_millis`. -/
def fromMillis (ms : UInt64) : Nat := ms.toNat * 1000000

inductive TickerCall
  /-- `stop_thread.load`. -/
  | loadStop
  /-- `Instant::now()`. -/
  | now
  /-- `std::thread::sleep`. -/
  | sleep (duration : Nat)
  /-- `engine.increment_epoch()`. -/
  | incrementEpoch
  deriving DecidableEq, Repr

abbrev TickerRes : TickerCall → Type
  | .loadStop => Bool
  | .now => Nat
  | .sleep _ | .incrementEpoch => Unit

abbrev TickerM := Prog TickerCall TickerRes

/-- The middle of a round: `next` is when the increment is due. -/
def untilDue (tick next now : Nat) : TickerM Nat :=
  if now < next then do
    Prog.perform (TickerCall.sleep (next - now))
    pure next
  -- badly behind: resync instead of bursting ticks
  else if tick * 10 < now - next then pure now
  else pure next

/-- At most `rounds` rounds of the loop. -/
def loop (tick : Nat) : Nat → Nat → TickerM Unit
  | 0, _ => pure ()
  | rounds + 1, next => do
    let stop ← Prog.perform .loadStop
    if stop then pure ()
    else
      let next := next + tick
      let now ← Prog.perform .now
      let next ← untilDue tick next now
      Prog.perform TickerCall.incrementEpoch
      loop tick rounds next

/-- The thread that `EpochTicker::spawn` starts, for a `tick` of `EPOCH_TICK_MS`. -/
def thread (tick rounds : Nat) : TickerM Unit := do
  let next ← Prog.perform .now
  loop tick rounds next

/-! ## The clock -/

/-- The clock, and what has happened, newest first: the readings of the thread, and the times of
the increments. -/
structure Clock where
  now : Nat
  readings : List Nat
  epochs : List Nat
  deriving DecidableEq, Repr

/-- A sleep may last longer than it was asked to. Someone else sets the flag. -/
def Exec (s : Clock) : (c : TickerCall) → TickerRes c → Clock → Prop
  | .loadStop, _, s' => s' = s
  | .now, t, s' => t = s.now ∧ s' = { s with readings := s.now :: s.readings }
  | .sleep duration, _, s' => ∃ t, s.now + duration ≤ t ∧ s' = { s with now := t }
  | .incrementEpoch, _, s' => s' = { s with epochs := s.now :: s.epochs }

/-- Between any two of its statements the thread may be suspended for any time. -/
def system : System Unit Clock TickerCall TickerRes where
  exec := fun _ _ => Exec
  env := fun _ s s' => ∃ t, s.now ≤ t ∧ s' = { s with now := t }

/-- The same, computed: a sleep lasts `late` longer than asked, and nobody sets the flag. -/
def execute (late : Nat) (s : Clock) : (c : TickerCall) → TickerRes c × Clock
  | .loadStop => (false, s)
  | .now => (s.now, { s with readings := s.now :: s.readings })
  | .sleep duration => ((), { s with now := s.now + duration + late })
  | .incrementEpoch => ((), { s with epochs := s.now :: s.epochs })

theorem execute_exec (late : Nat) (s : Clock) (c : TickerCall) :
    Exec s c (execute late s c).1 (execute late s c).2 := by
  cases c with
  | loadStop => rfl
  | now => exact ⟨rfl, rfl⟩
  | sleep duration => exact ⟨_, Nat.le_add_right _ late, rfl⟩
  | incrementEpoch => rfl

/-- The thread, started at some time. -/
def start (rounds now : Nat) : Config Unit Clock TickerCall TickerRes fun _ => Unit :=
  ⟨⟨now, [], []⟩, fun _ => thread (fromMillis EPOCH_TICK_MS) rounds⟩

end EpochTicker

end Warpline
