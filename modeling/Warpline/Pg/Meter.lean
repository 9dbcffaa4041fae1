import Warpline.Std.Mpsc
import Warpline.Conc.Machine
import Warpline.Core.Error

/-!
# The Postgres meter (`pg/meter.rs`)

The writer task `run`, the callers of `record` and the owner of the handle, as one machine. The
writer stands at the `select!` of its loop, in the loop that fills a batch, or before an attempt
of `write_with_retry`; each step takes it past one channel operation or one insert.

The rows in the channel carry the number of the `record` call that sent them, and `calls` and
`lost` are a history: no step depends on any of these.
-/

set_option autoImplicit false

namespace Warpline

def BATCH_MAX : Nat := 200
def ATTEMPTS : Nat := 3

structure Row where
  tenant : Str
  func : Str
  usage : Usage
  ok : Bool
  deriving DecidableEq, Repr

/-- A row of `warpline.meter`. -/
structure MeterRow where
  tenant : Str
  func : Str
  cpuUs : Int
  wallUs : Int
  memPeakBytes : Int
  ok : Bool
  deriving DecidableEq, Repr

def i64Of (v : UInt64) : Int := i64OfUsize v

/-- The values `insert` binds for one row. -/
def Row.bind (r : Row) : MeterRow where
  tenant := r.tenant
  func := r.func
  cpuUs := i64Of r.usage.cpuUs
  wallUs := i64Of r.usage.wallUs
  memPeakBytes := i64Of r.usage.memPeakBytes
  ok := r.ok

/-- How one attempt to insert a batch ends. -/
inductive Attempt
  | stored
  | failed
  /-- The database stored the rows, the client saw an error or its timeout. -/
  | unseen
  deriving DecidableEq, Repr

inductive Writer
  | select
  | filling (batch : List (Nat × Row))
  | writing (batch : List (Nat × Row)) (attempt : Nat)
  | ended
  deriving DecidableEq, Repr

def Writer.batch : Writer → List (Nat × Row)
  | .filling b | .writing b _ => b
  | _ => []

structure PgMeter where
  chan : Mpsc (Nat × Row)
  dropped : Nat
  /-- A `notify_one` that `stop.notified()` has not consumed. -/
  stop : Bool
  stopping : Bool
  writer : Writer
  /-- The inserts the database has stored, oldest first. -/
  inserts : List (List (Nat × MeterRow))
  /-- The rows of all `record` calls. -/
  calls : List Row
  /-- The calls `dropped` counts. -/
  lost : List Nat
  deriving DecidableEq, Repr

inductive MeterEvent
  | record (row : Row)
  | shutdown
  /-- The last `PgMeter` is gone, and with it the sender. -/
  | release
  /-- The `rx.recv()` arm of the `select!`. -/
  | recv
  /-- The `stop.notified()` arm. -/
  | notified
  | tryRecv
  | insert (o : Attempt)
  deriving DecidableEq, Repr

namespace PgMeter

def spawn (capacity : Nat) : PgMeter where
  chan := Mpsc.channel capacity
  dropped := 0
  stop := false
  stopping := false
  writer := .select
  inserts := []
  calls := []
  lost := []

/-- The rows of `warpline.meter`. -/
def stored (m : PgMeter) : List (Nat × MeterRow) := m.inserts.flatten

def record (m : PgMeter) (row : Row) : PgMeter :=
  match m.chan.trySend (m.calls.length, row) with
  | some c => { m with chan := c, calls := m.calls ++ [row] }
  | none => { m with
      dropped := m.dropped + 1
      calls := m.calls ++ [row]
      lost := m.lost ++ [m.calls.length] }

/-- The head of the loop of `run`: the arm for a received row, or for none. -/
def first (m : PgMeter) : Option ((Nat × Row) × Mpsc (Nat × Row)) → PgMeter
  | some (row, c) => { m with chan := c, writer := .filling [row] }
  | none => { m with chan := m.chan.close, writer := .ended }

/-- `while batch.len() < BATCH_MAX`. -/
def fill (m : PgMeter) (batch : List (Nat × Row)) : PgMeter :=
  if batch.length < BATCH_MAX then
    match m.chan.tryRecv with
    | some (row, c) => { m with chan := c, writer := .filling (batch ++ [row]) }
    | none => { m with writer := .writing batch 0 }
  else { m with writer := .writing batch 0 }

def insert (m : PgMeter) (batch : List (Nat × Row)) : PgMeter :=
  { m with inserts := m.inserts ++ [batch.map fun q => (q.1, q.2.bind)] }

/-- An attempt `write_with_retry` sees as failed. -/
def retry (m : PgMeter) (batch : List (Nat × Row)) (attempt : Nat) : PgMeter :=
  if attempt + 1 < ATTEMPTS then { m with writer := .writing batch (attempt + 1) }
  else { m with
    dropped := m.dropped + batch.length
    lost := m.lost ++ batch.map Prod.fst
    writer := .select }

def step (m : PgMeter) : MeterEvent → Option PgMeter
  | .record row => if m.chan.sender then some (m.record row) else none
  | .shutdown => some { m with stop := true }
  | .release => some { m with chan := { m.chan with sender := false } }
  | .recv =>
    if m.writer = .select ∧ m.stopping = false then
      match m.chan.tryRecv with
      | some q => some (m.first (some q))
      | none => if m.chan.Finished then some (m.first none) else none
    else none
  | .notified =>
    if m.writer = .select ∧ m.stopping = false ∧ m.stop = true then
      some { m with chan := m.chan.close, stop := false, stopping := true }
    else none
  | .tryRecv =>
    match m.writer with
    | .select => if m.stopping then some (m.first m.chan.tryRecv) else none
    | .filling batch => some (m.fill batch)
    | _ => none
  | .insert o =>
    match m.writer with
    | .writing batch attempt =>
      match o with
      | .stored => some { m.insert batch with writer := .select }
      | .failed => some (m.retry batch attempt)
      | .unseen => some ((m.insert batch).retry batch attempt)
    | _ => none

/-- The inserts of a run report what they did. -/
def Seen (e : MeterEvent) (_ : PgMeter) : Prop := e ≠ .insert .unseen

end PgMeter

end Warpline
