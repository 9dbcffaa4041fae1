import Warpline.Pg.Admin
import Warpline.Pg.Meter
import Warpline.Std.I64

/-!
# Usage totals (`usage_summary` of `pg/admin.rs`)

The query over `warpline.meter`: one statement, so it sees whole inserts. The rows of one insert
have one time stamp, the `now()` of its transaction.
-/

set_option autoImplicit false

namespace Warpline

/-- The table with its time stamps; `now k` is that of the `k`-th insert. -/
def PgMeter.table (now : Nat → Int) (m : PgMeter) : List (Int × MeterRow) :=
  m.inserts.zipIdx.flatMap fun q => q.1.map fun row => (now q.2, row.2)

inductive Total
  | invocations
  | errors
  | cpuUs
  | wallUs

namespace Total

/-- What a row adds. -/
def ofRow : Total → MeterRow → Int
  | invocations, _ => 1
  | errors, row => if row.ok then 0 else 1
  | cpuUs, row => row.cpuUs
  | wallUs, row => row.wallUs

def ofRows (x : Total) (rows : List MeterRow) : Int := (rows.map x.ofRow).sum

end Total

/-! ## What has been recorded -/

namespace PgMeter

end PgMeter

/-- The total of a tenant's calls, as they would be stored. -/
def charge (x : Total) (tenant : Str) (rows : List Row) : Int :=
  x.ofRows ((rows.map Row.bind).filter fun row => row.tenant == tenant)

end Warpline
