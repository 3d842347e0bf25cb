import LatencyDigest.Statistics.Summary
import LatencyDigest.Table

/-!
Samples and summaries of the columns of a table.
-/

namespace LatencyDigest.Table

/-- The values of a column as a sample. A column without values has none. -/
def sample (t : Table) (column : String) : Except Failure Sample := do
  let values ← t.floats column
  if values.isEmpty then .error (.noValues t.name column) else return .ofValues values

def summary (t : Table) (column : String) : Except Failure Summary := do
  match Summary.ofSample? (← t.sample column) with
  | some s => return s
  | none => .error .outOfRange

def describe (t : Table) (columns : List String) : Except Failure (List (String × Summary)) :=
  columns.mapM fun c => do return (c, ← t.summary c)

end LatencyDigest.Table
