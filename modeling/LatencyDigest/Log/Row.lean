import LatencyDigest.Log.Fault
import LatencyDigest.Log.Kind

/-!
The values of one row, read in the order of the header. Columns that the log's kind does not know
are passed over, whatever they hold.
-/

namespace LatencyDigest

/-- The values of a row by the names of their columns. -/
abbrev Row := List (String × Int64)

namespace Row

/-- The values from the field with index `i` on, after those of the fields before it. -/
def readFrom (k : LogKind) (i : Nat) (seen : Row) :
    List (String × List Char) → Except LogFault Row
  | [] => .ok seen
  | (name, text) :: r =>
    if name ∈ k.columns then
      if (seen.lookup name).isSome then .error (.repeatedColumn name)
      else match Integer.read text with
        | .ok v => readFrom k (i + 1) ((name, v) :: seen) r
        | .error e => .error (.badValue i e)
    else readFrom k (i + 1) seen r

def read (k : LogKind) (fields : List (String × List Char)) : Except LogFault Row :=
  readFrom k 0 [] fields

def value (column : String) (row : Row) : Except LogFault Int64 :=
  match row.lookup column with
  | some v => .ok v
  | none => .error (.absentValue column)

end Row

end LatencyDigest
