import LatencyDigest.Binary64.Arithmetic
import LatencyDigest.Log.Kind
import LatencyDigest.Table

/-!
Nanoseconds and microseconds, and the columns in microseconds that a table is given beside its
columns in nanoseconds.
-/

namespace LatencyDigest

def nanosPerMicro : Binary64 := .ofNat 1000

def nanosToMicros (x : Binary64) : Binary64 := x / nanosPerMicro

def microsToNanos (x : Binary64) : Binary64 := x * nanosPerMicro

namespace Table

def derive (t : Table) (source derived : String) : Except Failure Table := do
  t.insert derived (.floats ((← t.floats source).map nanosToMicros))

/-- The pairs in turn. What was derived before a pair that fails stays in the table. -/
def normalize (t : Table) : List (String × String) → Table × Option Failure
  | [] => (t, none)
  | (source, derived) :: pairs =>
    match t.derive source derived with
    | .ok u => u.normalize pairs
    | .error e => (t, some e)

def normalizeLog (k : LogKind) (t : Table) : Table × Option Failure := t.normalize k.conversions

end Table

end LatencyDigest
