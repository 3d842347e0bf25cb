import LatencyDigest.Ranges
import LatencyDigest.Report.Metric
import LatencyDigest.Text.Row

/-!
How the values of each metric fall into the latency ranges.
-/

namespace LatencyDigest

structure Distribution where
  labels : List String
  counts : List (Metric × List Nat)
  deriving DecidableEq

namespace Distribution

def ofSamples (ranges : Ranges) (samples : List (Metric × Sample)) : Distribution where
  labels := ranges.labels
  counts := samples.map fun (m, s) => (m, ranges.count s.values)

/-- The line of the label at an index, if every metric has a count there. -/
def line? (d : Distribution) (label : String) (i : Nat) : Option String := do
  let cells ← d.counts.mapM fun (_, counts) => counts[i]?
  return Text.row (label :: cells.map toString)

def lines? (d : Distribution) : List String → Nat → Option (List String)
  | [], _ => some []
  | label :: labels, i => return (← d.line? label i) :: (← d.lines? labels (i + 1))

/-- A table with a line for each label and a column for each metric. -/
def render? (d : Distribution) : Option String := do
  let lines ← d.lines? d.labels 0
  return Text.row ("Range" :: d.counts.map fun (m, _) => m.name) ++ String.join lines

end Distribution

end LatencyDigest
