import LatencyDigest.Decimal.Notation
import LatencyDigest.Statistics.Sample
import LatencyDigest.Text.Row

/-!
The eight figures that describe a column, and the table of them with a column for each.
-/

namespace LatencyDigest

structure Summary where
  count : Nat
  mean : Binary64
  deviation : Binary64
  min : Binary64
  lowerQuartile : Binary64
  median : Binary64
  upperQuartile : Binary64
  max : Binary64
  deriving DecidableEq

namespace Summary

def ofSample? (s : Sample) : Option Summary := do
  return {
    count := s.count
    mean := s.mean
    deviation := s.deviation
    min := s.min
    lowerQuartile := ← s.percentile (.ofNat 25)
    median := ← s.percentile (.ofNat 50)
    upperQuartile := ← s.percentile (.ofNat 75)
    max := s.max }

/-- The rows below the count, each with its label. -/
def figures : List (String × (Summary → Binary64)) :=
  [("mean", mean), ("std", deviation), ("min", min), ("25%", lowerQuartile), ("50%", median),
    ("75%", upperQuartile), ("max", max)]

def render (summaries : List (String × Summary)) : String :=
  Text.row ("Stat" :: summaries.map (·.1)) ++
    Text.row ("count" :: summaries.map fun s => toString s.2.count) ++
    String.join (figures.map fun (label, figure) =>
      Text.row (label :: summaries.map fun s => (figure s.2).fixedText 3))

end Summary

end LatencyDigest
