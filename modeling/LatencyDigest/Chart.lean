import LatencyDigest.Benchmark.Basic
import LatencyDigest.Binary64.Arithmetic
import LatencyDigest.Binary64.Order

/-!
The chart of a benchmark: the times of both programs over the number of orders, on logarithmic axes,
which have no place for what is not positive.
-/

namespace LatencyDigest

structure Chart where
  baseline : List (Binary64 × Binary64)
  optimized : List (Binary64 × Binary64)
  deriving DecidableEq

namespace Chart

def oneAndAHalf : Binary64 := .ofDecimal false 15 (-1)

/-- The ends of an axis for values from `least` to `greatest`, with room on both sides. -/
def axisRange (least greatest : Binary64) : Binary64 × Binary64 :=
  (least / oneAndAHalf, greatest * oneAndAHalf)

def points (c : Chart) : List (Binary64 × Binary64) := c.baseline ++ c.optimized

/-- The least and the greatest of the values; a NaN is neither. -/
def extent (values : List Binary64) : Binary64 × Binary64 :=
  values.foldl (fun (least, greatest) v =>
    (if v < least then v else least, if greatest < v then v else greatest))
    (Binary64.maxFinite, -Binary64.maxFinite)

def axis (values : List Binary64) : Binary64 × Binary64 :=
  let (least, greatest) := extent values
  axisRange least greatest

def sizeAxis (c : Chart) : Binary64 × Binary64 := axis (c.points.map Prod.fst)

def timeAxis (c : Chart) : Binary64 × Binary64 := axis (c.points.map Prod.snd)

def ofBenchmark (b : Benchmark) : Except Failure Chart := do
  b.validate
  let c : Chart :=
    { baseline := b.points.map fun (size, time, _) => (.ofNat size.toNat, time)
      optimized := b.points.map fun (size, _, time) => (.ofNat size.toNat, time) }
  if c.points.any fun (x, y) => x ≤ Binary64.zero || y ≤ Binary64.zero then .error .notPositive
  else return c

end Chart

end LatencyDigest
