import LatencyDigest.Binary64.Arithmetic

/-!
Percentiles by linear interpolation between the two values beside the rank.
-/

namespace LatencyDigest

/-- The rank of the percentile `p` among values of which the last has the index `last`. -/
def percentileRank (last : Nat) (p : Binary64) : Binary64 :=
  p / Binary64.ofNat 100 * Binary64.ofNat last

/-- The value at a rank. There is none where the rank lies beyond the last value. -/
def valueAt (values : List Binary64) (rank : Binary64) : Option Binary64 :=
  let lower := rank.floorIndex
  let upper := rank.ceilIndex
  if lower = upper then values[lower]?
  else do
    let weight := rank - Binary64.ofNat lower
    let low ← values[lower]?
    let high ← values[upper]?
    return low * (Binary64.ofNat 1 - weight) + high * weight

/-- The percentile of values in ascending order; of no values it is NaN. -/
def percentile : List Binary64 → Binary64 → Option Binary64
  | [], _ => some .nan
  | v :: vs, p => valueAt (v :: vs) (percentileRank vs.length p)

end LatencyDigest
