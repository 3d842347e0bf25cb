import LatencyDigest.Binary64.Order
import LatencyDigest.Statistics.Percentile

/-!
A sample is a list of values in the total order of bit patterns. What is computed from a sample
depends on its values only, not on the order in which they came.
-/

namespace LatencyDigest

structure Sample where
  values : List Binary64
  ordered : values.Pairwise fun x y => x.totalLE y
  deriving DecidableEq

namespace Sample

def ofValues (xs : List Binary64) : Sample where
  values := xs.mergeSort Binary64.totalLE
  ordered := List.pairwise_mergeSort Binary64.totalLE_trans Binary64.totalLE_total xs

theorem values_ofValues_perm (xs : List Binary64) : (ofValues xs).values.Perm xs :=
  List.mergeSort_perm xs _

def count (s : Sample) : Nat := s.values.length

def min (s : Sample) : Binary64 := s.values.head?.getD .nan

def max (s : Sample) : Binary64 := s.values.getLast?.getD .nan

def sum (s : Sample) : Binary64 := Binary64.sum s.values

def mean (s : Sample) : Binary64 :=
  if s.values = [] then .nan else s.sum / Binary64.ofNat s.count

def squaredDistance (centre v : Binary64) : Binary64 :=
  let d := centre - v
  d * d

/-- The sample standard deviation, with `n - 1` below the fraction line. -/
def deviation (s : Sample) : Binary64 :=
  if s.count ≤ 1 then .zero
  else
    let total := Binary64.sum (s.values.map (squaredDistance s.mean))
    (total / Binary64.ofNat (s.count - 1)).sqrt

def percentile (s : Sample) (p : Binary64) : Option Binary64 :=
  LatencyDigest.percentile s.values p

end Sample

end LatencyDigest
