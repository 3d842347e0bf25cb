import LatencyDigest.Failure

/-!
Benchmark results: for each number of orders the time that the baseline took and the time that the
optimized program took.
-/

namespace LatencyDigest

structure Benchmark where
  sizes : List UInt64
  baseline : List Binary64
  optimized : List Binary64
  deriving DecidableEq

namespace Benchmark

def length (b : Benchmark) : Nat := b.sizes.length

def isEmpty (b : Benchmark) : Bool := b.sizes.isEmpty

/-- The three series are of one length, which is not zero. -/
def validate (b : Benchmark) : Except Failure Unit :=
  if b.sizes.length ≠ b.baseline.length ∨ b.sizes.length ≠ b.optimized.length then
    .error (.unequalSeries b.sizes.length b.baseline.length b.optimized.length)
  else if b.sizes = [] then .error (.noValues "benchmark results" "order_sizes")
  else .ok ()

def points (b : Benchmark) : List (UInt64 × Binary64 × Binary64) :=
  b.sizes.zip (b.baseline.zip b.optimized)

end Benchmark

end LatencyDigest
