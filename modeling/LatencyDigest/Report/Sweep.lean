import LatencyDigest.Report.Metric

/-!
The percentile sweep: for each threshold, the percentile of every metric.
-/

namespace LatencyDigest

structure SweepRow where
  threshold : Binary64
  values : List (Metric × Binary64)
  deriving DecidableEq

def SweepRow.render (r : SweepRow) : String :=
  "\n" ++ r.threshold.text ++ "th percentile:\n" ++
    String.join (r.values.map fun (m, v) => m.name ++ ": " ++ v.fixedText 2 ++ "\n")

structure Sweep where
  rows : List SweepRow
  deriving DecidableEq

namespace Sweep

def thresholds : List Binary64 := [50, 75, 90, 95, 99].map .ofNat ++ [.ofDecimal false 999 (-1)]

def row? (samples : List (Metric × Sample)) (threshold : Binary64) : Option SweepRow := do
  let values ← samples.mapM fun (m, s) => do return (m, ← s.percentile threshold)
  return { threshold, values }

def ofSamples? (samples : List (Metric × Sample)) : Option Sweep :=
  (thresholds.mapM (row? samples)).map Sweep.mk

/-- The value of a metric in the first row whose threshold equals the given one. -/
def value? (s : Sweep) (threshold : Binary64) (m : Metric) : Option Binary64 := do
  let row ← s.rows.find? fun r => decide (r.threshold.Equal threshold)
  row.values.lookup m

def render (s : Sweep) : String := String.join (s.rows.map SweepRow.render)

end Sweep

def Table.sweep (packets responses : Table) : Except Failure Sweep := do
  match Sweep.ofSamples? (← Metric.samples packets responses) with
  | some s => return s
  | none => .error .outOfRange

end LatencyDigest
