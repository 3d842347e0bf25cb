import LatencyDigest.Report.Distribution
import LatencyDigest.Report.Sweep
import LatencyDigest.Report.Throughput

/-!
The report on two normalized tables. It is built whole before any of it is printed.
-/

namespace LatencyDigest

structure Report where
  packets : List (String × Summary)
  responses : List (String × Summary)
  throughput : Throughput
  sweep : Sweep
  distribution : Distribution
  deriving DecidableEq

namespace Report

def build (packets responses : Table) (ranges : Ranges) : Except Failure Report := do
  let packetSummary ← packets.describe (LogKind.packet.measures.map Measure.micros)
  let responseSummary ← responses.describe (LogKind.response.measures.map Measure.micros)
  let throughput ← Throughput.ofTables packets responses
  let samples ← Metric.samples packets responses
  match Sweep.ofSamples? samples with
  | none => .error .outOfRange
  | some sweep =>
    return {
      packets := packetSummary
      responses := responseSummary
      throughput
      sweep
      distribution := Distribution.ofSamples ranges samples }

def render? (r : Report) : Option String := do
  let distribution ← r.distribution.render?
  return "\n=== Packet Latency Statistics (microseconds) ===\n" ++ Summary.render r.packets ++
    "\n=== TCP Response Statistics (microseconds) ===\n" ++ Summary.render r.responses ++
    "\n=== Performance Metrics ===\n" ++ r.throughput.render ++
    "\n=== Key Percentiles (microseconds) ===" ++ r.sweep.render ++
    "\n=== Latency Range Distribution (microseconds) ===\n" ++ distribution

end Report

end LatencyDigest
