import LatencyDigest.Log.Kind
import LatencyDigest.Statistics.Describe

/-!
The four metrics of a report, each with the column that it is read from.
-/

namespace LatencyDigest

inductive Metric where
  | arrival
  | queue
  | worker
  | response
  deriving DecidableEq

namespace Metric

def all : List Metric := [arrival, queue, worker, response]

def name : Metric → String
  | arrival => "UDP arrival to queue"
  | queue => "Queue duration"
  | worker => "Worker processing"
  | response => "TCP response"

def measure : Metric → Measure
  | arrival => LogKind.arrival
  | queue => LogKind.queue
  | worker => LogKind.worker
  | response => LogKind.reply

def column (m : Metric) : String := m.measure.micros

def table (packets responses : Table) : Metric → Table
  | response => responses
  | _ => packets

def samples (packets responses : Table) : Except Failure (List (Metric × Sample)) :=
  all.mapM fun m => do return (m, ← (m.table packets responses).sample m.column)

end Metric

end LatencyDigest
