/-!
The two kinds of latency log: one row for each packet, and one row for each challenge answered.
-/

namespace LatencyDigest

/-- One measured span of time: the column that a log has it in, in nanoseconds, and the column in
microseconds that is derived from it. -/
structure Measure where
  nanos : String
  micros : String
  deriving DecidableEq

inductive LogKind where
  | packet
  | response
  deriving DecidableEq

namespace LogKind

def arrival : Measure := ⟨"udp_arrival_to_queue_ns", "udp_arrival_to_queue_us"⟩

def queue : Measure := ⟨"queue_duration_ns", "queue_duration_us"⟩

def worker : Measure := ⟨"worker_processing_ns", "worker_processing_us"⟩

def reply : Measure := ⟨"target_parsed_to_tcp_sent_ns", "target_parsed_to_tcp_sent_us"⟩

def measures : LogKind → List Measure
  | packet => [arrival, queue, worker]
  | response => [reply]

def tableName : LogKind → String
  | packet => "packet latency"
  | response => "TCP response"

/-- The file a log is read from when none is named. -/
def fileName : LogKind → String
  | packet => "client_packet_latency_log.csv"
  | response => "client_tcp_response_latency_log.csv"

/-- The end of the name of the file that a table is saved in. -/
def exportEnding : LogKind → String
  | packet => "_packet_latency.csv"
  | response => "_tcp_response_latency.csv"

def exportPath (k : LogKind) (stem : String) : String := stem ++ k.exportEnding

def columns (k : LogKind) : List String := k.measures.map Measure.nanos

/-- The columns to convert, each with the name of the column it gives. -/
def conversions (k : LogKind) : List (String × String) :=
  k.measures.map fun m => (m.nanos, m.micros)

end LogKind

end LatencyDigest
