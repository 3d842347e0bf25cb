import LatencyDigest.Failure
import LatencyDigest.Files.Path
import LatencyDigest.Log.Kind

/-!
What the programs are told by the variables of their environment. An empty value is a value; where a
variable is not set there is a standard.
-/

namespace LatencyDigest

inductive Variable where
  | directory
  | packetLog
  | responseLog
  | exportStem
  | reportLog
  | ranges
  | results
  | chart
  deriving DecidableEq

namespace Variable

def all : List Variable :=
  [directory, packetLog, responseLog, exportStem, reportLog, ranges, results, chart]

def name : Variable → String
  | directory => "LATENCY_DATA_DIR"
  | packetLog => "LATENCY_PACKET_LOG"
  | responseLog => "LATENCY_TCP_LOG"
  | exportStem => "LATENCY_EXPORT_PREFIX"
  | reportLog => "LATENCY_REPORT_LOG"
  | ranges => "LATENCY_RANGES_US"
  | results => "BENCHMARK_RESULTS"
  | chart => "BENCHMARK_CHART"

end Variable

abbrev Environment := Variable → Option String

structure ReportSettings where
  directory : String
  packetLog : String
  responseLog : String
  exportStem : Option String
  reportLog : Option String
  ranges : Ranges
  deriving DecidableEq

namespace ReportSettings

def rangesOf (env : Environment) : Except Failure Ranges :=
  match env .ranges with
  | none => .ok .standard
  | some text => (Ranges.parse text).mapError (.ranges Variable.ranges.name)

def ofEnvironment (programDirectory : String) (env : Environment) :
    Except Failure ReportSettings := do
  return {
    directory := (env .directory).getD programDirectory
    packetLog := (env .packetLog).getD LogKind.packet.fileName
    responseLog := (env .responseLog).getD LogKind.response.fileName
    exportStem := env .exportStem
    reportLog := env .reportLog
    ranges := ← rangesOf env }

def packetPath (s : ReportSettings) : String := Path.join s.directory s.packetLog

def responsePath (s : ReportSettings) : String := Path.join s.directory s.responseLog

end ReportSettings

structure ChartSettings where
  results : String
  output : String
  deriving DecidableEq

namespace ChartSettings

def resultsFile : String := "benchmark_results.json"

def chartFile : String := "performance_chart_total_workload.png"

def ofEnvironment (programDirectory : String) (env : Environment) : ChartSettings where
  results := (env .results).getD (Path.join programDirectory resultsFile)
  output := (env .chart).getD chartFile

end ChartSettings

end LatencyDigest
