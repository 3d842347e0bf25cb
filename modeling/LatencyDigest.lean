import LatencyDigest.Main
import LatencyDigest.Session
import LatencyDigest.Proofs.Text.Trimming
import LatencyDigest.Proofs.Text.Utf8
import LatencyDigest.Proofs.Delimited.Contents
import LatencyDigest.Proofs.Delimited.Lines
import LatencyDigest.Proofs.Log.Integer
import LatencyDigest.Proofs.Log.Rows
import LatencyDigest.Proofs.Table.Columns
import LatencyDigest.Proofs.Table.History
import LatencyDigest.Proofs.Log.Records
import LatencyDigest.Proofs.Log.Tables
import LatencyDigest.Proofs.Log.Acceptance
import LatencyDigest.Proofs.Delimited.Places
import LatencyDigest.Proofs.Log.FaultLine
import LatencyDigest.Proofs.Delimited.Mark
import LatencyDigest.Proofs.Log.Layout
import LatencyDigest.Proofs.Table.Normalize
import LatencyDigest.Proofs.Table.Derivation
import LatencyDigest.Proofs.Log.Normalized
import LatencyDigest.Proofs.Log.RoundTrip
import LatencyDigest.Proofs.Binary64.Magnitude
import LatencyDigest.Proofs.Binary64.Nearest
import LatencyDigest.Proofs.Binary64.Operations
import LatencyDigest.Proofs.Ranges.Boundary
import LatencyDigest.Proofs.Ranges.Buckets
import LatencyDigest.Proofs.Ranges.Bounds
import LatencyDigest.Proofs.Statistics.Percentile
import LatencyDigest.Proofs.Statistics.Sample
import LatencyDigest.Proofs.Report.Build
import LatencyDigest.Proofs.Report.Rendering
import LatencyDigest.Proofs.Report.Logs
import LatencyDigest.Proofs.Report.Agreement
import LatencyDigest.Proofs.Report.RowOrder
import LatencyDigest.Proofs.Decimal.Thousandths
import LatencyDigest.Proofs.Units
import LatencyDigest.Proofs.Units.Conversion
import LatencyDigest.Proofs.Ranges.Tallies
import LatencyDigest.Proofs.Binary64.Bounds
import LatencyDigest.Proofs.Statistics.Interpolation
import LatencyDigest.Proofs.Report.Finite
import LatencyDigest.Proofs.Files.Frame
import LatencyDigest.Proofs.Session
import LatencyDigest.Proofs.Journal
import LatencyDigest.Proofs.Command.Run
import LatencyDigest.Proofs.Command.Verdict
import LatencyDigest.Proofs.Command.ReportLog
import LatencyDigest.Proofs.Benchmark.Document
import LatencyDigest.Proofs.Binary64.DoubleRounding
import LatencyDigest.Proofs.Binary64.Grid
import LatencyDigest.Proofs.Binary64.Blend
import LatencyDigest.Proofs.Binary64.QuarterBlend
import LatencyDigest.Proofs.Statistics.Indices
import LatencyDigest.Proofs.Statistics.Reading
import LatencyDigest.Proofs.Statistics.Quartiles
import LatencyDigest.Proofs.Statistics.WholeRank
import LatencyDigest.Proofs.Statistics.Ranks
import LatencyDigest.Proofs.Statistics.Order
import LatencyDigest.Proofs.Report.Order
import LatencyDigest.Proofs.Ranges.Parsing
import LatencyDigest.Proofs.Ranges.Partition
import LatencyDigest.Proofs.Decimal.ReadBack
import LatencyDigest.Proofs.Ranges.Labels
import LatencyDigest.Proofs.Chart
import LatencyDigest.Proofs.Statistics.Sorting
import LatencyDigest.Proofs.Binary64.TotalOrder
import LatencyDigest.Proofs.Binary64.Rounded
import LatencyDigest.Proofs.Statistics.WholeNumbers
import LatencyDigest.Proofs.Text.Grid
import LatencyDigest.Proofs.Report.ReadBack
import LatencyDigest.Proofs.Json.Scanning
import LatencyDigest.Proofs.Json.Passing
import LatencyDigest.Proofs.Benchmark.Soundness
import LatencyDigest.Proofs.Benchmark.Times
import LatencyDigest.Proofs.Benchmark.Loading
import LatencyDigest.Proofs.Command.Plot
