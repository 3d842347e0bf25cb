import LatencyDigest.Benchmark.Load
import LatencyDigest.Command.Basic
import LatencyDigest.Settings

/-!
The program that draws a chart of benchmark results.
-/

namespace LatencyDigest.Command

variable {m : Type → Type} [Monad m] [Host m]

def drawn (c : Chart) (path : String) : ExceptT Failure m Unit :=
  ExceptT.mk do return (← Host.draw c path).mapError .chart

/-- The chart is drawn only if all of its points have a place in it. -/
def drawBenchmark (b : Benchmark) (path : String) : ExceptT Failure m Unit := do
  drawn (← stage (Chart.ofBenchmark b)) path

def plotStages (s : ChartSettings) : ExceptT Failure m Unit := do
  let b ← Benchmark.load s.results
  say ("Loaded " ++ toString b.length ++ " benchmark points from " ++ s.results)
  drawBenchmark b s.output
  say ("Chart saved as " ++ s.output)

def plot (programDirectory : String) (env : Environment) : m UInt32 :=
  finish (plotStages (ChartSettings.ofEnvironment programDirectory env))

end LatencyDigest.Command
