import LatencyDigest.Command.Basic
import LatencyDigest.Log.Load
import LatencyDigest.Report.Basic
import LatencyDigest.Save
import LatencyDigest.Settings
import LatencyDigest.Units

/-!
The program that reports on the packet log and the response log.
-/

namespace LatencyDigest.Command

variable {m : Type → Type} [Monad m] [Host m]

def normalized (k : LogKind) (t : Table) : Except Failure Table :=
  match t.normalizeLog k with
  | (u, none) => .ok u
  | (_, some failure) => .error failure

def reportText (packets responses : Table) (ranges : Ranges) : Except Failure String := do
  match (← Report.build packets responses ranges).render? with
  | some text => return text
  | none => .error .outOfRange

/-- Nothing of the report is printed before all of it is built. -/
def reportStages (s : ReportSettings) : ExceptT Failure m Unit := do
  let packetLog ← Log.load .packet s.packetPath
  let responseLog ← Log.load .response s.responsePath
  let packets ← stage (normalized .packet packetLog)
  let responses ← stage (normalized .response responseLog)
  say (← stage (reportText packets responses s.ranges))
  match s.exportStem with
  | none => return
  | some stem =>
    let paths ← saveTables packets responses stem
    paths.forM fun path => say ("Normalized data saved: " ++ path)

def report (programDirectory : String) (env : Environment) : m UInt32 :=
  match ReportSettings.ofEnvironment programDirectory env with
  | .error failure => finish (stage (.error failure))
  | .ok s => do
    s.reportLog.forM Journal.start
    finish (reportStages s)

end LatencyDigest.Command
