import LatencyDigest.Directories
import LatencyDigest.Failure

/-!
What a program says while it runs. All of it is printed, and copied to the log if one is open.
-/

namespace LatencyDigest.Journal

variable {m : Type → Type} [Monad m] [Host m]

def warn (occasion : String) (fault : FileFault) : m Unit :=
  Host.printError (occasion ++ ": " ++ fault.message ++ "\n")

def record (occasion line : String) : m Unit := do
  match ← Host.writeLog (line ++ "\n") with
  | .ok () => return
  | .error fault => warn occasion fault

def say (message : String) : m Unit := do
  Host.print (message ++ "\n")
  record "Failed to write log file" message

def complain (failure : Failure) : m Unit := do
  let message := "Error: " ++ failure.message
  Host.printError (message ++ "\n")
  record "Failed to write log file" ("ERROR: " ++ message)

/-- Opens the log and writes its first line. Without a log the program goes on all the same. -/
def start (path : String) : m Unit := do
  match ← Directories.makeParent path with
  | .error fault => warn "Cannot create log directory" fault
  | .ok () =>
    match ← Host.openLog path with
    | .error fault => warn "Cannot open log file" fault
    | .ok () =>
      Host.print ("Writing report log to '" ++ path ++ "'\n")
      record "Failed to write log header" ("# latency report generated at " ++ (← Host.localTime))

end LatencyDigest.Journal
