import LatencyDigest.Command.Plot
import LatencyDigest.Command.Report
import Std.Time

/-!
The programs on a real machine. Which of the two runs is told by the name that the executable has.
-/

namespace LatencyDigest

/-- A machine, and the log if one is open. -/
abbrev Live := StateT (Option IO.FS.Handle) IO

namespace Live

def fault : IO.Error → FileFault
  | .noFileOrDirectory .. => .notFound
  | .alreadyExists .. => .present
  | .inappropriateType _ 20 _ => .notADirectory
  | .inappropriateType _ 21 _ => .isADirectory
  | .invalidArgument _ code text | .permissionDenied _ code text | .resourceExhausted _ code text
  | .inappropriateType _ code text | .noSuchThing _ code text =>
    .other (text ++ " (os error " ++ toString code ++ ")")
  | e => .other (toString e)

def attempt {α : Type} (action : IO α) : Live (Except FileFault α) := do
  match ← action.toBaseIO with
  | .ok x => return .ok x
  | .error e => return .error (fault e)

/-- Whether a path can be opened. -/
def opens (path : String) : Live Bool := do
  match ← attempt (IO.FS.Handle.mk path .read) with
  | .ok _ => return true
  | .error _ => return false

def read (path : String) : Live Reading := do
  match ← attempt (IO.FS.Handle.mk path .read) with
  | .error e => return .notOpened e
  | .ok handle =>
    match ← attempt handle.readBinToEnd with
    | .error e => return .notRead e
    | .ok bytes => return .content bytes.toList

def openLog (path : String) : Live (Except FileFault Unit) := do
  match ← attempt (IO.FS.Handle.mk path .write) with
  | .error e => return .error e
  | .ok handle =>
    set (some handle)
    return .ok ()

def writeLog (text : String) : Live (Except FileFault Unit) := do
  match ← get with
  | none => return .ok ()
  | some handle => attempt do
    handle.putStr text
    handle.flush

def localTime : IO String := do
  return (← Std.Time.PlainDateTime.now).format "uuuu-MM-dd HH:mm:ss"

instance : Host Live where
  print text := IO.print text
  printError text := IO.eprint text
  now := IO.monoNanosNow
  localTime := localTime
  present := opens
  isDirectory path := opens (path ++ "/.")
  makeDirectory path := attempt (IO.FS.createDir path)
  read := read
  write path bytes := attempt (IO.FS.writeBinFile path bytes.toByteArray)
  openLog := openLog
  writeLog := writeLog
  draw _ _ := return .error "there is nothing to draw on"

end Live

end LatencyDigest

open LatencyDigest

def main : IO UInt32 := do
  let program := (← IO.appPath).toString
  let values ← Variable.all.mapM fun v => return (v, ← IO.getEnv v.name)
  let env : Environment := fun v => (values.lookup v).join
  let directory := (Path.parent? program).getD "."
  let command : Live UInt32 :=
    if program.endsWith "plot_benchmark" then Command.plot directory env
    else Command.report directory env
  command.run' none
