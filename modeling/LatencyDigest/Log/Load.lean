import LatencyDigest.Binary64.Arithmetic
import LatencyDigest.Decimal.Notation
import LatencyDigest.Journal
import LatencyDigest.Log.Reader

/-!
Loading a log from a file, and telling how long that took.
-/

namespace LatencyDigest.Log

variable {m : Type → Type} [Monad m] [Host m]

def ofReading (k : LogKind) (path : String) : Reading → Except Failure Table
  | .notOpened .notFound => .error (.missingFile path)
  | .notOpened fault => .error (.file fault)
  | .notRead fault => .error (.malformed path 0 (.unreadable fault))
  | .content text => ofBytes k path text

def secondsText (nanos : Nat) : String :=
  let billion := 1000000000
  let whole := Binary64.ofNat (nanos / billion)
  let rest := Binary64.ofNat (nanos % billion) / Binary64.ofNat billion
  (whole + rest).fixedText 3

def loadedText (t : Table) (path : String) (nanos : Nat) : String :=
  "Loaded " ++ toString t.rows ++ " rows from " ++ path ++ " (" ++ secondsText nanos ++ "s)"

def load (k : LogKind) (path : String) : ExceptT Failure m Table :=
  ExceptT.mk do
    let begun ← Host.now
    match ofReading k path (← Host.read path) with
    | .error failure => return .error failure
    | .ok t =>
      let done ← Host.now
      Journal.say (loadedText t path (done - begun))
      return .ok t

end LatencyDigest.Log
