import LatencyDigest.Json.Fault
import LatencyDigest.Log.Fault
import LatencyDigest.Ranges

/-!
Why an analysis comes to nothing. Each constructor is a cause, and `message` tells it.
-/

namespace LatencyDigest

inductive Failure where
  | missingFile (path : String)
  | malformed (source : String) (line : Nat) (fault : LogFault)
  | noValues (table column : String)
  | unequalSeries (sizes baseline optimized : Nat)
  | unknownColumn (table column : String)
  | columnLength (column : String) (found : Nat) (table : String) (rows : Nat)
  | ranges (setting : String) (fault : RangeFault)
  | notPositive
  | file (fault : FileFault)
  | json (fault : Json.Fault) (line column : Nat)
  | chart (reason : String)
  | outOfRange
  deriving DecidableEq

def Failure.message : Failure → String
  | .missingFile path => "Input file not found: " ++ path
  | .malformed source line fault =>
    "Malformed input in " ++ source ++ " (line " ++ toString line ++ "): " ++ fault.message
  | .noValues table column => "Empty dataset: " ++ table ++ " has no values for '" ++ column ++ "'"
  | .unequalSeries sizes baseline optimized =>
    "Inconsistent series lengths: sizes=" ++ toString sizes ++ ", baseline=" ++ toString baseline ++
      ", optimized=" ++ toString optimized
  | .unknownColumn table column => "Column '" ++ column ++ "' not found in " ++ table
  | .columnLength column found table rows =>
    "Invalid configuration: column '" ++ column ++ "' has " ++ toString found ++
      " rows but table " ++ table ++ " has " ++ toString rows
  | .ranges setting fault => "Invalid configuration: " ++ setting ++ ": " ++ fault.message
  | .notPositive =>
    "Invalid configuration: log-scale chart requires positive order sizes and times"
  | .file fault => "IO error: " ++ fault.message
  | .json fault line column =>
    "Serde error: " ++ fault.message ++ " at line " ++ toString line ++ " column " ++
      toString column
  | .chart reason => "Chart error: " ++ reason
  | .outOfRange => "Index out of range"

end LatencyDigest
