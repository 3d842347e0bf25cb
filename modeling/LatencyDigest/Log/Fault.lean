import LatencyDigest.Delimited.Basic
import LatencyDigest.Files.Fault
import LatencyDigest.Log.Integer

/-!
What can be wrong with a log.
-/

namespace LatencyDigest

inductive LogFault where
  | missingColumns (names : List String)
  | fieldCount (expected found : Nat)
  | notUtf8 (start : Delimited.Start) (field validBytes : Nat)
  | badValue (field : Nat) (fault : IntegerFault)
  | repeatedColumn (name : String)
  | absentValue (name : String)
  | unreadable (fault : FileFault)
  deriving DecidableEq

def LogFault.message : LogFault → String
  | .missingColumns names => "header is missing column(s): " ++ ", ".intercalate names
  | .fieldCount expected found =>
    "expected " ++ toString expected ++ " fields but found " ++ toString found
  | .notUtf8 start field validBytes =>
    "CSV parse error: record " ++ toString start.record ++ " (line " ++ toString start.line ++
      ", field: " ++ toString field ++ ", byte: " ++ toString start.byte ++
      "): invalid utf-8: invalid UTF-8 in field " ++ toString field ++ " near byte index " ++
      toString validBytes
  | .badValue field fault => "invalid value: field " ++ toString field ++ ": " ++ fault.message
  | .repeatedColumn name => "invalid value: duplicate field `" ++ name ++ "`"
  | .absentValue name => "invalid value: missing field `" ++ name ++ "`"
  | .unreadable fault => fault.message

end LatencyDigest
