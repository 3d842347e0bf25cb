import LatencyDigest.Decimal.Notation
import LatencyDigest.Text.Quoted

/-!
What can be wrong with a JSON text, and how each fault is told.
-/

namespace LatencyDigest.Json

/-- The kinds of value, with what is shown of them when they stand in the wrong place. -/
inductive Found where
  | null
  | boolean (b : Bool)
  | integer (i : Int)
  | float (x : Binary64)
  | string (s : List Char)
  | sequence
  | map
  deriving DecidableEq

/-- What a place asks for. -/
inductive Wanted where
  | count
  | number
  | sequence
  | results
  deriving DecidableEq

inductive Fault where
  | endOfValue
  | endOfList
  | endOfObject
  | endOfString
  | noValue
  | noName
  | noColon
  | noListEnd
  | noObjectEnd
  | keyNotString
  | trailingComma
  | trailingCharacters
  | badNumber
  | numberOutOfRange
  | badEscape
  | loneSurrogate
  | halfSurrogatePair
  | controlCharacter
  | wrongType (found : Found) (wanted : Wanted)
  | wrongValue (found : Found) (wanted : Wanted)
  | wrongLength (found wanted : Nat)
  | repeatedField (name : String)
  | absentField (name : String)
  deriving DecidableEq

def Found.text : Found → String
  | .null => "null"
  | .boolean b => "boolean `" ++ (if b then "true" else "false") ++ "`"
  | .integer i => "integer `" ++ toString i ++ "`"
  | .float x => "floating point `" ++ x.scientificText ++ "`"
  | .string s => "string " ++ Text.quoted s
  | .sequence => "sequence"
  | .map => "map"

def Wanted.text : Wanted → String
  | .count => "u64"
  | .number => "f64"
  | .sequence => "a sequence"
  | .results => "struct BenchmarkResults"

def Fault.message : Fault → String
  | .endOfValue => "EOF while parsing a value"
  | .endOfList => "EOF while parsing a list"
  | .endOfObject => "EOF while parsing an object"
  | .endOfString => "EOF while parsing a string"
  | .noValue => "expected value"
  | .noName => "expected ident"
  | .noColon => "expected `:`"
  | .noListEnd => "expected `,` or `]`"
  | .noObjectEnd => "expected `,` or `\x7d`"
  | .keyNotString => "key must be a string"
  | .trailingComma => "trailing comma"
  | .trailingCharacters => "trailing characters"
  | .badNumber => "invalid number"
  | .numberOutOfRange => "number out of range"
  | .badEscape => "invalid escape"
  | .loneSurrogate => "lone leading surrogate in hex escape"
  | .halfSurrogatePair => "unexpected end of hex escape"
  | .controlCharacter => "control character (\\u0000-\\u001F) found while parsing a string"
  | .wrongType found wanted => "invalid type: " ++ found.text ++ ", expected " ++ wanted.text
  | .wrongValue found wanted => "invalid value: " ++ found.text ++ ", expected " ++ wanted.text
  | .wrongLength found wanted =>
    "invalid length " ++ toString found ++ ", expected " ++ Wanted.results.text ++ " with " ++
      toString wanted ++ " elements"
  | .repeatedField name => "duplicate field `" ++ name ++ "`"
  | .absentField name => "missing field `" ++ name ++ "`"

end LatencyDigest.Json
