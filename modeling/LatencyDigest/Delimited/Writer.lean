import LatencyDigest.Delimited.Basic

/-!
Writing records. Quotes stand only where the record could not be read back without them.
-/

namespace LatencyDigest.Delimited

def needsQuotes (field : List UInt8) : Bool :=
  field.any fun b => b = comma || b = quote || isLineEnd b

def doubleQuotes : List UInt8 → List UInt8
  | [] => []
  | b :: r => if b = quote then quote :: quote :: doubleQuotes r else b :: doubleQuotes r

def inQuotes (field : List UInt8) : List UInt8 := quote :: doubleQuotes field ++ [quote]

def writeField (field : List UInt8) : List UInt8 :=
  if needsQuotes field then inQuotes field else field

def writeFields : List (List UInt8) → List UInt8
  | [] => []
  | [f] => writeField f
  | f :: fs => writeField f ++ comma :: writeFields fs

/-- A record that would be an empty line is written as an empty field in quotes. -/
def writeRecord (fields : List (List UInt8)) : List UInt8 :=
  let line := writeFields fields
  (if line.isEmpty then inQuotes [] else line) ++ [newline]

end LatencyDigest.Delimited
