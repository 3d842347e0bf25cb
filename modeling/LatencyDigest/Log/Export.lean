import LatencyDigest.Delimited.Writer
import LatencyDigest.Log.Integer
import LatencyDigest.Table
import LatencyDigest.Text.Utf8

/-!
Writing a table out: a header of the column names, then a record for each row with the values of all
columns.
-/

namespace LatencyDigest

def Series.texts : Series → List (List Char)
  | integers values => values.map Integer.chars
  | floats values => values.map Binary64.chars

namespace Table

def header (t : Table) : List (List UInt8) := t.columns.map fun c => Text.encode c.name.toList

def records (t : Table) : List (List (List UInt8)) :=
  let columns := t.columns.map fun c => c.data.texts.toArray
  (List.range t.rows).map fun i => columns.map fun c => Text.encode (c.getD i [])

def exported (t : Table) : List UInt8 :=
  Delimited.writeRecord t.header ++ t.records.flatMap Delimited.writeRecord

end Table

end LatencyDigest
