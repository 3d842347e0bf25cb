import LatencyDigest.Delimited.Reader
import LatencyDigest.Log.Row
import LatencyDigest.Table
import LatencyDigest.Text.Blank
import LatencyDigest.Text.Utf8

/-!
Reading a log into a table: a header, then rows of as many fields. The first fault in the text
decides, and it is told with the line right after the end of the record before.
-/

namespace LatencyDigest.Log

open Delimited (Record Start)

def isAsciiBlank (b : UInt8) : Bool :=
  b = 0x09 || b = 0x0A || b = 0x0C || b = 0x0D || b = 0x20

/-- The fields as text, from the one with index `i` on. -/
def texts (start : Start) (i : Nat) :
    List (List UInt8) → Except LogFault (List (List Char))
  | [] => .ok []
  | f :: fs =>
    match Text.decode f with
    | .error good => .error (.notUtf8 start i good)
    | .ok s => return Text.trim s :: (← texts start (i + 1) fs)

/-- The names of the columns. A text without records has none. -/
def header : List Record → Except LogFault (List String)
  | [] => .ok []
  | r :: _ => do return (← texts r.start 0 r.fields).map String.ofList

def missingColumns (k : LogKind) (names : List String) : List String :=
  k.columns.filter fun c => c ∉ names

def row (k : LogKind) (names : List String) (r : Record) : Except LogFault Row := do
  if r.fields.length ≠ names.length then
    throw (.fieldCount names.length r.fields.length)
  let fields ← texts r.start 0 (r.fields.map (Text.trimBy isAsciiBlank))
  Row.read k (names.zip fields)

/-- The table of the columns that the kind of log has, in the kind's order. -/
def table (k : LogKind) (source : String) (rows : List Row) : Except Failure Table :=
  k.columns.foldlM (fun t c => do
    let values ← (rows.mapM (Row.value c)).mapError (.malformed source 0)
    t.insert c (.integers values)) (Table.empty k.tableName rows.length)

def ofRecords (k : LogKind) (source : String) (records : List Record) : Except Failure Table := do
  let names ← (header records).mapError (.malformed source 1)
  let missing := missingColumns k names
  if missing ≠ [] then throw (.malformed source 1 (.missingColumns missing))
  let rows ← records.tail.mapM fun r =>
    (row k names r).mapError (.malformed source r.start.line)
  table k source rows

def ofBytes (k : LogKind) (source : String) (text : List UInt8) : Except Failure Table :=
  ofRecords k source (Delimited.records text)

end LatencyDigest.Log
