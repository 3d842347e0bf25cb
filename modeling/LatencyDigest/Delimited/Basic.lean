/-!
Records of fields with commas between them, one record a line. A field that begins with a quote runs
to the quote that ends it, whatever stands between, and a quote inside it is written twice.
-/

namespace LatencyDigest.Delimited

def comma : UInt8 := 0x2C

def quote : UInt8 := 0x22

def newline : UInt8 := 0x0A

def carriageReturn : UInt8 := 0x0D

def isLineEnd (b : UInt8) : Bool := b = newline || b = carriageReturn

/-- Where a record begins: how many records, bytes and line feeds stand before it. -/
structure Start where
  record : Nat
  byte : Nat
  lineFeeds : Nat
  deriving DecidableEq

def Start.line (p : Start) : Nat := p.lineFeeds + 1

structure Record where
  start : Start
  fields : List (List UInt8)
  deriving DecidableEq

/-- How much text there is, in bytes and in line feeds. -/
structure Extent where
  bytes : Nat
  lineFeeds : Nat
  deriving DecidableEq

namespace Extent

def none : Extent := ⟨0, 0⟩

def cons (b : UInt8) (e : Extent) : Extent :=
  ⟨e.bytes + 1, e.lineFeeds + if b = newline then 1 else 0⟩

def add (e f : Extent) : Extent := ⟨e.bytes + f.bytes, e.lineFeeds + f.lineFeeds⟩

instance : Add Extent := ⟨add⟩

end Extent

/-- The place after a record that begins at `p` and takes that much text. -/
def Start.next (p : Start) (e : Extent) : Start :=
  ⟨p.record + 1, p.byte + e.bytes, p.lineFeeds + e.lineFeeds⟩

end LatencyDigest.Delimited
