import LatencyDigest.Json.Literal
import LatencyDigest.Json.Quoted

/-!
The tokens of a JSON text. A token that is faulty is the last; what its fault is depends on whether
its value is read or passed over, so it holds both.
-/

namespace LatencyDigest.Json

/-- A fault and the number of bytes read up to it; without one the whole text has been read. -/
structure Stop where
  fault : Fault
  offset : Option Nat
  deriving DecidableEq

/-- What a token is worth to one who reads it. -/
inductive Scalar where
  | null
  | boolean (b : Bool)
  | number (l : Literal)
  | string (s : List UInt8)
  deriving DecidableEq

inductive Kind where
  | listOpen
  | listClose
  | objectOpen
  | objectClose
  | comma
  | colon
  | word (value : Except Stop Scalar)
  | number (value : Except Literal.Fault Literal)
  | string (read : Except Stop (List UInt8)) (skipped : Except Stop Unit)
  | other

structure Token where
  kind : Kind
  start : Nat
  size : Nat

def isSpace (b : UInt8) : Bool := b = 0x20 || b = 0x0A || b = 0x09 || b = 0x0D

namespace Token

def stop (t : Token) : Nat := t.start + t.size

/-- A fault of a token that is only looked at: its first byte counts as read. -/
def looked (t : Token) (fault : Fault) : Stop := ⟨fault, some (t.start + 1)⟩

def passed (t : Token) (fault : Fault) : Stop := ⟨fault, some t.stop⟩

/-- Nothing can follow a faulty token. -/
def isFaulty (t : Token) : Bool :=
  match t.kind with
  | .word (.error _) | .number (.error _) | .string _ (.error _) | .other => true
  | _ => false

/-- How the letters of a name agree with a text: in full, or up to a byte that differs or to the
end. -/
def letters (n : Nat) : List Char → List UInt8 → Except (Fault × Nat) Unit
  | [], _ => .ok ()
  | _ :: _, [] => .error (.endOfValue, n)
  | c :: cs, b :: r => if b = c.toUInt8 then letters (n + 1) cs r else .error (.noName, n + 1)

def word (start : Nat) (name : List Char) (value : Scalar) (s : List UInt8) : Token :=
  let found := (letters 0 name s).mapError fun (f, n) => (⟨f, some (start + n)⟩ : Stop)
  ⟨.word (found.map fun _ => value), start, name.length⟩

def number (start : Nat) (s : List UInt8) : Token :=
  match Literal.scan s with
  | .ok (l, n) => ⟨.number (.ok l), start, n⟩
  | .error e => ⟨.number (.error e), start, e.size⟩

/-- A string whose opening quote is at `start` and whose text follows. -/
def string (start : Nat) (s : List UInt8) : Token :=
  let locate := fun (f, n) => (⟨f, some (start + n)⟩ : Stop)
  let read := (Quoted.read .text 1 [] s).mapError locate
  match Quoted.skip .text 1 s with
  | .ok n => ⟨.string read (.ok ()), start, n⟩
  | .error e => ⟨.string read (.error (locate e)), start, e.2⟩

def ofByte (start : Nat) (b : UInt8) (r : List UInt8) : Token :=
  if b = '['.toUInt8 then ⟨.listOpen, start, 1⟩
  else if b = ']'.toUInt8 then ⟨.listClose, start, 1⟩
  else if b = '\x7b'.toUInt8 then ⟨.objectOpen, start, 1⟩
  else if b = '\x7d'.toUInt8 then ⟨.objectClose, start, 1⟩
  else if b = ','.toUInt8 then ⟨.comma, start, 1⟩
  else if b = ':'.toUInt8 then ⟨.colon, start, 1⟩
  else if b = 'n'.toUInt8 then word start ['n', 'u', 'l', 'l'] .null (b :: r)
  else if b = 't'.toUInt8 then word start ['t', 'r', 'u', 'e'] (.boolean true) (b :: r)
  else if b = 'f'.toUInt8 then word start ['f', 'a', 'l', 's', 'e'] (.boolean false) (b :: r)
  else if b = '"'.toUInt8 then string start r
  else if b = '-'.toUInt8 ∨ isDigit b then number start (b :: r)
  else ⟨.other, start, 1⟩

/-- The tokens of a text from the byte at `offset` on, of which the first `skip` belong to a token
that has been read. -/
def listFrom (offset : Nat) : (skip : Nat) → List UInt8 → List Token
  | _, [] => []
  | skip + 1, _ :: r => listFrom (offset + 1) skip r
  | 0, b :: r =>
    if isSpace b then listFrom (offset + 1) 0 r
    else
      let t := ofByte offset b r
      t :: if t.isFaulty then [] else listFrom (offset + 1) (t.size - 1) r

def list (s : List UInt8) : List Token := listFrom 0 0 s

end Token

end LatencyDigest.Json
