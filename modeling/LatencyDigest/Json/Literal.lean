import LatencyDigest.Binary64.Arithmetic
import LatencyDigest.Json.Fault

/-!
Numbers as a JSON text writes them, and the values they stand for.
-/

namespace LatencyDigest.Json

def isDigit (b : UInt8) : Bool := 0x30 ≤ b && b ≤ 0x39

def takeDigits (s : List UInt8) : List Nat × List UInt8 :=
  ((s.takeWhile isDigit).map fun b => (b - 0x30).toNat, s.dropWhile isDigit)

/-- The digits before the point and after it, and the sign and digits of a power of ten. -/
structure Literal where
  negative : Bool
  whole : List Nat
  places : List Nat
  power : Option (Bool × List Nat)
  deriving DecidableEq

/-- A text that is no number: whether it ends too early, and how many bytes were read. -/
structure Literal.Fault where
  cut : Bool
  size : Nat
  deriving DecidableEq

namespace Literal

/-- The power of ten, if there is one, in the text after the first `n` bytes of a number. -/
def scanPower (n : Nat) (s : List UInt8) :
    Except Literal.Fault (Option (Bool × List Nat) × Nat) :=
  match s with
  | [] => .ok (none, n)
  | e :: r =>
    if e = 'e'.toUInt8 ∨ e = 'E'.toUInt8 then
      let minus := r.head? = some '-'.toUInt8
      let signed := minus ∨ r.head? = some '+'.toUInt8
      let n := if signed then n + 2 else n + 1
      match (if signed then r.tail else r) with
      | [] => .error ⟨true, n⟩
      | b :: t =>
        if isDigit b then
          let (ds, _) := takeDigits (b :: t)
          .ok (some (minus, ds), n + ds.length)
        else .error ⟨false, n + 1⟩
    else .ok (none, n)

/-- The places after a point, if there is one, and what follows them. -/
def scanPlaces (n : Nat) (s : List UInt8) :
    Except Literal.Fault (List Nat × Nat × List UInt8) :=
  match s with
  | [] => .ok ([], n, [])
  | p :: r =>
    if p = '.'.toUInt8 then
      match takeDigits r with
      | ([], []) => .error ⟨true, n + 1⟩
      | ([], _ :: _) => .error ⟨false, n + 2⟩
      | (ds, t) => .ok (ds, n + 1 + ds.length, t)
    else .ok ([], n, p :: r)

/-- The whole part: a zero alone, or digits of which the first is none. -/
def scanWhole (n : Nat) (s : List UInt8) :
    Except Literal.Fault (List Nat × Nat × List UInt8) :=
  match s with
  | [] => .error ⟨true, n⟩
  | b :: r =>
    if b = '0'.toUInt8 then
      if r.head?.any isDigit then .error ⟨false, n + 2⟩ else .ok ([0], n + 1, r)
    else if isDigit b then
      let (ds, t) := takeDigits (b :: r)
      .ok (ds, n + ds.length, t)
    else .error ⟨false, n + 1⟩

/-- The number at the front of a text and the number of bytes it takes. -/
def scan (s : List UInt8) : Except Literal.Fault (Literal × Nat) := do
  let negative := s.head? = some '-'.toUInt8
  let (whole, n, s) ← if negative then scanWhole 1 s.tail else scanWhole 0 s
  let (places, n, s) ← scanPlaces n s
  let (power, n) ← scanPower n s
  return (⟨negative, whole, places, power⟩, n)

/-- The first digits whose number stays below `limit`, after the digits of `n`, and the other
digits. -/
def fit (limit n : Nat) : List Nat → Nat × List Nat
  | [] => (n, [])
  | d :: r => if n * 10 + d < limit then fit limit (n * 10 + d) r else (n, d :: r)

def wordLimit : Nat := Nat.pow 2 64

/-- `x` by a power of ten, which is rounded before `x` is multiplied or divided by it. There is none
if that is too large. Powers past the last finite one are taken in steps. -/
def scale (x : Binary64) (e : Int) : Option Binary64 :=
  if 0 ≤ e then
    if x.isZero then some x
    else if 308 < e then none
    else
      let y := x * .ofDecimal false 1 e
      if y.isInfinite then none else some y
  else if -308 ≤ e then some (x / .ofDecimal false 1 (-e))
  else if x.isZero then some x
  else scale (x / .ofDecimal false 1 308) (e + 308)
termination_by (-e).toNat

def exponent (l : Literal) : Int :=
  match l.power with
  | none => 0
  | some (negative, ds) =>
    let n : Nat := ds.foldl (fun n d => n * 10 + d) 0
    if negative then -n else n

/-- The value as a binary number. Of the digits those count that fit a word; the other whole digits
are zeros, and the other places are nothing. -/
def float (l : Literal) : Option Binary64 := do
  let (whole, zeros) := fit wordLimit 0 l.whole
  let (n, lost) := fit wordLimit whole l.places
  let e := (zeros.length : Int) - (l.places.length - lost.length : Nat) + l.exponent
  let x ← scale (.ofNat n) e
  return if l.negative then -x else x

inductive Number where
  | natural (n : Nat)
  | negative (i : Int)
  | float (x : Binary64)
  deriving DecidableEq

/-- A number without point and power that fits a word is whole; `-0` is not, since its sign would be
lost. -/
def number (l : Literal) : Option Number :=
  let (n, zeros) := fit wordLimit 0 l.whole
  if l.places = [] ∧ l.power = none ∧ zeros = [] ∧ (l.negative → 0 < n ∧ n ≤ Nat.pow 2 63) then
    some (if l.negative then .negative (-n) else .natural n)
  else l.float.map .float

/-- How many digits of the power of ten stand after the one with which it is out of reach. -/
def powerBeyond (l : Literal) : Nat :=
  match l.power with
  | none => 0
  | some (_, ds) => (fit (Nat.pow 2 31) 0 ds).2.length - 1

end Literal

end LatencyDigest.Json
