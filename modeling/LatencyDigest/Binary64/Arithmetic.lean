import LatencyDigest.Binary64.Rounding

/-!
The arithmetic of binary64: each operation is its exact result, rounded once. An operation on a NaN
gives the first NaN among its operands, made quiet.
-/

namespace LatencyDigest.Binary64

def orNaN (x y : Binary64) (z : Binary64) : Binary64 :=
  if x.isNaN then x.quiet else if y.isNaN then y.quiet else z

def withSign (negative : Bool) (x : Binary64) : Binary64 := { x with negative }

/-- A sum that is exactly zero is `-0` only when both terms are. -/
def add (x y : Binary64) : Binary64 :=
  orNaN x y <|
    if x.isInfinite then
      if y.isInfinite && x.negative != y.negative then nan else x
    else if y.isInfinite then y
    else
      let s := x.scaled + y.scaled
      let negative := if s = 0 then x.negative && y.negative else decide (s < 0)
      ofRatio negative s.natAbs 1

def sub (x y : Binary64) : Binary64 := add x (-y)

def mul (x y : Binary64) : Binary64 :=
  let negative := x.negative != y.negative
  orNaN x y <|
    if x.isInfinite || y.isInfinite then
      if x.isZero || y.isZero then nan else withSign negative infinity
    else ofRatio negative (x.magnitude * y.magnitude) unit

def div (x y : Binary64) : Binary64 :=
  let negative := x.negative != y.negative
  orNaN x y <|
    if x.isInfinite then
      if y.isInfinite then nan else withSign negative infinity
    else if y.isInfinite then withSign negative zero
    else if y.isZero then
      if x.isZero then nan else withSign negative infinity
    else ofRatio negative (x.magnitude * unit) y.magnitude

instance : Add Binary64 := ⟨add⟩
instance : Sub Binary64 := ⟨sub⟩
instance : Mul Binary64 := ⟨mul⟩
instance : Div Binary64 := ⟨div⟩

/-- The whole part of the square root of the number of `bits` binary digits at the low end of `n`,
built two digits at a time from the top. -/
def rootOfPairs (n : Nat) : Nat → Nat
  | 0 => 0
  | pairs + 1 =>
    let r := 2 * rootOfPairs (n / 4) pairs
    if (r + 1) * (r + 1) ≤ n then r + 1 else r

def wholeRoot (n : Nat) : Nat := rootOfPairs n (n.log2 / 2 + 1)

/-- One more bit than the whole part of the root tells on which side of a half the root lies, and an
inexact root is told from an exact one by a bit below that. -/
def sqrt (x : Binary64) : Binary64 :=
  if x.isNaN then x.quiet
  else if x.isZero then x
  else if x.negative then nan
  else if x.isInfinite then x
  else
    let square := x.magnitude * unit
    let r := wholeRoot square
    ofRatio false (if r * r = square then 2 * r else 2 * r + 1) 2

/-- The sum from the left, from `-0`, which leaves every first term as it is. -/
def sum (xs : List Binary64) : Binary64 := xs.foldl (· + ·) (-zero)

/-- The largest index that a table can have. -/
def maxIndex : Nat := Nat.pow 2 64 - 1

/-- The whole number below `x` as an index: what is negative and what is NaN gives `0`, what is too
large the last index. -/
def floorIndex (x : Binary64) : Nat :=
  if x.isNaN || x.negative then 0
  else if x.isInfinite then maxIndex
  else min (x.magnitude / unit) maxIndex

/-- The whole number above `x` as an index, cut off as `floorIndex` is. -/
def ceilIndex (x : Binary64) : Nat :=
  if x.isNaN || x.negative then 0
  else if x.isInfinite then maxIndex
  else min ((x.magnitude + unit - 1) / unit) maxIndex

end LatencyDigest.Binary64
