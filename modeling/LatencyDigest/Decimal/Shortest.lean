import LatencyDigest.Binary64.Basic

/-!
The shortest decimal of a binary64 number: among the decimals that round to it one of the fewest
digits, and the nearest of those. Every number here is a whole number of units of `10 ^ -1074`, in
which each finite number has an exact value.
-/

namespace LatencyDigest.Decimal

def places : Nat := 1074

def unit : Nat := Nat.pow 10 places

/-- What to do with a number half-way between two decimals. -/
inductive Tie where
  | up
  | even
  deriving DecidableEq

/-- The decimals that round to one number. The bounds are doubled, to be whole. -/
structure Cell where
  low : Nat
  high : Nat
  closed : Bool

/-- The bounds are half-way to the neighbouring ranks, and belong to an even rank. -/
def Cell.ofRank (n : Nat) : Cell where
  low := (Binary64.magnitudeAt (n - 1) + Binary64.magnitudeAt n) * Nat.pow 5 places
  high := (Binary64.magnitudeAt n + Binary64.magnitudeAt (n + 1)) * Nat.pow 5 places
  closed := n % 2 = 0

def Cell.contains (c : Cell) (u : Nat) : Bool :=
  if c.closed then c.low ≤ 2 * u && 2 * u ≤ c.high else c.low < 2 * u && 2 * u < c.high

/-- The multiple of `step` in the cell that is nearest to `v`, if one of those beside `v` is in it.
-/
def Cell.onGrid (c : Cell) (tie : Tie) (v step : Nat) : Option Nat :=
  let below := v / step * step
  let above := below + step
  match c.contains below, c.contains above with
  | false, false => none
  | true, false => some below
  | false, true => some above
  | true, true =>
    if 2 * v < below + above then some below
    else if below + above < 2 * v then some above
    else match tie with
      | .up => some above
      | .even => some (if v / step % 2 = 0 then below else above)

def digitCount (n : Nat) : Nat := (Nat.toDigits 10 n).length

/-- The first of the grids of `1`, `2`, … `17` digits that has a decimal for the rank decides. -/
def shortest (tie : Tie) (n : Nat) : Nat :=
  let v := Binary64.magnitudeAt n * Nat.pow 5 places
  let size := digitCount v
  ((List.range 17).findSome? fun i =>
    (Cell.ofRank n).onGrid tie v (Nat.pow 10 (size - (i + 1)))).getD v

end LatencyDigest.Decimal
