import LatencyDigest.Binary64.Rounding
import LatencyDigest.Decimal.Shortest

/-!
The written forms of a binary64 number: the shortest decimal in full, a fixed number of places, and
the form with a power of ten that messages about numbers use.
-/

namespace LatencyDigest

namespace Decimal

def dropTrailingZeros (s : List Char) : List Char :=
  (s.reverse.dropWhile (· = '0')).reverse

def padded (width n : Nat) : List Char :=
  let s := Nat.toDigits 10 n
  List.replicate (width - s.length) '0' ++ s

/-- The decimal places of `u` units, as far as they are needed. -/
def fraction (u : Nat) : List Char :=
  dropTrailingZeros (padded places (u % unit))

/-- `u` units in full; a whole number has no point. -/
def positional (u : Nat) : List Char :=
  Nat.toDigits 10 (u / unit) ++ match fraction u with
    | [] => []
    | f => '.' :: f

/-- `q` counted in units of `10 ^ -places`, with all its places. -/
def fixed (places q : Nat) : List Char :=
  Nat.toDigits 10 (q / Nat.pow 10 places) ++ '.' :: padded places (q % Nat.pow 10 places)

/-- `u` units with a point always, and with a power of ten from `10 ^ 16` on and below `10 ^ -5`. -/
def scientific (u : Nat) : List Char :=
  let power : Int := digitCount u - 1 - places
  if u ≠ 0 ∧ (power < -5 ∨ 15 < power) then
    let mantissa := match dropTrailingZeros (Nat.toDigits 10 u) with
      | d :: e :: r => d :: '.' :: e :: r
      | s => s
    mantissa ++ 'e' :: (if power < 0 then '-' else '+') :: Nat.toDigits 10 power.natAbs
  else
    Nat.toDigits 10 (u / unit) ++ '.' :: match fraction u with
      | [] => ['0']
      | f => f

end Decimal

namespace Binary64

def signChars (x : Binary64) : List Char := if x.negative then ['-'] else []

/-- A NaN is written without a sign; what else is not finite and what is finite, with it. -/
def written (x : Binary64) (finite : List Char) : List Char :=
  if x.isNaN then ['N', 'a', 'N']
  else x.signChars ++ if x.isInfinite then ['i', 'n', 'f'] else finite

/-- The fewest digits that read back, written in full. -/
def chars (x : Binary64) : List Char :=
  x.written (Decimal.positional (Decimal.shortest .up x.rank))

def text (x : Binary64) : String := String.ofList x.chars

/-- The exact value to a fixed number of places, a half to the even neighbour. -/
def fixedChars (places : Nat) (x : Binary64) : List Char :=
  x.written (Decimal.fixed places (roundHalfEven (x.magnitude * Nat.pow 10 places) unit))

def fixedText (places : Nat) (x : Binary64) : String := String.ofList (x.fixedChars places)

/-- The fewest digits that read back, with a power of ten where the number is very large or small.
-/
def scientificText (x : Binary64) : String :=
  String.ofList (x.written (Decimal.scientific (Decimal.shortest .even x.rank)))

end Binary64

end LatencyDigest
