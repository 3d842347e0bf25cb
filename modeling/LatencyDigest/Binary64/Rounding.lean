import LatencyDigest.Binary64.Basic

/-!
Rounding of an exact quotient to the nearest binary64 number. Every operation that rounds gives its
exact result, as a quotient in units of `2 ^ -1074`, to `ofRatio`.
-/

namespace LatencyDigest

/-- `n / d` to the nearest whole number, a half to the even one. -/
def roundHalfEven (n d : Nat) : Nat :=
  if 2 * (n % d) < d then n / d
  else if d < 2 * (n % d) then n / d + 1
  else n / d + n / d % 2

namespace Binary64

/-- The rank nearest to `n / d` units. The quotient is cut to 53 bits, and a carry out of them moves
on to the next exponent by itself; from half a step past the largest finite number on it is
infinity. -/
def nearestRank (n d : Nat) : Nat :=
  let cut := (n / d).log2 - 52
  min (cut * Nat.pow 2 52 + roundHalfEven n (d * Nat.pow 2 cut)) infinityRank

theorem nearestRank_lt (n d : Nat) : nearestRank n d < Nat.pow 2 63 :=
  Nat.lt_of_le_of_lt (Nat.min_le_right _ _) (by decide)

def ofRatio (negative : Bool) (n d : Nat) : Binary64 :=
  ⟨negative, nearestRank n d, nearestRank_lt n d⟩

def ofNat (n : Nat) : Binary64 := ofRatio false (n * unit) 1

def ofInt (i : Int) : Binary64 := ofRatio (i < 0) (i.natAbs * unit) 1

/-- `c * 10 ^ e`, rounded. The exponents for which the power need not be formed come first: from `10
^ 309` on all is infinite, and below `10 ^ -330` all is zero. -/
def ofDecimal (negative : Bool) (c : Nat) (e : Int) : Binary64 :=
  if c = 0 then { zero with negative }
  else if 309 ≤ e then { infinity with negative }
  else if e + (c.log2 / 3 + 1 : Nat) < -330 then { zero with negative }
  else if 0 ≤ e then ofRatio negative (c * Nat.pow 10 e.toNat * unit) 1
  else ofRatio negative (c * unit) (Nat.pow 10 (-e).toNat)

end Binary64

end LatencyDigest
