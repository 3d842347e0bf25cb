/-!
Binary64 numbers as a sign and a rank. The bit patterns of the numbers that are not negative,
counted from zero, stand in the order of their magnitudes, so two numbers compare as their ranks do.
-/

namespace LatencyDigest

structure Binary64 where
  negative : Bool
  rank : Nat
  rank_lt : rank < Nat.pow 2 63
  deriving DecidableEq

namespace Binary64

/-- Below this rank a number is finite, above it stand the NaNs. -/
def infinityRank : Nat := 2047 * Nat.pow 2 52

/-- The magnitude at a finite rank, in units of `2 ^ -1074`. -/
def magnitudeAt (n : Nat) : Nat :=
  if n < Nat.pow 2 52 then n
  else (Nat.pow 2 52 + n % Nat.pow 2 52) * Nat.pow 2 (n / Nat.pow 2 52 - 1)

/-- One in units of `2 ^ -1074`. -/
def unit : Nat := Nat.pow 2 1074

def ofBits (b : UInt64) : Binary64 :=
  ⟨Nat.pow 2 63 ≤ b.toNat, b.toNat % Nat.pow 2 63, Nat.mod_lt _ (by decide)⟩

def toBits (x : Binary64) : UInt64 :=
  UInt64.ofNat ((if x.negative then Nat.pow 2 63 else 0) + x.rank)

def zero : Binary64 := ⟨false, 0, by decide⟩

def infinity : Binary64 := ⟨false, infinityRank, by decide⟩

def nan : Binary64 := ⟨false, infinityRank + Nat.pow 2 51, by decide⟩

def maxFinite : Binary64 := ⟨false, infinityRank - 1, by decide⟩

instance : Inhabited Binary64 := ⟨zero⟩

def isNaN (x : Binary64) : Bool := infinityRank < x.rank

def isInfinite (x : Binary64) : Bool := x.rank = infinityRank

def isFinite (x : Binary64) : Bool := x.rank < infinityRank

def isZero (x : Binary64) : Bool := x.rank = 0

def magnitude (x : Binary64) : Nat := magnitudeAt x.rank

/-- The value of a finite number in units of `2 ^ -1074`. -/
def scaled (x : Binary64) : Int := if x.negative then -x.magnitude else x.magnitude

def neg (x : Binary64) : Binary64 := { x with negative := !x.negative }

instance : Neg Binary64 := ⟨neg⟩

/-- A NaN, with the bit set that marks it as quiet. -/
def quiet (x : Binary64) : Binary64 :=
  ⟨x.negative, x.rank ||| Nat.pow 2 51, Nat.or_lt_two_pow x.rank_lt (by decide)⟩

end Binary64

end LatencyDigest
