/-!
Whole numbers of 64 bits: how a log writes them, in base ten or after `0x` in base sixteen, and how
they are printed.
-/

namespace LatencyDigest

/-- Why a text is no whole number of 64 bits. -/
inductive IntegerFault where
  | empty
  | invalidDigit
  | tooLarge
  | tooSmall
  deriving DecidableEq

def IntegerFault.message : IntegerFault → String
  | .empty => "cannot parse integer from empty string"
  | .invalidDigit => "invalid digit found in string"
  | .tooLarge => "number too large to fit in target type"
  | .tooSmall => "number too small to fit in target type"

namespace Integer

/-- The value of a digit in a base of at most sixteen. -/
def digit? (base : Nat) (c : Char) : Option Nat :=
  let n := c.toNat
  let d? :=
    if '0'.toNat ≤ n ∧ n ≤ '9'.toNat then some (n - '0'.toNat)
    else if 'a'.toNat ≤ n ∧ n ≤ 'f'.toNat then some (n - 'a'.toNat + 10)
    else if 'A'.toNat ≤ n ∧ n ≤ 'F'.toNat then some (n - 'A'.toNat + 10)
    else none
  d?.filter (· < base)

/-- Digits from the left, each of them checked before the next: for its form, then that the number
stays within the limit. -/
def digits (base limit : Nat) (beyond : IntegerFault) (n : Nat) :
    List Char → Except IntegerFault Nat
  | [] => .ok n
  | c :: r =>
    match digit? base c with
    | none => .error .invalidDigit
    | some d =>
      let m := n * base + d
      if m ≤ limit then digits base limit beyond m r else .error beyond

def maxValue : Nat := Nat.pow 2 63 - 1

/-- An optional sign and digits, as a number of 64 bits. -/
def ofBase (base : Nat) (s : List Char) : Except IntegerFault Int64 :=
  match s with
  | [] => .error .empty
  | ['+'] | ['-'] => .error .invalidDigit
  | '-' :: r => (digits base (maxValue + 1) .tooSmall 0 r).map fun n => Int64.ofInt (-n)
  | '+' :: r => (digits base maxValue .tooLarge 0 r).map fun n => Int64.ofInt n
  | r => (digits base maxValue .tooLarge 0 r).map fun n => Int64.ofInt n

def read : List Char → Except IntegerFault Int64
  | '0' :: 'x' :: r => ofBase 16 r
  | r => ofBase 10 r

def chars (i : Int64) : List Char :=
  if i.toInt < 0 then '-' :: Nat.toDigits 10 i.toInt.natAbs else Nat.toDigits 10 i.toInt.natAbs

end Integer

end LatencyDigest
