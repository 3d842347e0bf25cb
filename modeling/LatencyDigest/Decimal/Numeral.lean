import LatencyDigest.Binary64.Rounding

/-!
Reading a number: an optional sign, then `inf`, `infinity` or `nan` in any case, or digits with an
optional point among, before or after them and an optional power of ten.
-/

namespace LatencyDigest

def takeSign : List Char → Bool × List Char
  | '-' :: r => (true, r)
  | '+' :: r => (false, r)
  | r => (false, r)

namespace Decimal

def wholeNumber? (s : List Char) : Option Nat :=
  if s ≠ [] ∧ s.all Char.isDigit then some (Nat.ofDigitChars 10 s 0) else none

/-- A power of ten with its mark, or nothing. -/
def power? : List Char → Option Int
  | [] => some 0
  | c :: r =>
    if c = 'e' ∨ c = 'E' then
      let (negative, digits) := takeSign r
      (wholeNumber? digits).map fun n => if negative then -n else n
    else none

/-- The digits at the point: those before it, those after it, and what follows. -/
def takePoint (s : List Char) : List Char × List Char × List Char :=
  let whole := s.takeWhile Char.isDigit
  match s.dropWhile Char.isDigit with
  | '.' :: r => (whole, r.takeWhile Char.isDigit, r.dropWhile Char.isDigit)
  | r => (whole, [], r)

/-- Some digits, then an optional power of ten: the digits as a number and the power of ten of the
last of them. -/
def unsigned? (s : List Char) : Option (Nat × Int) :=
  match takePoint s with
  | (whole, places, rest) =>
    if whole = [] ∧ places = [] then none
    else (power? rest).map fun e => (Nat.ofDigitChars 10 (whole ++ places) 0, e - places.length)

end Decimal

namespace Binary64

def ofChars? (s : List Char) : Option Binary64 :=
  let (negative, s) := takeSign s
  let name := s.map Char.toLower
  if name = ['i', 'n', 'f'] ∨ name = ['i', 'n', 'f', 'i', 'n', 'i', 't', 'y'] then
    some { infinity with negative }
  else if name = ['n', 'a', 'n'] then some { nan with negative }
  else (Decimal.unsigned? s).map fun (c, e) => ofDecimal negative c e

end Binary64

end LatencyDigest
