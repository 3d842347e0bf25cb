import LatencyDigest.Json.Fault
import LatencyDigest.Text.Utf8

/-!
Strings as a JSON text writes them. A string that is read has to be text; one that is passed over
may also hold halves of surrogate pairs.
-/

namespace LatencyDigest.Json.Quoted

/-- The character that a letter after a backslash stands for. -/
def simpleEscape? (b : UInt8) : Option UInt8 :=
  if b = '"'.toUInt8 ∨ b = '\\'.toUInt8 ∨ b = '/'.toUInt8 then some b
  else if b = 'b'.toUInt8 then some 0x08
  else if b = 'f'.toUInt8 then some 0x0C
  else if b = 'n'.toUInt8 then some 0x0A
  else if b = 'r'.toUInt8 then some 0x0D
  else if b = 't'.toUInt8 then some 0x09
  else none

def hexDigit? (b : UInt8) : Option Nat :=
  if 0x30 ≤ b ∧ b ≤ 0x39 then some (b - 0x30).toNat
  else if 0x41 ≤ b ∧ b ≤ 0x46 then some (b - 0x37).toNat
  else if 0x61 ≤ b ∧ b ≤ 0x66 then some (b - 0x57).toNat
  else none

def moreHex (code : Option Nat) (b : UInt8) : Option Nat := do
  return (← code) * 16 + (← hexDigit? b)

def isHigh (n : Nat) : Bool := 0xD800 ≤ n && n < 0xDC00

def isLow (n : Nat) : Bool := 0xDC00 ≤ n && n < 0xE000

/-- Where in a string a scanner is: in its text, after a backslash, within the four digits of a
number, or after the first half of a surrogate pair, of which the second must follow. -/
inductive Mode where
  | text
  | escape
  | hex (count : Nat) (code : Option Nat) (high : Option Nat)
  | pair (high : Nat)
  | pairEscape (high : Nat)

def charBytes (n : Nat) : List UInt8 := String.utf8EncodeChar (Char.ofNat n)

/-- The bytes of the string whose text after the opening quote follows, of which `n` bytes have been
read and have given `done`, the last of them in front. -/
def read : Mode → Nat → List UInt8 → List UInt8 → Except (Fault × Nat) (List UInt8)
  | _, n, _, [] => .error (.endOfString, n)
  | .text, n, done, b :: r =>
    if b = '"'.toUInt8 then .ok done.reverse
    else if b = '\\'.toUInt8 then read .escape (n + 1) done r
    else if b < 0x20 then .error (.controlCharacter, n + 1)
    else read .text (n + 1) (b :: done) r
  | .escape, n, done, b :: r =>
    if b = 'u'.toUInt8 then read (.hex 0 (some 0) none) (n + 1) done r
    else match simpleEscape? b with
      | some c => read .text (n + 1) (c :: done) r
      | none => .error (.badEscape, n + 1)
  | .hex count code high, n, done, b :: r =>
    let code := moreHex code b
    if count < 3 then read (.hex (count + 1) code high) (n + 1) done r
    else match code, high with
      | none, _ => .error (.badEscape, n + 1)
      | some c, none =>
        if isLow c then .error (.loneSurrogate, n + 1)
        else if isHigh c then read (.pair c) (n + 1) done r
        else read .text (n + 1) ((charBytes c).reverse ++ done) r
      | some c, some h =>
        if isLow c then
          let whole := (h - 0xD800) * 0x400 + (c - 0xDC00) + 0x10000
          read .text (n + 1) ((charBytes whole).reverse ++ done) r
        else .error (.loneSurrogate, n + 1)
  | .pair high, n, done, b :: r =>
    if b = '\\'.toUInt8 then read (.pairEscape high) (n + 1) done r
    else .error (.halfSurrogatePair, n + 1)
  | .pairEscape high, n, done, b :: r =>
    if b = 'u'.toUInt8 then read (.hex 0 (some 0) (some high)) (n + 1) done r
    else .error (.halfSurrogatePair, n + 1)

/-- How many bytes of a string and its closing quote follow, after the first `n`. A control
character is not passed over. -/
def skip : Mode → Nat → List UInt8 → Except (Fault × Nat) Nat
  | _, n, [] => .error (.endOfString, n)
  | .escape, n, b :: r =>
    if b = 'u'.toUInt8 then skip (.hex 0 (some 0) none) (n + 1) r
    else if (simpleEscape? b).isSome then skip .text (n + 1) r
    else .error (.badEscape, n + 1)
  | .hex count code high, n, b :: r =>
    let code := moreHex code b
    if count < 3 then skip (.hex (count + 1) code high) (n + 1) r
    else if code.isSome then skip .text (n + 1) r
    else .error (.badEscape, n + 1)
  | _, n, b :: r =>
    if b = '"'.toUInt8 then .ok (n + 1)
    else if b = '\\'.toUInt8 then skip .escape (n + 1) r
    else if b < 0x20 then .error (.controlCharacter, n)
    else skip .text (n + 1) r

end LatencyDigest.Json.Quoted
