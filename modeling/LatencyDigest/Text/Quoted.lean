import LatencyDigest.Text.Unseen

/-!
A text in quotation marks, with escapes for what would not show.
-/

namespace LatencyDigest.Text

/-- A character as an escape by its number in base sixteen. -/
def numberEscape (c : Char) : List Char :=
  ['\\', 'u', '\x7b'] ++ Nat.toDigits 16 c.toNat ++ ['\x7d']

def escape (c : Char) : List Char :=
  if c = '\t' then ['\\', 't']
  else if c = '\r' then ['\\', 'r']
  else if c = '\n' then ['\\', 'n']
  else if c.toNat = 0 then ['\\', '0']
  else if c = '"' ∨ c = '\\' then ['\\', c]
  else if isUnseen c then numberEscape c
  else [c]

def quoted (s : List Char) : String :=
  String.ofList ('"' :: s.flatMap escape ++ ['"'])

end LatencyDigest.Text
