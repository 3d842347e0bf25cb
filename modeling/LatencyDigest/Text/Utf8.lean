/-!
UTF-8 read from and written to bytes. Bytes that are no UTF-8 are told by the number of good bytes
before them.
-/

namespace LatencyDigest.Text

def isContinuation (b : UInt8) : Bool := 0x80 ≤ b && b < 0xC0

/-- The character of that number, unless it has a shorter form or is no character at all. -/
def scalar? (least code : Nat) : Option Char :=
  if h : least ≤ code ∧ code.isValidChar then some (Char.ofNatAux code h.2) else none

/-- The number that a lead byte and the bytes after it stand for. -/
def codeOf (lead : Nat) (more : List UInt8) : Nat :=
  more.foldl (fun n b => n * 64 + b.toNat % 64) lead

/-- The character at the front and the bytes after it. -/
def firstChar? : List UInt8 → Option (Char × List UInt8)
  | [] => none
  | a :: r =>
    if a < 0x80 then (scalar? 0 a.toNat).map (·, r)
    else if a < 0xC0 then none
    else if a < 0xE0 then
      match r with
      | b :: r =>
        if isContinuation b then (scalar? 0x80 (codeOf (a.toNat % 32) [b])).map (·, r) else none
      | _ => none
    else if a < 0xF0 then
      match r with
      | b :: c :: r =>
        if isContinuation b && isContinuation c then
          (scalar? 0x800 (codeOf (a.toNat % 16) [b, c])).map (·, r)
        else none
      | _ => none
    else if a < 0xF8 then
      match r with
      | b :: c :: d :: r =>
        if isContinuation b && isContinuation c && isContinuation d then
          (scalar? 0x10000 (codeOf (a.toNat % 8) [b, c, d])).map (·, r)
        else none
      | _ => none
    else none

theorem firstChar?_length {s r : List UInt8} {c : Char} (h : firstChar? s = some (c, r)) :
    r.length < s.length := by
  unfold firstChar? at h
  repeat' split at h
  all_goals
    simp only [Option.map_eq_some_iff, Prod.mk.injEq, reduceCtorEq] at h
    try obtain ⟨_, _, _, rfl⟩ := h
    try simp only [List.length_cons]; omega

/-- The characters, or the number of bytes that come before the first that are not UTF-8. -/
def decodeFrom (good : Nat) (s : List UInt8) : Except Nat (List Char) :=
  match h : firstChar? s with
  | some (c, r) =>
    have := firstChar?_length h
    (decodeFrom (good + c.utf8Size) r).map (c :: ·)
  | none => if s.isEmpty then .ok [] else .error good
termination_by s.length

def decode (s : List UInt8) : Except Nat (List Char) := decodeFrom 0 s

def encode (s : List Char) : List UInt8 := s.flatMap String.utf8EncodeChar

end LatencyDigest.Text
