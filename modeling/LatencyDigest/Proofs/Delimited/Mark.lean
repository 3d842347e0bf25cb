import LatencyDigest.Proofs.Delimited.Lines
import LatencyDigest.Proofs.Text.Utf8

/-! The byte-order mark in front of a text is the mark in front of its first characters. -/

namespace LatencyDigest.Delimited

open Text (encode)

def markChar : Char := Char.ofNat 0xFEFF

/-- The characters after a byte-order mark, if there is one. -/
def dropMarkChar : List Char → List Char
  | [] => []
  | c :: s => if c = markChar then s else c :: s

theorem encode_markChar (s : List Char) (r : List UInt8) :
    encode (markChar :: s) ++ r = 0xEF :: 0xBB :: 0xBF :: (encode s ++ r) := by
  have hm : String.utf8EncodeChar markChar = [0xEF, 0xBB, 0xBF] := by decide
  rw [Text.encode_cons, hm]
  rfl

theorem eq_markChar_of_encode {c : Char} {s : List Char} {r t : List UInt8}
    (h : encode (c :: s) ++ r = 0xEF :: 0xBB :: 0xBF :: t) : c = markChar := by
  have hc := Text.firstChar?_encode c s r
  have hm := Text.firstChar?_encode markChar [] t
  rw [h] at hc
  rw [encode_markChar, Text.encode_nil, List.nil_append] at hm
  rw [hm] at hc
  exact (Prod.mk.inj (Option.some.inj hc)).1.symm

theorem dropMark_eq_self {s : List UInt8} (h : ∀ t, s ≠ 0xEF :: 0xBB :: 0xBF :: t) :
    dropMark s = s := by
  rw [dropMark]
  exact h

theorem dropMark_of_head {s : List UInt8} (h : s.head? ≠ some 0xEF) : dropMark s = s := by
  apply dropMark_eq_self
  rintro t rfl
  exact h rfl

theorem dropMark_inQuotes (f r : List UInt8) : dropMark (inQuotes f ++ r) = inQuotes f ++ r := by
  apply dropMark_of_head
  rw [inQuotes, List.append_assoc, List.cons_append, List.head?_cons]
  decide

theorem dropMark_encode (s : List Char) {r : List UInt8} (hr : r.head? ≠ some 0xEF) :
    dropMark (encode s ++ r) = encode (dropMarkChar s) ++ r := by
  cases s with
  | nil => exact dropMark_of_head hr
  | cons c s =>
    rw [dropMarkChar]
    split
    · next hc =>
      rw [hc, encode_markChar]
      rfl
    · next hc =>
      apply dropMark_eq_self
      intro t ht
      exact hc (eq_markChar_of_encode ht)

theorem dropMarkChar_of_head {s : List Char} (h : s.head? ≠ some markChar) :
    dropMarkChar s = s := by
  cases s with
  | nil => rfl
  | cons c s => rw [dropMarkChar, if_neg (by simpa using h)]

theorem head_trim_of_head {s : List Char} (h : s.head? = some markChar) :
    (Text.trim s).head? = some markChar := by
  obtain ⟨t, rfl⟩ := List.head?_eq_some_iff.1 h
  exact Text.head_trimBy_of_not (by decide)

theorem exists_append_dropMarkChar (s : List Char) : ∃ p, s = p ++ dropMarkChar s := by
  cases s with
  | nil => exact ⟨[], rfl⟩
  | cons c s =>
    rw [dropMarkChar]
    split
    · exact ⟨[c], rfl⟩
    · exact ⟨[], rfl⟩

theorem needsQuotes_dropMarkChar {s : List Char} (h : needsQuotes (encode s) = false) :
    needsQuotes (encode (dropMarkChar s)) = false := by
  obtain ⟨p, hp⟩ := exists_append_dropMarkChar s
  rw [hp, Text.encode_append, needsQuotes, List.any_append, Bool.or_eq_false_iff] at h
  exact h.2

/-- Without the mark in front of it a line is a line of the same fields, but for a mark in front of
the first. -/
theorem Written.exists_dropMark {s : List Char} {w r : List UInt8} (h : Written (encode s) w)
    (hr : r.head? ≠ some 0xEF) : ∃ u v, dropMark (w ++ r) = v ++ r ∧ Written (encode u) v ∧
      (u = s ∨ u = dropMarkChar s) := by
  cases h with
  | plain hq =>
    exact ⟨_, _, dropMark_encode s hr, .plain (needsQuotes_dropMarkChar hq), .inr rfl⟩
  | quoted => exact ⟨s, _, dropMark_inQuotes _ r, .quoted, .inl rfl⟩

theorem Line.exists_dropMark {s : List Char} {fs : List (List UInt8)} {l r : List UInt8}
    (h : Line (encode s :: fs) l) (hr : r.head? ≠ some 0xEF) :
    ∃ u m, dropMark (l ++ r) = m ++ r ∧ Line (encode u :: fs) m ∧ (u = s ∨ u = dropMarkChar s) := by
  cases h with
  | one hw =>
    obtain ⟨u, v, hd, hv, hu⟩ := hw.exists_dropMark hr
    exact ⟨u, v, hd, .one hv, hu⟩
  | @cons _ w _ m hw hl =>
    obtain ⟨u, v, hd, hv, hu⟩ := hw.exists_dropMark (r := comma :: (m ++ r))
      (by rw [List.head?_cons]; decide)
    refine ⟨u, v ++ comma :: m, ?_, .cons hv hl, hu⟩
    rw [List.append_assoc, List.cons_append, hd, List.append_assoc, List.cons_append]

end LatencyDigest.Delimited
