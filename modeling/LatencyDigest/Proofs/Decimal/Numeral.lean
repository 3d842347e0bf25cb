import LatencyDigest.Decimal.Numeral
import LatencyDigest.Decimal.Shortest
import LatencyDigest.Proofs.Binary64.Operations
import LatencyDigest.Proofs.Text.Trimming

/-! Reading digits with a point or without one, after a sign or without one. -/

namespace LatencyDigest

namespace Decimal

theorem takePoint_whole {s : List Char} (h : s.all Char.isDigit) : takePoint s = (s, [], []) := by
  rw [List.all_eq_true] at h
  have hd : s.dropWhile Char.isDigit = [] := by simpa using h
  rw [takePoint, hd, List.takeWhile_eq_self_iff.2 h]

theorem takePoint_point {s t : List Char} (hs : s.all Char.isDigit) (ht : t.all Char.isDigit) :
    takePoint (s ++ '.' :: t) = (s, t, []) := by
  rw [List.all_eq_true] at hs ht
  have hw : (s ++ '.' :: t).takeWhile Char.isDigit = s := by
    rw [List.takeWhile_append_of_pos hs, List.takeWhile_cons_of_neg (by decide), List.append_nil]
  have hd : (s ++ '.' :: t).dropWhile Char.isDigit = '.' :: t := by
    rw [List.dropWhile_append_of_pos hs, List.dropWhile_cons_of_neg (by decide)]
  have he : t.dropWhile Char.isDigit = [] := by simpa using ht
  rw [takePoint, hw, hd]
  simp only [he, List.takeWhile_eq_self_iff.2 ht]

theorem unsigned?_whole {s : List Char} (hne : s ≠ []) (h : s.all Char.isDigit) :
    unsigned? s = some (Nat.ofDigitChars 10 s 0, 0) := by
  simp [unsigned?, takePoint_whole h, power?, hne]

theorem unsigned?_point {s t : List Char} (hne : s ≠ [] ∨ t ≠ []) (hs : s.all Char.isDigit)
    (ht : t.all Char.isDigit) :
    unsigned? (s ++ '.' :: t) = some (Nat.ofDigitChars 10 (s ++ t) 0, -(t.length : Int)) := by
  have hne' : ¬(s = [] ∧ t = []) := by
    rintro ⟨rfl, rfl⟩
    simp at hne
  simp [unsigned?, takePoint_point hs ht, power?, hne']

/-! Decimal units. -/

/-- The least number above zero, in decimal units. -/
def least : Nat := Nat.pow 5 places

theorem least_pos : 0 < least := by
  unfold least places
  generalize 1074 = k
  exact Nat.pow_pos (by decide)

theorem mul_least (m : Nat) : m * Nat.pow 5 places = m * least := by
  unfold least
  rfl

theorem unit_eq_pow : unit = 10 ^ places := by
  unfold unit
  generalize places = k
  rfl

theorem unit_pos : 0 < unit := by
  rw [unit_eq_pow]
  exact Nat.pow_pos (by decide)

theorem unit_eq : unit = Binary64.unit * least := by
  unfold unit Binary64.unit least places
  generalize 1074 = k
  exact Nat.mul_pow 2 5 k

theorem lt_ten_pow_log2 (c : Nat) : c < 10 ^ (c.log2 / 3 + 1) :=
  calc c < 2 ^ (c.log2 + 1) := Nat.lt_log2_self
    _ ≤ 2 ^ (3 * (c.log2 / 3 + 1)) := Nat.pow_le_pow_right (by decide) (by omega)
    _ = 8 ^ (c.log2 / 3 + 1) := Nat.pow_mul 2 3 _
    _ ≤ 10 ^ (c.log2 / 3 + 1) := Nat.pow_le_pow_left (by decide) _

end Decimal

theorem takeSign_of_toNat {c : Char} (hc : 46 ≤ c.toNat) (r : List Char) :
    takeSign (c :: r) = (false, c :: r) := by
  rw [takeSign]
  · rintro _ he
    cases he
    exact absurd hc (by decide)
  · rintro _ he
    cases he
    exact absurd hc (by decide)

/-- What begins with a point or a digit after its sign can only be a number. -/
theorem Binary64.ofChars?_of_sign {s r : List Char} {c : Char} {negative : Bool}
    (hs : takeSign s = (negative, c :: r)) (hc : 46 ≤ c.toNat ∧ c.toNat ≤ 57) :
    ofChars? s = (Decimal.unsigned? (c :: r)).map fun p => ofDecimal negative p.1 p.2 := by
  have hlower : c.toLower = c := by
    refine dif_neg ?_
    rw [UInt32.le_iff_toNat_le]
    change ¬(65 ≤ c.toNat ∧ _)
    omega
  have hne {d : Char} (hd : 57 < d.toNat) : c ≠ d := by
    rintro rfl
    omega
  simp [ofChars?, hs, hlower, hne (d := 'i') (by decide), hne (d := 'n') (by decide)]

theorem Binary64.ofRatio_eq_zero {n d : Nat} (negative : Bool) (h : nearestRank n d = 0) :
    ofRatio negative n d = { zero with negative } := by
  simp only [ofRatio, h]
  rfl

/-- What is so small is rounded to zero, whether or not its power of ten is formed. -/
theorem Decimal.nearestRank_of_small {c j : Nat} (hj : j ≤ places)
    (h : c.log2 / 3 + 1 + 330 < j) : Binary64.nearestRank (c * 10 ^ (places - j)) least = 0 := by
  obtain ⟨m, hm, hlt⟩ : ∃ m, c.log2 / 3 + 1 + (places - j) ≤ m ∧ 2 * 10 ^ m < least := by
    have hplaces : places = 1074 := rfl
    exact ⟨743, by omega, by decide +kernel⟩
  have hunits : c * 10 ^ (places - j) ≤ 10 ^ m :=
    calc c * 10 ^ (places - j) ≤ 10 ^ (c.log2 / 3 + 1) * 10 ^ (places - j) :=
          Nat.mul_le_mul_right _ (lt_ten_pow_log2 c).le
      _ = 10 ^ (c.log2 / 3 + 1 + (places - j)) := (Nat.pow_add ..).symm
      _ ≤ 10 ^ m := Nat.pow_le_pow_right (by decide) hm
  have hmiddle : Binary64.middle 0 = 1 := rfl
  rw [← Nat.le_zero, Binary64.nearestRank_le_iff least_pos (by decide), hmiddle, Nat.mul_one]
  left
  omega

/-- A decimal of at most as many places as there are is rounded once, as its number of units. -/
theorem Binary64.ofDecimal_eq_ofRatio (negative : Bool) (c : Nat) {j : Nat}
    (h : j ≤ Decimal.places) : ofDecimal negative c (-(j : Int)) =
      ofRatio negative (c * 10 ^ (Decimal.places - j)) Decimal.least := by
  have hunit : unit * Decimal.least = 10 ^ (Decimal.places - j) * 10 ^ j := by
    rw [← Nat.pow_add, Nat.sub_add_cancel h, ← Decimal.unit_eq_pow, Decimal.unit_eq]
  rw [ofDecimal]
  split
  · next hc =>
    subst hc
    rw [Nat.zero_mul, ofRatio_eq_zero negative (nearestRank_zero Decimal.least_pos)]
  · rw [if_neg (by omega)]
    split
    · next hsmall =>
      rw [ofRatio_eq_zero negative (Decimal.nearestRank_of_small h (by omega))]
    · split
      · next hj =>
        obtain rfl : j = 0 := by omega
        refine ofRatio_congr _ Nat.one_pos Decimal.least_pos ?_
        have hone : Nat.pow 10 (-((0 : Nat) : Int)).toNat = 1 := rfl
        rw [hone, Nat.mul_one, Nat.mul_one, Nat.mul_assoc, hunit, Nat.pow_zero, Nat.mul_one]
      · refine ofRatio_congr _ (Nat.pow_pos (by decide)) Decimal.least_pos ?_
        rw [Int.neg_neg, Int.toNat_natCast, Nat.mul_assoc, hunit, ← Nat.mul_assoc]
        rfl

end LatencyDigest
