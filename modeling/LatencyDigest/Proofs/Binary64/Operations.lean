import LatencyDigest.Binary64.Arithmetic
import LatencyDigest.Binary64.Order
import LatencyDigest.Proofs.Binary64.Nearest

/-! Products, quotients and comparisons of finite numbers, and the whole numbers among them: they
keep their order, up to `2 ^ 53` they are exact, and they are finite far beyond that. -/

namespace LatencyDigest.Binary64

theorem unit_pos : 0 < unit := by decide +kernel

theorem unit_eq : ∃ k, unit = 2 ^ k := by
  unfold unit
  generalize 1074 = k
  exact ⟨k, rfl⟩

theorem isFinite_iff {x : Binary64} : x.isFinite ↔ x.rank < infinityRank := decide_eq_true_iff

theorem isNaN_of_isFinite {x : Binary64} (h : x.isFinite) : x.isNaN = false := by
  rw [isFinite_iff] at h
  exact decide_eq_false (by omega)

theorem isInfinite_of_isFinite {x : Binary64} (h : x.isFinite) : x.isInfinite = false := by
  rw [isFinite_iff] at h
  exact decide_eq_false (by omega)

theorem isNaN_ofRatio (s : Bool) (n d : Nat) : (ofRatio s n d).isNaN = false :=
  decide_eq_false (Nat.not_lt.2 (nearestRank_le n d))

theorem ofRatio_congr (s : Bool) {n d n' d' : Nat} (hd : 0 < d) (hd' : 0 < d')
    (h : n * d' = n' * d) : ofRatio s n d = ofRatio s n' d' := by
  simp only [ofRatio, nearestRank_congr hd hd' h]

section
variable {x y : Binary64}

theorem mul_eq_ofRatio (hx : x.isFinite) (hy : y.isFinite) :
    x * y = ofRatio (x.negative != y.negative) (x.magnitude * y.magnitude) unit := by
  change mul x y = _
  simp [mul, orNaN, isNaN_of_isFinite hx, isNaN_of_isFinite hy, isInfinite_of_isFinite hx,
    isInfinite_of_isFinite hy]

theorem div_eq_ofRatio (hx : x.isFinite) (hy : y.isFinite) (hz : y.rank ≠ 0) :
    x / y = ofRatio (x.negative != y.negative) (x.magnitude * unit) y.magnitude := by
  change div x y = _
  simp [div, orNaN, isZero, isNaN_of_isFinite hx, isNaN_of_isFinite hy, isInfinite_of_isFinite hx,
    isInfinite_of_isFinite hy, hz]

theorem lt_iff_rank_lt (hx : x.isNaN = false) (hy : y.isNaN = false) (sx : x.negative = false)
    (sy : y.negative = false) : x < y ↔ x.rank < y.rank := by
  change (_ ∧ _ ∧ _) ↔ _
  simp [hx, hy, place, sx, sy]

theorem le_iff_rank_le (hx : x.isNaN = false) (hy : y.isNaN = false) (sx : x.negative = false)
    (sy : y.negative = false) : x ≤ y ↔ x.rank ≤ y.rank := by
  change (_ ∧ _ ∧ _) ↔ _
  simp [hx, hy, place, sx, sy]

theorem not_lt_of_negative (sx : x.negative = false) (sy : y.negative = true) : ¬x < y := by
  rintro ⟨-, -, h⟩
  simp only [place, sx, sy, if_true, Bool.false_eq_true, if_false] at h
  omega

end

/-! Numbers and NaNs. -/

theorem lt_trans {x y z : Binary64} (h : x < y) (k : y < z) : x < z :=
  ⟨h.1, k.2.1, Int.lt_trans h.2.2 k.2.2⟩

instance : Trans (fun x y : Binary64 => x < y) (fun x y => x < y) (fun x y => x < y) := ⟨lt_trans⟩

theorem isNaN_of_zero_le {x : Binary64} (h : zero ≤ x) : x.isNaN = false := h.2.1

theorem not_le_iff {x y : Binary64} (hx : x.isNaN = false) (hy : y.isNaN = false) :
    ¬y ≤ x ↔ x < y := by
  change ¬(_ ∧ _ ∧ _) ↔ (_ ∧ _ ∧ _)
  simp only [hx, hy, true_and, Int.not_le]

theorem not_le_of_isNaN {x y : Binary64} (h : x.isNaN = true ∨ y.isNaN = true) : ¬y ≤ x := by
  rintro ⟨hy, hx, -⟩
  simp [hx, hy] at h

theorem not_le_iff_lt_or {x y : Binary64} : ¬y ≤ x ↔ x < y ∨ x.isNaN = true ∨ y.isNaN = true := by
  by_cases h : x.isNaN = true ∨ y.isNaN = true
  · exact iff_of_true (not_le_of_isNaN h) (.inr h)
  · rw [or_iff_left h]
    simp only [not_or, Bool.not_eq_true] at h
    exact not_le_iff h.1 h.2

/-! Whole numbers. -/

theorem rank_ofNat (n : Nat) : (ofNat n).rank = nearestRank (n * unit) 1 := rfl

theorem rank_ofInt (i : Int) : (ofInt i).rank = (ofNat i.natAbs).rank := rfl

theorem rank_ofNat_mono {m n : Nat} (h : m ≤ n) : (ofNat m).rank ≤ (ofNat n).rank :=
  nearestRank_mono Nat.one_pos Nat.one_pos (Nat.mul_le_mul_right _ (Nat.mul_le_mul_right _ h))

theorem magnitude_ofNat_mono {m n : Nat} (h : m ≤ n) :
    (ofNat m).magnitude ≤ (ofNat n).magnitude :=
  magnitudeAt_le_iff.2 (rank_ofNat_mono h)

/-- What is so large is far below the largest finite number. -/
theorem isFinite_ofNat {n : Nat} (h : n ≤ 2 ^ 64) : (ofNat n).isFinite := by
  have hmax : 2 ^ 64 * unit ≤ 1 * magnitudeAt (infinityRank - 1) := by decide +kernel
  rw [isFinite_iff, rank_ofNat]
  refine Nat.lt_of_le_of_lt (nearestRank_le_of_le Nat.one_pos ?_
    (Nat.le_trans (Nat.mul_le_mul_right unit h) hmax)) ?_ <;> decide

theorem isFinite_ofNat_of_le {n : Nat} (h : n ≤ 2 ^ 53) : (ofNat n).isFinite :=
  isFinite_ofNat (Nat.le_trans h (by decide))

theorem rank_ofNat_lt {n : Nat} (h : n ≤ 2 ^ 53) : (ofNat n).rank < infinityRank :=
  isFinite_iff.1 (isFinite_ofNat_of_le h)

theorem magnitude_ofNat {n : Nat} (h : n ≤ 2 ^ 53) : (ofNat n).magnitude = n * unit := by
  obtain ⟨k, hk⟩ := unit_eq
  obtain ⟨r, hr⟩ := exists_magnitudeAt k h
  rw [← hk] at hr
  have hmax : 2 ^ 53 * unit < magnitudeAt infinityRank := by decide +kernel
  have hlt : r < infinityRank := by
    rw [← magnitudeAt_lt_iff, hr]
    exact Nat.lt_of_le_of_lt (Nat.mul_le_mul_right unit h) hmax
  rw [magnitude, rank_ofNat, ← hr, nearestRank_of_magnitudeAt hlt]

theorem magnitude_one : (ofNat 1).magnitude = unit :=
  (magnitude_ofNat (by decide)).trans (Nat.one_mul _)

theorem nearestRank_unit_mul {r : Nat} (hr : r < infinityRank) :
    nearestRank (unit * magnitudeAt r) unit = r := by
  have hunit : unit * magnitudeAt r * 1 = magnitudeAt r * unit := by
    rw [Nat.mul_one, Nat.mul_comm]
  rw [nearestRank_congr unit_pos Nat.one_pos hunit]
  exact nearestRank_of_magnitudeAt hr

theorem isNaN_ofNat (n : Nat) : (ofNat n).isNaN = false := isNaN_ofRatio ..

end LatencyDigest.Binary64
