import LatencyDigest.Proofs.Binary64.Bounds
import LatencyDigest.Proofs.Decimal.Thousandths
import LatencyDigest.Units

/-! Nanoseconds against a bound in thousandths. A number of nanoseconds is rounded twice on its way
to microseconds and the bound once, and still they compare as the whole numbers do, as long as the
bound is not beyond `2 ^ 50`. -/

namespace LatencyDigest

namespace Binary64

/-- So far from the largest numbers a step is less than a thousandth. -/
theorem rank_ofThousandths_lt {j k : Nat} (h : j < k) (hj : j ≤ 2 ^ 50) :
    (ofThousandths j).rank < (ofThousandths k).rank := by
  obtain ⟨top, htop, hstep, hfinite⟩ : ∃ top, 2 ^ 50 * unit ≤ 1000 * magnitudeAt top ∧
      1000 * 2 ^ exponentAt top < unit ∧ top < infinityRank :=
    ⟨1064 * 2 ^ 52, by decide +kernel⟩
  have hle : nearestRank (j * unit) 1000 ≤ top :=
    nearestRank_le_of_le (by decide) hfinite (Nat.le_trans (Nat.mul_le_mul_right unit hj) htop)
  refine nearestRank_lt_of_step (by decide) (Nat.lt_of_le_of_lt hle hfinite) ?_
  calc j * unit + 1000 * 2 ^ exponentAt (nearestRank (j * unit) 1000)
      ≤ j * unit + 1000 * 2 ^ exponentAt top :=
        Nat.add_le_add_left
          (Nat.mul_le_mul_left _ (Nat.pow_le_pow_right (by decide) (exponentAt_mono hle))) _
    _ < j * unit + unit := Nat.add_lt_add_left hstep _
    _ = (j + 1) * unit := (Nat.succ_mul j unit).symm
    _ ≤ k * unit := Nat.mul_le_mul_right unit h

theorem not_ofThousandths_le {j k : Nat} (h : j < k) (hj : j ≤ 2 ^ 50) :
    ¬ofThousandths k ≤ ofThousandths j := by
  have hle := le_iff_rank_le (x := ofThousandths k) (y := ofThousandths j) (isNaN_ofRatio ..)
    (isNaN_ofRatio ..) rfl rfl
  rw [hle, Nat.not_le]
  exact rank_ofThousandths_lt h hj

theorem rank_ofThousandths {j : Nat} (h : j ≤ 2 ^ 53) :
    (ofThousandths j).rank = nearestRank (ofNat j).magnitude 1000 := by
  rw [magnitude_ofNat h]
  rfl

/-- Above `2 ^ 53` the number is rounded itself, but not to a bound below it. -/
theorem rank_ofThousandths_lt_iff {k n : Nat} (h : k ≤ 2 ^ 50) :
    (ofThousandths k).rank < nearestRank (ofNat n).magnitude 1000 ↔ k < n := by
  constructor
  · intro hlt
    refine Nat.lt_of_not_le fun hle => Nat.not_le.2 hlt ?_
    rw [rank_ofThousandths (Nat.le_trans h (by decide))]
    exact nearestRank_mono (by decide) (by decide)
      (Nat.mul_le_mul_right _ (magnitude_ofNat_mono hle))
  · intro hlt
    refine Nat.lt_of_lt_of_le (rank_ofThousandths_lt k.lt_succ_self h) ?_
    rw [rank_ofThousandths (Nat.le_trans (Nat.succ_le_succ h) (by decide))]
    exact nearestRank_mono (by decide) (by decide)
      (Nat.mul_le_mul_right _ (magnitude_ofNat_mono hlt))

end Binary64

open Binary64

theorem natAbs_toInt_le (i : Int64) : i.toInt.natAbs ≤ 2 ^ 63 := by
  have := i.toInt_lt
  have := i.le_toInt
  omega

theorem nanosToMicros_ofInt (i : Int64) : nanosToMicros (.ofInt i.toInt) =
    ofRatio (i.toInt < 0) (ofNat i.toInt.natAbs).magnitude 1000 := by
  have hfinite : (ofInt i.toInt).isFinite := by
    rw [isFinite_iff, rank_ofInt, ← isFinite_iff]
    exact isFinite_ofNat (Nat.le_trans (natAbs_toInt_le i) (by decide))
  have hthousand : nanosPerMicro.magnitude = 1000 * unit := magnitude_ofNat (by decide)
  have hpos : 0 < nanosPerMicro.magnitude := by
    rw [hthousand]
    exact Nat.mul_pos (by decide) unit_pos
  have hsign : ((ofInt i.toInt).negative != nanosPerMicro.negative) = decide (i.toInt < 0) :=
    Bool.bne_false _
  rw [nanosToMicros, div_eq_ofRatio hfinite (by decide +kernel) (by decide +kernel), hsign]
  refine ofRatio_congr _ hpos (by decide) ?_
  rw [hthousand]
  change (ofNat i.toInt.natAbs).magnitude * unit * 1000 = _
  ring

/-- Every number of nanoseconds is moderate in microseconds. -/
theorem rank_nanosToMicros_le (i : Int64) :
    (nanosToMicros (.ofInt i.toInt)).rank ≤ powerRank 1076 := by
  have hmax : (ofNat (2 ^ 63)).magnitude ≤ 1000 * magnitudeAt (powerRank 1076) := by decide +kernel
  rw [nanosToMicros_ofInt]
  exact nearestRank_le_of_le (by decide) (powerRank_lt (by decide))
    (Nat.le_trans (magnitude_ofNat_mono (natAbs_toInt_le i)) hmax)

theorem negative_nanosToMicros {i : Int64} (h : 0 ≤ i) :
    (nanosToMicros (.ofInt i.toInt)).negative = false := by
  rw [nanosToMicros_ofInt]
  exact decide_eq_false (Int.not_lt.2 (Int64.le_iff_toInt_le.1 h))

theorem ofThousandths_lt_nanosToMicros {k : Nat} (h : k ≤ 2 ^ 50) (i : Int64) :
    ofThousandths k < nanosToMicros (.ofInt i.toInt) ↔ k < i.toInt := by
  rw [nanosToMicros_ofInt]
  rcases Int.lt_or_le i.toInt 0 with hi | hi
  · exact iff_of_false (not_lt_of_negative rfl (decide_eq_true hi)) (by omega)
  · obtain ⟨n, hn⟩ := Int.eq_ofNat_of_zero_le hi
    have hsign : decide ((n : Int) < 0) = false := decide_eq_false (by omega)
    rw [hn, hsign, Int.natAbs_natCast, Int.ofNat_lt, ← rank_ofThousandths_lt_iff h]
    exact lt_iff_rank_lt (isNaN_ofRatio ..) (isNaN_ofRatio ..) rfl rfl

end LatencyDigest
