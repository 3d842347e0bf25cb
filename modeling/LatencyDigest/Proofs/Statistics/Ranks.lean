import LatencyDigest.Proofs.Statistics.Quartiles
import LatencyDigest.Report.Sweep

/-! The ranks of percentiles among any number of values, of so many even that their number is
infinite. They grow with the percentile, and so two of them are read either one above the other or
between the same two values. -/

namespace LatencyDigest

namespace Binary64

section
variable {x y : Binary64}

theorem floorIndex_le_maxIndex (x : Binary64) : x.floorIndex ≤ maxIndex :=
  (floorIndex_le_ceilIndex x).trans (ceilIndex_le_maxIndex x)

theorem floorIndex_mono (hx : ¬x.IsBelow) (hy : ¬y.IsBelow) (h : x.rank ≤ y.rank) :
    x.floorIndex ≤ y.floorIndex := by
  have hmagnitude : x.magnitude ≤ y.magnitude := magnitudeAt_le_iff.2 h
  have hbelow : (y.isNaN || y.negative) = false := by simpa [IsBelow] using hy
  cases hi : y.isInfinite with
  | true =>
    have hlast : y.floorIndex = maxIndex := by rw [floorIndex, hbelow, hi]; rfl
    exact hlast ▸ floorIndex_le_maxIndex x
  | false =>
    have hfinite : x.isInfinite = false := by
      have hnan : y.isNaN = false := (Bool.or_eq_false_iff.1 hbelow).1
      have := of_decide_eq_false hnan
      have := of_decide_eq_false hi
      exact decide_eq_false (by omega)
    have hbelow' : (x.isNaN || x.negative) = false := by simpa [IsBelow] using hx
    rw [floorIndex, floorIndex, hbelow, hbelow', hi, hfinite]
    exact min_le_min_right _ (Nat.div_le_div_right hmagnitude)

/-- Of two ranks the smaller is read at or below where the larger is, or both between the same two
indices. -/
theorem ceilIndex_le_floorIndex_or (hx : ¬x.IsBelow) (hy : ¬y.IsBelow) (h : x.rank ≤ y.rank) :
    x.ceilIndex ≤ y.floorIndex ∨
      x.Between x.floorIndex ∧ y.Between x.floorIndex ∧ x.magnitude ≤ y.magnitude := by
  have hmono := floorIndex_mono hx hy h
  have hmagnitude : x.magnitude ≤ y.magnitude := magnitudeAt_le_iff.2 h
  by_cases heq : x.floorIndex = x.ceilIndex
  · exact .inl (heq ▸ hmono)
  · have hbetween := between_of_ne heq
    rcases Nat.lt_or_eq_of_le hmono with hlt | hsame
    · exact .inl (hbetween.ceilIndex ▸ hlt)
    · obtain ⟨hnan, hs⟩ := not_or.1 hy
      have hlt := lt_ceilIndex (Bool.eq_false_iff.2 hnan) (Bool.eq_false_iff.2 hs)
        (Nat.lt_of_lt_of_le hbetween.lower_lt (by decide))
        (Nat.lt_of_lt_of_le hbetween.lt_magnitude hmagnitude)
      have hbetween' := between_of_ne (hsame ▸ Nat.ne_of_lt hlt)
      rw [← hsame] at hbetween'
      exact .inr ⟨hbetween, hbetween', hmagnitude⟩

end

theorem unit_dvd_magnitude_ofNat (n : Nat) : unit ∣ (ofNat n).magnitude := by
  rw [magnitude, rank_ofNat]
  exact isGrid_unit.dvd_magnitudeAt_nearestRank (Nat.dvd_mul_left _ _)

/-- A part of one, in grains. -/
structure IsPart (q : Binary64) : Prop where
  belowOne : q.BelowOne
  negative : q.negative = false
  isZero : q.isZero = false
  grain_dvd : grain ∣ q.magnitude

section
variable {q q' : Binary64}

theorem IsPart.mul_ofNat_cases (h : q.IsPart) (n : Nat) :
    (ofNat n).isFinite ∧ q * ofNat n = ofRatio false (q.magnitude * (ofNat n).magnitude) unit ∨
      (ofNat n).isFinite = false ∧ q * ofNat n = infinity := by
  cases hfinite : (ofNat n).isFinite with
  | true =>
    refine .inl ⟨rfl, ?_⟩
    rw [mul_eq_ofRatio h.belowOne.1 hfinite, h.negative]
    rfl
  | false =>
    have hinfinite :=
      isInfinite_of_le (isNaN_ofNat n) (Nat.le_of_not_lt (of_decide_eq_false hfinite))
    exact .inr ⟨rfl, mul_eq_infinity (isNaN_of_isFinite h.belowOne.1) (isNaN_ofNat n)
      (by rw [hinfinite, Bool.or_true]) h.isZero (isZero_of_isInfinite hinfinite) h.negative rfl⟩

theorem IsPart.not_isBelow (h : q.IsPart) (n : Nat) : ¬(q * ofNat n).IsBelow := by
  refine not_or.2 ?_
  rcases h.mul_ofNat_cases n with ⟨-, heq⟩ | ⟨-, heq⟩
  · rw [heq]
    exact ⟨Bool.eq_false_iff.1 (isNaN_ofRatio ..), Bool.false_ne_true⟩
  · rw [heq]
    exact ⟨Bool.false_ne_true, Bool.false_ne_true⟩

theorem IsPart.rank_mono (h : q.IsPart) (h' : q'.IsPart) (hle : q.rank ≤ q'.rank) (n : Nat) :
    (q * ofNat n).rank ≤ (q' * ofNat n).rank := by
  rcases h.mul_ofNat_cases n with ⟨hfinite, heq⟩ | ⟨hfinite, heq⟩
  all_goals rcases h'.mul_ofNat_cases n with ⟨hfinite', heq'⟩ | ⟨hfinite', heq'⟩
  · rw [heq, heq']
    have hmagnitude : q.magnitude ≤ q'.magnitude := magnitudeAt_le_iff.2 hle
    exact nearestRank_mono unit_pos unit_pos
      (Nat.mul_le_mul_right _ (Nat.mul_le_mul_right _ hmagnitude))
  · exact absurd (hfinite.symm.trans hfinite') (by decide)
  · exact absurd (hfinite.symm.trans hfinite') (by decide)
  · rw [heq, heq']

theorem IsPart.magnitude_mul_ofNat (h : q.IsPart) {n : Nat} (hfinite : (q * ofNat n).isFinite) :
    ∃ c, (ofNat n).magnitude = c * unit ∧
      (q * ofNat n).rank = nearestRank (q.magnitude * c) 1 := by
  rcases h.mul_ofNat_cases n with ⟨-, heq⟩ | ⟨-, heq⟩
  · obtain ⟨c, hc⟩ := unit_dvd_magnitude_ofNat n
    rw [Nat.mul_comm] at hc
    refine ⟨c, hc, ?_⟩
    rw [heq, hc]
    exact nearestRank_congr unit_pos Nat.one_pos (by ring)
  · rw [heq] at hfinite
    exact absurd hfinite (by decide)

theorem IsPart.grain_dvd_mul_ofNat (h : q.IsPart) {n : Nat} (hfinite : (q * ofNat n).isFinite) :
    grain ∣ (q * ofNat n).magnitude := by
  obtain ⟨c, -, hrank⟩ := h.magnitude_mul_ofNat hfinite
  rw [magnitude, hrank]
  exact isGrid_grain.dvd_magnitudeAt_nearestRank (h.grain_dvd.mul_right c)

theorem IsPart.quarter_dvd_mul_ofNat (h : q.IsPart) (hq : quarter ∣ q.magnitude) {n : Nat}
    (hfinite : (q * ofNat n).isFinite) : quarter ∣ (q * ofNat n).magnitude := by
  obtain ⟨c, -, hrank⟩ := h.magnitude_mul_ofNat hfinite
  rw [magnitude, hrank]
  exact isGrid_quarter.dvd_magnitudeAt_nearestRank (hq.mul_right c)

end

theorem Between.quarters {x : Binary64} {lower : Nat} (h : x.Between lower)
    (hq : quarter ∣ x.magnitude) :
    ∃ k ∈ [1, 2, 3], x.magnitude - lower * unit = k * quarter := by
  have hlow := h.lt_magnitude
  have hhigh := h.magnitude_lt
  have hunit : quarter ∣ unit := ⟨4, by rw [unit_eq_quarter, Nat.mul_comm]⟩
  obtain ⟨k, hk⟩ := Nat.dvd_sub hq (hunit.mul_left lower)
  rw [Nat.mul_comm quarter] at hk
  refine ⟨k, ?_, hk⟩
  rw [Nat.succ_mul] at hhigh
  have hpos : 0 < k * quarter := by omega
  have hlt : k * quarter < 4 * quarter := by
    rw [← unit_eq_quarter]
    omega
  have hk₀ : k ≠ 0 := by
    rintro rfl
    omega
  have hk₄ : k < 4 := Nat.lt_of_mul_lt_mul_right hlt
  simp only [List.mem_cons, List.not_mem_nil, or_false]
  omega

/-- Rounding does not move a number from between two whole ones. -/
theorem Between.exact {x : Binary64} {n lower : Nat} (h : x.Between lower)
    (hrank : x.rank = nearestRank n 1) : lower * unit < n ∧ n < (lower + 1) * unit := by
  have hwhole {k : Nat} (hk : k ≤ 2 ^ 53) :
      magnitudeAt (ofNat k).rank = k * unit ∧ (ofNat k).rank < infinityRank :=
    ⟨magnitude_ofNat hk, rank_ofNat_lt hk⟩
  obtain ⟨hlow, hfinite⟩ := hwhole (Nat.le_of_lt h.lower_lt)
  obtain ⟨hhigh, hfinite'⟩ := hwhole h.lower_lt
  constructor
  · refine Nat.lt_of_not_le fun hle => Nat.not_le.2 h.lt_magnitude ?_
    have hbelow : x.rank ≤ (ofNat lower).rank := by
      rw [hrank]
      exact nearestRank_le_of_le Nat.one_pos hfinite (by rw [Nat.one_mul, hlow]; exact hle)
    exact (magnitudeAt_le_iff.2 hbelow).trans hlow.le
  · refine Nat.lt_of_not_le fun hle => Nat.not_le.2 h.magnitude_lt ?_
    have habove : (ofNat (lower + 1)).rank ≤ x.rank := by
      rw [hrank]
      exact le_nearestRank_of_le Nat.one_pos hfinite'.le (by rw [Nat.one_mul, hhigh]; exact hle)
    exact hhigh.ge.trans (magnitudeAt_le_iff.2 habove)

end Binary64

open Binary64

theorem isPart_of_mem {p : Binary64} (h : p ∈ ofNat 25 :: Sweep.thresholds) :
    (p / ofNat 100).IsPart := by
  have hall : ∀ p ∈ ofNat 25 :: Sweep.thresholds, (p / ofNat 100).BelowOne ∧
      (p / ofNat 100).negative = false ∧ (p / ofNat 100).isZero = false ∧
        grain ∣ (p / ofNat 100).magnitude := by decide +kernel
  obtain ⟨hbelow, hs, hzero, hgrain⟩ := hall p h
  exact ⟨hbelow, hs, hzero, hgrain⟩

theorem isPart_of_quartile {j : Nat} (h : j ∈ [1, 2, 3]) : (ofNat (25 * j) / ofNat 100).IsPart := by
  have hall : ∀ j ∈ [1, 2, 3], ofNat (25 * j) ∈ ofNat 25 :: Sweep.thresholds := by decide +kernel
  exact isPart_of_mem (hall j h)

theorem ceilIndex_percentileRank_le_or {p p' : Binary64} (hp : (p / ofNat 100).IsPart)
    (hp' : (p' / ofNat 100).IsPart) (hle : (p / ofNat 100).rank ≤ (p' / ofNat 100).rank) (n : Nat) :
    (percentileRank n p).ceilIndex ≤ (percentileRank n p').floorIndex ∨
      (percentileRank n p).Between (percentileRank n p).floorIndex ∧
        (percentileRank n p').Between (percentileRank n p).floorIndex ∧
          (percentileRank n p).magnitude ≤ (percentileRank n p').magnitude :=
  ceilIndex_le_floorIndex_or (hp.not_isBelow n) (hp'.not_isBelow n) (hp.rank_mono hp' hle n)

/-- A quarter of the way is a step or more, but for two values. -/
theorem ceilIndex_quartile_le {j n : Nat} (hj : j ∈ [1, 2]) (hn : n ≠ 1) :
    (percentileRank n (ofNat (25 * j))).ceilIndex ≤
      (percentileRank n (ofNat (25 * (j + 1)))).floorIndex := by
  have hall : ∀ j ∈ [1, 2], j ∈ [1, 2, 3] ∧ j + 1 ∈ [1, 2, 3] ∧ (j = 1 ∨ j = 2) := by decide
  obtain ⟨hlow, hhigh, hcases⟩ := hall j hj
  have hpart := isPart_of_quartile hlow
  have hpart' := isPart_of_quartile hhigh
  obtain ⟨-, -, hmagnitude⟩ := quotient_of_quartile hlow
  obtain ⟨-, -, hmagnitude'⟩ := quotient_of_quartile hhigh
  have hrank : (ofNat (25 * j) / ofNat 100).rank ≤ (ofNat (25 * (j + 1)) / ofNat 100).rank := by
    rw [← magnitudeAt_le_iff]
    exact hmagnitude.le.trans ((Nat.mul_le_mul_right _ j.le_succ).trans hmagnitude'.ge)
  refine (ceilIndex_percentileRank_le_or hpart hpart' hrank n).resolve_right ?_
  rintro ⟨hbetween, hbetween', -⟩
  obtain ⟨c, hc, hx⟩ := hpart.magnitude_mul_ofNat hbetween.isFinite
  obtain ⟨d, hd, hy⟩ := hpart'.magnitude_mul_ofNat hbetween'.isFinite
  obtain rfl : c = d := Nat.eq_of_mul_eq_mul_right unit_pos (hc.symm.trans hd)
  have hbelow := (hbetween.exact hx).1
  have habove := (hbetween'.exact hy).2
  generalize (percentileRank n (ofNat (25 * j))).floorIndex = lower at hbelow habove
  have hquarters (k : Nat) : k * unit = 4 * k * quarter := by
    rw [unit_eq_quarter]
    ring
  rw [hmagnitude, hquarters, Nat.mul_right_comm j] at hbelow
  rw [hmagnitude', hquarters, Nat.mul_right_comm (j + 1)] at habove
  have hlt := Nat.lt_of_mul_lt_mul_right hbelow
  have hlt' := Nat.lt_of_mul_lt_mul_right habove
  have hne : c ≠ 1 := by
    rintro rfl
    have hpos := unit_pos
    rcases Nat.lt_or_ge n 2 with hsmall | hlarge
    · obtain rfl : n = 0 := by omega
      rw [magnitude_ofNat (Nat.zero_le _)] at hc
      omega
    · have hle := magnitude_ofNat_mono hlarge
      rw [magnitude_ofNat (by decide), hc] at hle
      omega
  rcases hcases with rfl | rfl <;> omega

end LatencyDigest
