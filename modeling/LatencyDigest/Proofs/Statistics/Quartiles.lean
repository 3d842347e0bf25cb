import LatencyDigest.Proofs.Statistics.Reading
import LatencyDigest.Proofs.Statistics.Sample

/-! Quartiles by exact ranks. Up to `2 ^ 51` values the rank of a quartile is a number of quarters
that is not rounded, so whole numbers decide which values are read and at which weight. -/

namespace LatencyDigest

open Binary64

/-- The value at `j` quarters of the way from the first of the values to the last. -/
def IsQuartile (values : List Binary64) (j : Nat) (v : Binary64) : Prop :=
  ∃ k r, j * (values.length - 1) = 4 * k + r ∧ r < 4 ∧
    if r = 0 then values[k]? = some v
    else ∃ low high, values[k]? = some low ∧ values[k + 1]? = some high ∧
      v = low * (ofNat 1 - ofNat r / ofNat 4) + high * (ofNat r / ofNat 4)

/-- The value in the middle, or half of each of the two that stand there. -/
def IsMedian (values : List Binary64) (v : Binary64) : Prop :=
  if values.length % 2 = 1 then values[(values.length - 1) / 2]? = some v
  else ∃ low high, values[values.length / 2 - 1]? = some low ∧
    values[values.length / 2]? = some high ∧
      v = low * (ofNat 1 / ofNat 2) + high * (ofNat 1 / ofNat 2)

namespace Binary64

theorem quotient_of_quartile {j : Nat} (h : j ∈ [1, 2, 3]) :
    (ofNat (25 * j) / ofNat 100).isFinite ∧ (ofNat (25 * j) / ofNat 100).negative = false ∧
      (ofNat (25 * j) / ofNat 100).magnitude = j * quarter := by
  have hall : ∀ j ∈ [1, 2, 3], (ofNat (25 * j) / ofNat 100).isFinite ∧
      (ofNat (25 * j) / ofNat 100).negative = false ∧
        (ofNat (25 * j) / ofNat 100).magnitude = j * quarter := by decide +kernel
  exact hall j h

theorem magnitude_quarters {r : Nat} (h : r < 4) :
    (ofNat r / ofNat 4).negative = false ∧ (ofNat r / ofNat 4).magnitude = r * quarter := by
  have hall : ∀ r < 4, (ofNat r / ofNat 4).negative = false ∧
      (ofNat r / ofNat 4).magnitude = r * quarter := by decide +kernel
  exact hall r h

/-- A number of quarters. -/
structure Quarters (x : Binary64) (m : Nat) : Prop where
  isFinite : x.isFinite
  negative : x.negative = false
  magnitude_eq : x.magnitude = m * quarter

theorem quarters_percentileRank {j n : Nat} (hj : j ∈ [1, 2, 3]) (h : j * n ≤ 2 ^ 53) :
    (percentileRank n (ofNat (25 * j))).Quarters (j * n) := by
  obtain ⟨hfinite, hs, hmagnitude⟩ := quotient_of_quartile hj
  have hpos : 0 < j := by
    have hall : ∀ j ∈ [1, 2, 3], 0 < j := by decide
    exact hall j hj
  have hn : n ≤ 2 ^ 53 := Nat.le_trans (Nat.le_mul_of_pos_left n hpos) h
  have heq : percentileRank n (ofNat (25 * j)) = ofRatio false (j * n * quarter) 1 := by
    rw [percentileRank_eq_ofRatio hfinite hs hn, hmagnitude, Nat.mul_right_comm]
  rw [heq]
  exact ⟨isFinite_iff.2 (isGrid_quarter.nearestRank_lt h), rfl,
    isGrid_quarter.magnitudeAt_nearestRank h⟩

section
variable {x : Binary64} {k r : Nat}

theorem Quarters.eq_ofNat (h : x.Quarters (4 * k)) (hk : k ≤ 2 ^ 53) : x = ofNat k := by
  refine eq_of_magnitude h.negative ?_
  rw [h.magnitude_eq, magnitude_ofNat hk, unit_eq_quarter]
  ring

theorem Quarters.between (h : x.Quarters (4 * k + r)) (hr : r < 4) (hzero : r ≠ 0)
    (hk : k < 2 ^ 53) : x.Between k := by
  have hpos := isGrid_quarter.pos
  refine ⟨h.isFinite, h.negative, hk, ?_, ?_⟩
  · rw [h.magnitude_eq, unit_eq_quarter, ← Nat.mul_assoc]
    exact Nat.mul_lt_mul_of_pos_right (by omega) hpos
  · rw [h.magnitude_eq, unit_eq_quarter, ← Nat.mul_assoc]
    exact Nat.mul_lt_mul_of_pos_right (by omega) hpos

theorem Quarters.sub_eq (h : x.Quarters (4 * k + r)) (hr : r < 4) (hzero : r ≠ 0)
    (hk : k < 2 ^ 53) : x - ofNat k = ofNat r / ofNat 4 := by
  have hbetween := h.between hr hzero hk
  have hgrain : grain ∣ x.magnitude := h.magnitude_eq ▸ grain_dvd_quarter.mul_left _
  refine eq_of_magnitude ?_ ?_
  · rw [hbetween.isWeight.negative, (magnitude_quarters hr).1]
  · have hwhole : k * unit = 4 * k * quarter := by
      rw [unit_eq_quarter]
      ring
    rw [hbetween.magnitude_sub hgrain, h.magnitude_eq, (magnitude_quarters hr).2, hwhole,
      Nat.add_mul, Nat.add_sub_cancel_left]

end

end Binary64

section
variable {values : List Binary64}

/-- What is read at a number of quarters, if both values are there. -/
theorem valueAt_quarters {rank : Binary64} {k r : Nat} (h : rank.Quarters (4 * k + r)) (hr : r < 4)
    (hk : k < 2 ^ 53) (hlast : 4 * k + r ≤ 4 * (values.length - 1)) (hne : values ≠ []) :
    ∃ v, valueAt values rank = some v ∧
      if r = 0 then values[k]? = some v
      else ∃ low high, values[k]? = some low ∧ values[k + 1]? = some high ∧
        v = low * (ofNat 1 - ofNat r / ofNat 4) + high * (ofNat r / ofNat 4) := by
  have hpos := List.length_pos_iff.2 hne
  have hlow := List.getElem?_eq_getElem (l := values) (i := k) (by omega)
  by_cases hzero : r = 0
  · subst hzero
    refine ⟨_, ?_, hlow⟩
    rw [Quarters.eq_ofNat h (Nat.le_of_lt hk), valueAt_ofNat values (Nat.le_of_lt hk), hlow]
  · have hhigh := List.getElem?_eq_getElem (l := values) (i := k + 1) (by omega)
    refine ⟨_, valueAt_of_between (h.between hr hzero hk) hlow hhigh, ?_⟩
    rw [if_neg hzero, h.sub_eq hr hzero hk]
    exact ⟨_, _, hlow, hhigh, rfl⟩

theorem percentile_isQuartile (hne : values ≠ []) (hlen : values.length ≤ 2 ^ 51) {j : Nat}
    (hj : j ∈ [1, 2, 3]) :
    ∃ v, percentile values (ofNat (25 * j)) = some v ∧ IsQuartile values j v := by
  have hthree : j ≤ 3 := by
    have hall : ∀ j ∈ [1, 2, 3], j ≤ 3 := by decide
    exact hall j hj
  have hle : j * (values.length - 1) ≤ 3 * (values.length - 1) := Nat.mul_le_mul_right _ hthree
  have hsplit : j * (values.length - 1) =
      4 * (j * (values.length - 1) / 4) + j * (values.length - 1) % 4 := by omega
  have hrank := quarters_percentileRank (n := values.length - 1) hj (by omega)
  rw [hsplit] at hrank
  have hlast : 4 * (j * (values.length - 1) / 4) + j * (values.length - 1) % 4 ≤
      4 * (values.length - 1) := by omega
  obtain ⟨v, hv, hread⟩ := valueAt_quarters hrank (by omega) (by omega) hlast hne
  rw [percentile_eq_valueAt hne]
  exact ⟨v, hv, _, _, hsplit, by omega, hread⟩

theorem isMedian_of_isQuartile {v : Binary64} (hne : values ≠ []) (h : IsQuartile values 2 v) :
    IsMedian values v := by
  have hpos := List.length_pos_iff.2 hne
  have hhalf : ofNat 2 / ofNat 4 = ofNat 1 / ofNat 2 := by decide +kernel
  have hrest : ofNat 1 - ofNat 1 / ofNat 2 = ofNat 1 / ofNat 2 := by decide +kernel
  obtain ⟨k, r, hsplit, hr, hread⟩ := h
  rw [IsMedian]
  split
  · next hodd =>
    obtain ⟨rfl, rfl⟩ : r = 0 ∧ k = (values.length - 1) / 2 := by omega
    exact hread
  · next heven =>
    obtain ⟨rfl, rfl⟩ : r = 2 ∧ k = values.length / 2 - 1 := by omega
    have hnext : values.length / 2 - 1 + 1 = values.length / 2 := by omega
    rw [if_neg (by decide), hnext, hhalf, hrest] at hread
    exact hread

/-- The median and the quartiles of any values, and those of a summary of the values in order. -/
theorem percentile_by_quarters (hne : values ≠ []) (hlen : values.length ≤ 2 ^ 51) :
    (∃ v, percentile values (ofNat 50) = some v ∧ IsMedian values v) ∧
      (∀ j ∈ [1, 3], ∃ v, percentile values (ofNat (25 * j)) = some v ∧ IsQuartile values j v) ∧
      ∀ s : Sample, s.values = values → ∃ summary, Summary.ofSample? s = some summary ∧
        IsQuartile values 1 summary.lowerQuartile ∧ IsMedian values summary.median ∧
          IsQuartile values 3 summary.upperQuartile := by
  obtain ⟨lower, hlower, hlq⟩ := percentile_isQuartile hne hlen (j := 1) (by decide)
  obtain ⟨median, hmedian, hmq⟩ := percentile_isQuartile hne hlen (j := 2) (by decide)
  obtain ⟨upper, hupper, huq⟩ := percentile_isQuartile hne hlen (j := 3) (by decide)
  have hm := isMedian_of_isQuartile hne hmq
  refine ⟨⟨median, hmedian, hm⟩, ?_, ?_⟩
  · simp only [List.forall_mem_cons, List.not_mem_nil, false_imp_iff, implies_true, and_true]
    exact ⟨⟨lower, hlower, hlq⟩, upper, hupper, huq⟩
  · rintro s rfl
    refine ⟨_, Summary.ofSample?_eq s, ?_⟩
    have hlevel {p v : Binary64} (h : LatencyDigest.percentile s.values p = some v) :
        s.level p = v := by
      rw [Sample.level, Sample.percentile, h, Option.getD_some]
    change IsQuartile s.values 1 (s.level (ofNat 25)) ∧ IsMedian s.values (s.level (ofNat 50)) ∧
      IsQuartile s.values 3 (s.level (ofNat 75))
    rw [hlevel hlower, hlevel hmedian, hlevel hupper]
    exact ⟨hlq, hm, huq⟩

end

/-- Of four values no quartile is read at a whole number. -/
theorem percentile_by_quarters_four :
    let values := [-ofNat 3, ofNat 1, ofNat 2, ofNat 7]
    values ≠ [] ∧ values.length ≤ 2 ^ 51 ∧
      (∃ v, percentile values (ofNat 50) = some v ∧ IsMedian values v) ∧
      (∀ j ∈ [1, 3], ∃ v, percentile values (ofNat (25 * j)) = some v ∧ IsQuartile values j v) ∧
      ∀ s : Sample, s.values = values → ∃ summary, Summary.ofSample? s = some summary ∧
        IsQuartile values 1 summary.lowerQuartile ∧ IsMedian values summary.median ∧
          IsQuartile values 3 summary.upperQuartile := by
  intro values
  exact ⟨by decide, by decide, percentile_by_quarters (by decide) (by decide)⟩

end LatencyDigest
