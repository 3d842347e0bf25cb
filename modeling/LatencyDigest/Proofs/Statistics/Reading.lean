import LatencyDigest.Proofs.Binary64.Blend
import LatencyDigest.Proofs.Binary64.Grid
import LatencyDigest.Proofs.Statistics.Indices
import LatencyDigest.Proofs.Statistics.Interpolation

/-! What is read at a rank between two whole numbers. A rank of at least one half, or a quarter, is
a whole number of grains, and then neither weight is rounded. -/

namespace LatencyDigest

namespace Binary64

section
variable {x : Binary64} {lower : Nat}

theorem Between.floorIndex (h : x.Between lower) : x.floorIndex = lower := by
  have hle : lower ≤ maxIndex := Nat.le_trans (Nat.le_of_lt h.lower_lt) (by decide)
  have hdiv : x.magnitude / unit = lower :=
    Nat.div_eq_of_lt_le (Nat.le_of_lt h.lt_magnitude) h.magnitude_lt
  rw [Binary64.floorIndex, isNaN_of_isFinite h.isFinite, isInfinite_of_isFinite h.isFinite,
    h.negative, hdiv]
  exact min_eq_left hle

theorem Between.ceilIndex (h : x.Between lower) : x.ceilIndex = lower + 1 := by
  refine Nat.le_antisymm ?_ (Nat.succ_le_of_lt ?_)
  · exact h.floorIndex ▸ ceilIndex_le_floorIndex_succ x
  · exact lt_ceilIndex (isNaN_of_isFinite h.isFinite) h.negative
      (Nat.lt_of_lt_of_le h.lower_lt (by decide)) h.lt_magnitude

theorem Between.weight_le (h : x.Between lower) : x.magnitude - lower * unit ≤ unit := by
  have hhigh := h.magnitude_lt
  rw [Nat.succ_mul] at hhigh
  omega

/-- A weight that is known exactly, and so is what it leaves of one. -/
structure Weighs (w : Binary64) (W : Nat) : Prop where
  isWeight : w.IsWeight
  magnitude_eq : w.magnitude = W
  complement_eq : (ofNat 1 - w).magnitude = unit - W

theorem IsWeight.weighs {w : Binary64} (h : w.IsWeight) (hg : grain ∣ w.magnitude) :
    w.Weighs w.magnitude where
  isWeight := h
  magnitude_eq := rfl
  complement_eq := by
    have hle : w.magnitude ≤ (ofNat 1).magnitude := h.magnitude_le.trans magnitude_one.ge
    have hgrain : grain ∣ unit - w.magnitude := Nat.dvd_sub grain_dvd_unit hg
    rw [sub_eq_ofRatio (isFinite_ofNat (by decide)) h.isFinite rfl h.negative hle, magnitude_one]
    exact magnitudeAt_nearestRank_of_grain_dvd hgrain (Nat.sub_le _ _)

theorem grain_dvd_sub (hg : grain ∣ x.magnitude) (n : Nat) : grain ∣ x.magnitude - n * unit :=
  Nat.dvd_sub hg (grain_dvd_unit.mul_left n)

theorem Between.magnitude_sub (h : x.Between lower) (hg : grain ∣ x.magnitude) :
    (x - ofNat lower).magnitude = x.magnitude - lower * unit := by
  have hwhole := magnitude_ofNat (Nat.le_of_lt h.lower_lt)
  have hfinite := isFinite_ofNat_of_le (Nat.le_of_lt h.lower_lt)
  have hlow := h.lt_magnitude
  have hhigh := h.magnitude_lt
  rw [Nat.succ_mul] at hhigh
  rw [sub_eq_ofRatio h.isFinite hfinite h.negative rfl (by omega), hwhole]
  exact magnitudeAt_nearestRank_of_grain_dvd (grain_dvd_sub hg lower) (by omega)

theorem Between.weighs (h : x.Between lower) (hg : grain ∣ x.magnitude) :
    (x - ofNat lower).Weighs (x.magnitude - lower * unit) := by
  have hmagnitude := h.magnitude_sub hg
  rw [← hmagnitude]
  refine h.isWeight.weighs ?_
  rw [hmagnitude]
  exact grain_dvd_sub hg lower

end

/-- A rank is rounded once after the percentile was divided. -/
theorem percentileRank_eq_ofRatio {p : Binary64} {n : Nat} (hp : (p / ofNat 100).isFinite)
    (hs : (p / ofNat 100).negative = false) (hn : n ≤ 2 ^ 53) :
    percentileRank n p = ofRatio false ((p / ofNat 100).magnitude * n) 1 := by
  rw [percentileRank, mul_eq_ofRatio hp (isFinite_ofNat_of_le hn), hs,
    magnitude_ofNat hn]
  exact ofRatio_congr _ unit_pos Nat.one_pos (by ring)

/-- The number at a weight between two numbers. -/
def interpolate (low high weight : Binary64) : Binary64 :=
  low * (ofNat 1 - weight) + high * weight

theorem place_interpolate {low high w : Binary64} {W : Nat} (hlow : low.isFinite)
    (hhigh : high.isFinite) (h : w.Weighs W) :
    (interpolate low high w).place = blend low.scaled high.scaled W := by
  have hw := h.isWeight
  have hw' := hw.complement
  have hproduct {x y : Binary64} (hx : x.isFinite) (hy : y.IsWeight) : (x * y).isFinite :=
    isFinite_iff.2 (Nat.lt_of_le_of_lt (rank_mul_le_left hx hy.isFinite hy.magnitude_le)
      (isFinite_iff.1 hx))
  rw [interpolate, place_add (hproduct hlow hw') (hproduct hhigh hw),
    scaled_mul hlow hw'.isFinite hw'.negative, scaled_mul hhigh hw.isFinite hw.negative,
    h.complement_eq, h.magnitude_eq, blend]

end Binary64

open Binary64

theorem valueAt_of_between {values : List Binary64} {rank low high : Binary64} {lower : Nat}
    (h : rank.Between lower) (hlow : values[lower]? = some low)
    (hhigh : values[lower + 1]? = some high) :
    valueAt values rank = some (interpolate low high (rank - ofNat lower)) := by
  rw [valueAt, h.floorIndex, h.ceilIndex, if_neg (Nat.ne_of_lt lower.lt_succ_self), hlow, hhigh]
  rfl

end LatencyDigest
