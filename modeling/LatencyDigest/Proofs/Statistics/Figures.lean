import LatencyDigest.Proofs.Statistics.Interpolation
import LatencyDigest.Proofs.Statistics.Sample

/-! The figures of a sample of moderate values. However many values there are, all figures are
finite, and if no value has a sign then no figure has one. -/

namespace LatencyDigest

open Binary64

namespace Sample

/-- There are values, and none of them is larger than `2 ^ 54`. -/
structure Moderate (s : Sample) : Prop where
  ne_nil : s.values ≠ []
  rank_le : ∀ v ∈ s.values, v.rank ≤ powerRank 1076

variable {s : Sample}

namespace Moderate

theorem isFinite (h : s.Moderate) {v : Binary64} (hv : v ∈ s.values) : v.isFinite :=
  isFinite_of_rank_le (h.rank_le v hv) (by decide)

theorem min_mem (h : s.Moderate) : s.min ∈ s.values := by
  rw [min, List.head?_eq_some_head h.ne_nil]
  exact List.head_mem h.ne_nil

theorem max_mem (h : s.Moderate) : s.max ∈ s.values := by
  rw [max, List.getLast?_eq_some_getLast h.ne_nil]
  exact List.getLast_mem h.ne_nil

theorem rank_sum_le (h : s.Moderate) : s.sum.rank ≤ powerRank 1130 :=
  Binary64.rank_sum_le h.rank_le (by decide)

theorem mean_eq (h : s.Moderate) : s.mean = s.sum / ofNat s.count := if_neg h.ne_nil

theorem count_pos (h : s.Moderate) : 0 < s.count := List.length_pos_iff.2 h.ne_nil

theorem rank_mean_le (h : s.Moderate) : s.mean.rank ≤ powerRank 1130 := by
  rw [h.mean_eq]
  have hdiv := div_ofNat (isFinite_of_rank_le h.rank_sum_le (by decide)) h.count_pos
  exact Nat.le_trans hdiv.1 h.rank_sum_le

theorem negative_mean (h : s.Moderate) (hn : ∀ v ∈ s.values, v.negative = false) :
    s.mean.negative = false := by
  rw [h.mean_eq, (div_ofNat (isFinite_of_rank_le h.rank_sum_le (by decide)) h.count_pos).2]
  exact negative_sum h.rank_le hn h.ne_nil (by decide)

theorem squaredDistance (h : s.Moderate) {v : Binary64} (hv : v ∈ s.values) :
    (squaredDistance s.mean v).rank ≤ powerRank 1238 ∧
      (squaredDistance s.mean v).negative = false := by
  have hdistance : (s.mean - v).rank ≤ powerRank 1130 :=
    rank_add_le_of_rank_le h.rank_mean_le (h.rank_le v hv) (by decide) (by decide)
  have hfinite := isFinite_of_rank_le hdistance (by decide)
  rw [Sample.squaredDistance]
  exact ⟨rank_mul_le hdistance hdistance (by decide) (by decide) (by decide) (by decide),
    negative_mul hfinite hfinite rfl⟩

theorem deviation (h : s.Moderate) : s.deviation.isFinite ∧ s.deviation.negative = false := by
  rw [Sample.deviation]
  split
  · exact ⟨rfl, rfl⟩
  · next hcount =>
    have hrank : ∀ d ∈ s.values.map (Sample.squaredDistance s.mean), d.rank ≤ powerRank 1238 := by
      intro d hd
      obtain ⟨v, hv, rfl⟩ := List.mem_map.1 hd
      exact (h.squaredDistance hv).1
    have hsign : ∀ d ∈ s.values.map (Sample.squaredDistance s.mean), d.negative = false := by
      intro d hd
      obtain ⟨v, hv, rfl⟩ := List.mem_map.1 hd
      exact (h.squaredDistance hv).2
    have htotal := Binary64.rank_sum_le hrank (by decide)
    have hdiv := div_ofNat (isFinite_of_rank_le htotal (by decide))
      (Nat.sub_pos_of_lt (Nat.lt_of_not_le hcount))
    refine sqrt_of_not_negative (isFinite_of_rank_le (Nat.le_trans hdiv.1 htotal) (by decide)) ?_
    rw [hdiv.2]
    exact negative_sum hrank hsign (by simpa using h.ne_nil) (by decide)

theorem valueAt_level (h : s.Moderate) {p : Binary64} (hp : BelowOne (p / ofNat 100)) :
    valueAt s.values (percentileRank (s.count - 1) p) = some (s.level p) := by
  rw [count, ← percentile_eq_valueAt h.ne_nil]
  exact s.percentile_eq_level hp

theorem isFinite_level (h : s.Moderate) {p : Binary64} (hp : BelowOne (p / ofNat 100)) :
    (s.level p).isFinite :=
  isFinite_of_rank_le (rank_valueAt_le (h.valueAt_level hp) h.rank_le (by decide)) (by decide)

theorem negative_level (h : s.Moderate) (hn : ∀ v ∈ s.values, v.negative = false) {p : Binary64}
    (hp : BelowOne (p / ofNat 100)) : (s.level p).negative = false :=
  negative_valueAt (h.valueAt_level hp) h.rank_le hn (by decide)

end Moderate

end Sample

namespace Summary

def values (s : Summary) : List Binary64 := figures.map fun f => f.2 s

theorem values_ofSample (s : Sample) : (ofSample s).values =
    [s.mean, s.deviation, s.min, s.level (.ofNat 25), s.level (.ofNat 50), s.level (.ofNat 75),
      s.max] := rfl

theorem belowOne_of_quartile {n : Nat} (h : n ∈ [25, 50, 75]) : BelowOne (ofNat n / ofNat 100) := by
  have hall : ∀ n ∈ [25, 50, 75], BelowOne (ofNat n / ofNat 100) := by decide +kernel
  exact hall n h

variable {s : Sample}

theorem isFinite_values (h : s.Moderate) : ∀ x ∈ (ofSample s).values, x.isFinite := by
  simp only [values_ofSample, List.forall_mem_cons]
  refine ⟨isFinite_of_rank_le h.rank_mean_le (by decide), h.deviation.1, h.isFinite h.min_mem,
    ?_, ?_, ?_, h.isFinite h.max_mem, by simp⟩
  all_goals exact h.isFinite_level (belowOne_of_quartile (by decide))

theorem negative_values (h : s.Moderate) (hn : ∀ v ∈ s.values, v.negative = false) :
    ∀ x ∈ (ofSample s).values, x.negative = false := by
  simp only [values_ofSample, List.forall_mem_cons]
  refine ⟨h.negative_mean hn, h.deviation.2, hn _ h.min_mem, ?_, ?_, ?_, hn _ h.max_mem, by simp⟩
  all_goals exact h.negative_level hn (belowOne_of_quartile (by decide))

end Summary

end LatencyDigest
