import LatencyDigest.Proofs.Binary64.QuarterBlend
import LatencyDigest.Proofs.Binary64.TotalOrder
import LatencyDigest.Proofs.Statistics.Figures
import LatencyDigest.Proofs.Statistics.Ranks

/-! The percentiles of a sample against its extremes and against each other. An interpolation is
rounded three times and not cut off, so a percentile can leave the two values beside it, by one
place; at the quarters it does not. -/

namespace LatencyDigest

namespace Binary64

section
variable {x y low high w : Binary64} {W : Nat}

theorem natAbs_place (x : Binary64) : x.place.natAbs = x.rank := by
  rw [place]
  split <;> simp

/-- Blended with itself at a weight, a number is moved by so many places at most. -/
def StaysWithin (x : Binary64) (W e : Nat) : Prop :=
  blend (unitsAt x.place) (unitsAt x.place) W ≤ x.place + e ∧
    x.place ≤ blend (unitsAt x.place) (unitsAt x.place) W + e

theorem staysWithin_one (hx : x.rank + 1 < infinityRank) (hW : W ≤ unit) : x.StaysWithin W 1 :=
  blend_self_near (by rw [natAbs_place]; exact hx) hW

theorem staysWithin_zero {k : Nat} (hx : x.isFinite) (h : Fourfold x.rank) (hk : k ∈ [1, 2, 3]) :
    x.StaysWithin (k * quarter) 0 := by
  rw [← natAbs_place] at h
  have hself := blend_self_quarters (natAbs_place x ▸ isFinite_iff.1 hx) h hk
  rw [StaysWithin, hself]
  omega

theorem place_interpolate_within {e : Nat} (hlow : low.isFinite) (hhigh : high.isFinite)
    (h : w.Weighs W) (hle : low.place ≤ high.place) (hl : low.StaysWithin W e)
    (hh : high.StaysWithin W e) : low.place ≤ (interpolate low high w).place + e ∧
      (interpolate low high w).place ≤ high.place + e := by
  have hunits := unitsAt_mono hle
  rw [place_interpolate hlow hhigh h, scaled_eq_unitsAt, scaled_eq_unitsAt]
  have := blend_mono W (Int.le_refl (unitsAt low.place)) hunits
  have := blend_mono W hunits (Int.le_refl (unitsAt high.place))
  have := hl.2
  have := hh.1
  omega

end

end Binary64

open Binary64

theorem getElem?_place_le {values : List Binary64}
    (h : values.Pairwise fun x y => x.totalLE y) {i j : Nat} {x y : Binary64} (hij : i ≤ j)
    (hx : values[i]? = some x) (hy : values[j]? = some y) : x.place ≤ y.place := by
  obtain ⟨hi, rfl⟩ := List.getElem?_eq_some_iff.1 hx
  obtain ⟨hj, rfl⟩ := List.getElem?_eq_some_iff.1 hy
  rcases Nat.lt_or_eq_of_le hij with hlt | rfl
  · exact place_le_of_totalLE (List.pairwise_iff_getElem.1 h i j hi hj hlt)
  · exact Int.le_refl _

section
variable {values : List Binary64} {rank v : Binary64} {e : Nat}

/-- What is read at a rank is within so many places of the two values beside it. -/
theorem valueAt_within (h : valueAt values rank = some v)
    (hs : values.Pairwise fun x y => x.totalLE y) (hfinite : ∀ x ∈ values, x.isFinite)
    (hgrain : rank.isFinite → grain ∣ rank.magnitude)
    (hstay : ∀ lower, rank.Between lower →
      ∀ x ∈ values, x.StaysWithin (rank.magnitude - lower * unit) e) :
    ∃ low high, values[rank.floorIndex]? = some low ∧ values[rank.ceilIndex]? = some high ∧
      low.place ≤ v.place + e ∧ v.place ≤ high.place + e := by
  by_cases heq : rank.floorIndex = rank.ceilIndex
  · rw [valueAt, if_pos heq] at h
    exact ⟨v, v, h, heq ▸ h, by omega, by omega⟩
  · have hbetween := between_of_ne heq
    rw [valueAt, if_neg heq] at h
    simp only [Option.bind_eq_bind, Option.bind_eq_some_iff] at h
    obtain ⟨low, hlow, high, hhigh, hv⟩ := h
    have hl := List.mem_of_getElem? hlow
    have hh := List.mem_of_getElem? hhigh
    have hvalue : interpolate low high (rank - ofNat rank.floorIndex) = v := Option.some.inj hv
    refine ⟨low, high, hlow, hhigh, hvalue ▸ ?_⟩
    exact place_interpolate_within (hfinite low hl) (hfinite high hh)
      (hbetween.weighs (hgrain hbetween.isFinite))
      (getElem?_place_le hs (floorIndex_le_ceilIndex rank) hlow hhigh)
      (hstay _ hbetween low hl) (hstay _ hbetween high hh)

end

namespace Sample

variable {s : Sample} {p p' : Binary64}

theorem Moderate.getElem?_zero (h : s.Moderate) : s.values[0]? = some s.min := by
  rw [← List.head?_eq_getElem?, min, List.head?_eq_some_head h.ne_nil, Option.getD_some]

theorem Moderate.getElem?_last (h : s.Moderate) : s.values[s.count - 1]? = some s.max := by
  rw [count, ← List.getLast?_eq_getElem?, max, List.getLast?_eq_some_getLast h.ne_nil,
    Option.getD_some]

theorem Moderate.extremes (h : s.Moderate) {i : Nat} {x : Binary64} (hx : s.values[i]? = some x) :
    s.min.place ≤ x.place ∧ x.place ≤ s.max.place := by
  have hlt : i < s.count := (List.getElem?_eq_some_iff.1 hx).1
  exact ⟨getElem?_place_le s.ordered (Nat.zero_le i) h.getElem?_zero hx,
    getElem?_place_le s.ordered (Nat.le_sub_one_of_lt hlt) hx h.getElem?_last⟩

theorem Moderate.rank_succ_lt (h : s.Moderate) {x : Binary64} (hx : x ∈ s.values) :
    x.rank + 1 < infinityRank := by
  have hlt : powerRank 1076 + 1 < infinityRank := by decide +kernel
  exact Nat.lt_of_le_of_lt (Nat.succ_le_succ (h.rank_le x hx)) hlt

theorem Moderate.staysWithin (h : s.Moderate) {rank : Binary64} {lower : Nat}
    (hr : rank.Between lower) {x : Binary64} (hx : x ∈ s.values) :
    x.StaysWithin (rank.magnitude - lower * unit) 1 :=
  staysWithin_one (h.rank_succ_lt hx) hr.weight_le

theorem Moderate.place_level (h : s.Moderate) (hp : (p / ofNat 100).IsPart) {lower : Nat}
    {low high : Binary64} (hr : (percentileRank (s.count - 1) p).Between lower)
    (hl : s.values[lower]? = some low) (hh : s.values[lower + 1]? = some high) :
    (s.level p).place = blend (unitsAt low.place) (unitsAt high.place)
      ((percentileRank (s.count - 1) p).magnitude - lower * unit) := by
  have hvalue := h.valueAt_level hp.belowOne
  rw [valueAt_of_between hr hl hh] at hvalue
  rw [← Option.some.inj hvalue, place_interpolate (h.isFinite (List.mem_of_getElem? hl))
    (h.isFinite (List.mem_of_getElem? hh)) (hr.weighs (hp.grain_dvd_mul_ofNat hr.isFinite)),
    scaled_eq_unitsAt, scaled_eq_unitsAt]

theorem Moderate.level_reads (h : s.Moderate) (hp : (p / ofNat 100).IsPart) :
    ∃ low high, s.values[(percentileRank (s.count - 1) p).floorIndex]? = some low ∧
      s.values[(percentileRank (s.count - 1) p).ceilIndex]? = some high ∧
        low.place ≤ (s.level p).place + 1 ∧ (s.level p).place ≤ high.place + 1 :=
  valueAt_within (h.valueAt_level hp.belowOne) s.ordered (fun _ => h.isFinite)
    (fun hfinite => hp.grain_dvd_mul_ofNat hfinite) (fun _ hr _ hx => h.staysWithin hr hx)

theorem Moderate.level_within (h : s.Moderate) (hp : (p / ofNat 100).IsPart) :
    s.min.place ≤ (s.level p).place + 1 ∧ (s.level p).place ≤ s.max.place + 1 := by
  obtain ⟨low, high, hl, hh, hlow, hhigh⟩ := h.level_reads hp
  have := (h.extremes hl).1
  have := (h.extremes hh).2
  omega

/-- Of two percentiles the smaller is at most two places above the larger. -/
theorem Moderate.level_le_add_two (h : s.Moderate) (hp : (p / ofNat 100).IsPart)
    (hp' : (p' / ofNat 100).IsPart) (hle : (p / ofNat 100).rank ≤ (p' / ofNat 100).rank) :
    (s.level p).place ≤ (s.level p').place + 2 := by
  rcases ceilIndex_percentileRank_le_or hp hp' hle (s.count - 1) with
    hindex | ⟨hbetween, hbetween', hmagnitude⟩
  · obtain ⟨-, high, -, hh, -, hhigh⟩ := h.level_reads hp
    obtain ⟨low, -, hl, -, hlow, -⟩ := h.level_reads hp'
    have := getElem?_place_le s.ordered hindex hh hl
    omega
  · -- the same two values at two weights
    obtain ⟨low, high, hl, hh, -, -⟩ := h.level_reads hp
    rw [hbetween.ceilIndex] at hh
    rw [h.place_level hp hbetween hl hh, h.place_level hp' hbetween' hl hh]
    refine blend_le_add_two (getElem?_place_le s.ordered (Nat.le_succ _) hl hh) ?_ ?_
      (Nat.sub_le_sub_right hmagnitude _) hbetween'.weight_le
    · rw [natAbs_place]
      exact h.rank_succ_lt (List.mem_of_getElem? hl)
    · rw [natAbs_place]
      exact h.rank_succ_lt (List.mem_of_getElem? hh)

/-- Values of which each has a quarter that is not rounded. -/
structure Quartered (s : Sample) : Prop extends s.Moderate where
  fourfold : ∀ v ∈ s.values, Fourfold v.rank

theorem Quartered.quartile_reads (h : s.Quartered) {j : Nat} (hj : j ∈ [1, 2, 3]) :
    ∃ low high, s.values[(percentileRank (s.count - 1) (ofNat (25 * j))).floorIndex]? = some low ∧
      s.values[(percentileRank (s.count - 1) (ofNat (25 * j))).ceilIndex]? = some high ∧
        low.place ≤ (s.level (ofNat (25 * j))).place ∧
          (s.level (ofNat (25 * j))).place ≤ high.place := by
  have hp := isPart_of_quartile hj
  have hquarter : quarter ∣ (ofNat (25 * j) / ofNat 100).magnitude := by
    rw [(quotient_of_quartile hj).2.2]
    exact Nat.dvd_mul_left _ _
  have hreads := valueAt_within (e := 0) (h.valueAt_level hp.belowOne) s.ordered
    (fun _ => h.isFinite) (fun hfinite => hp.grain_dvd_mul_ofNat hfinite) fun lower hr x hx => ?_
  · simpa using hreads
  · obtain ⟨k, hk, hweight⟩ := hr.quarters (hp.quarter_dvd_mul_ofNat hquarter hr.isFinite)
    rw [hweight]
    exact staysWithin_zero (h.isFinite hx) (h.fourfold x hx) hk

theorem Quartered.quartile_within (h : s.Quartered) {j : Nat} (hj : j ∈ [1, 2, 3]) :
    s.min.place ≤ (s.level (ofNat (25 * j))).place ∧
      (s.level (ofNat (25 * j))).place ≤ s.max.place := by
  obtain ⟨low, high, hl, hh, hlow, hhigh⟩ := h.quartile_reads hj
  exact ⟨(h.extremes hl).1.trans hlow, hhigh.trans (h.extremes hh).2⟩

theorem Moderate.place_quartile_of_two (h : s.Moderate) (htwo : s.count = 2) {k : Nat}
    (hk : k ∈ [1, 2, 3]) : (s.level (ofNat (25 * k))).place =
      blend (unitsAt s.min.place) (unitsAt s.max.place) (k * quarter) := by
  have hall : ∀ k ∈ [1, 2, 3], k ≠ 0 ∧ k < 4 := by decide
  have hrank := quarters_percentileRank (n := s.count - 1) hk
    (by have := (hall k hk).2; rw [htwo]; omega)
  have hquarters : k * (s.count - 1) = 4 * 0 + k := by rw [htwo]; omega
  rw [hquarters] at hrank
  have hlast := h.getElem?_last
  rw [htwo] at hlast
  rw [h.place_level (isPart_of_quartile hk)
    (hrank.between (hall k hk).2 (hall k hk).1 (by decide)) h.getElem?_zero hlast,
    hrank.magnitude_eq, Nat.mul_zero, Nat.zero_add, Nat.zero_mul, Nat.sub_zero]

/-- The quartiles are in order, unless there are just two values that are neighbours. -/
theorem Quartered.quartiles_in_order (h : s.Quartered)
    (hne : s.count ≠ 2 ∨ s.max.place ≠ s.min.place + 1) :
    (s.level (ofNat 25)).place ≤ (s.level (ofNat 50)).place ∧
      (s.level (ofNat 50)).place ≤ (s.level (ofNat 75)).place := by
  by_cases htwo : s.count = 2
  · have hmin := h.min_mem
    have hmax := h.max_mem
    have hle := (h.extremes h.getElem?_last).1
    have hfmin := h.fourfold _ hmin
    have hfmax := h.fourfold _ hmax
    have hrmin := isFinite_iff.1 (h.isFinite hmin)
    have hrmax := isFinite_iff.1 (h.isFinite hmax)
    rw [← natAbs_place] at hfmin hfmax hrmin hrmax
    have hquartile {k : Nat} (hk : k ∈ [1, 2, 3]) := h.place_quartile_of_two htwo hk
    rw [hquartile (k := 1) (by decide), hquartile (k := 2) (by decide),
      hquartile (k := 3) (by decide)]
    rcases Int.lt_or_eq_of_le hle with hlt | heq
    · exact blend_quarters_le (by omega) hrmin hrmax hfmin hfmax
    · rw [← heq, blend_self_quarters hrmin hfmin (by decide),
        blend_self_quarters hrmin hfmin (by decide), blend_self_quarters hrmin hfmin (by decide)]
      exact ⟨Int.le_refl _, Int.le_refl _⟩
  · have hstep {j : Nat} (hj : j ∈ [1, 2]) (hj₁ : j ∈ [1, 2, 3]) (hj₂ : j + 1 ∈ [1, 2, 3]) :
        (s.level (ofNat (25 * j))).place ≤ (s.level (ofNat (25 * (j + 1)))).place := by
      obtain ⟨-, high, -, hh, -, hhigh⟩ := h.quartile_reads hj₁
      obtain ⟨low, -, hl, -, hlow, -⟩ := h.quartile_reads hj₂
      have hindex := ceilIndex_quartile_le (n := s.count - 1) hj (by have := h.count_pos; omega)
      exact hhigh.trans ((getElem?_place_le s.ordered hindex hh hl).trans hlow)
    exact ⟨hstep (j := 1) (by decide) (by decide) (by decide),
      hstep (j := 2) (by decide) (by decide) (by decide)⟩

end Sample

end LatencyDigest
