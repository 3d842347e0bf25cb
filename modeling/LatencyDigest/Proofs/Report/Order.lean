import LatencyDigest.Proofs.Report.Agreement
import LatencyDigest.Proofs.Report.Finite
import LatencyDigest.Proofs.Statistics.Order

/-! The percentiles of a report, of values that were nanoseconds: where they stand among the values,
and in which order. -/

namespace LatencyDigest

open Binary64

/-- Both are numbers, and the first stands at most so many places above the second. -/
def Binary64.LEWithin (e : Nat) (x y : Binary64) : Prop :=
  x.isNaN = false ∧ y.isNaN = false ∧ x.place ≤ y.place + e

theorem Binary64.le_of_place_le {x y : Binary64} (hx : x.isFinite) (hy : y.isFinite)
    (h : x.place ≤ y.place) : x ≤ y :=
  ⟨isNaN_of_isFinite hx, isNaN_of_isFinite hy, h⟩

/-- Microseconds are far above the numbers of which a quarter is rounded. -/
theorem fourfold_nanosToMicros (i : Int64) : Fourfold (nanosToMicros (.ofInt i.toInt)).rank := by
  rw [nanosToMicros_ofInt]
  change Fourfold (nearestRank _ 1000)
  rcases Nat.eq_zero_or_pos i.toInt.natAbs with hzero | hpos
  · left
    rw [hzero, magnitude_ofNat (Nat.zero_le _), Nat.zero_mul, nearestRank_zero (by decide)]
  · right
    have hbound : 1000 * magnitudeAt (powerRank 1000) ≤ unit := by decide +kernel
    have hrank := le_nearestRank_of_le (by decide) (Nat.le_of_lt (powerRank_lt (by decide)))
      (hbound.trans (unit_le_magnitude_ofNat hpos))
    have hexponent := exponentAt_mono hrank
    rw [exponentAt_powerRank] at hexponent
    exact Nat.le_trans (by decide) hexponent

def Sample.ofNanos (ns : List Int64) : Sample :=
  .ofValues (ns.map fun i => nanosToMicros (.ofInt i.toInt))

theorem Report.quartered_of_nanos {ns : List Int64} (h : ns ≠ []) :
    (Sample.ofNanos ns).Quartered where
  toModerate := moderate_of_nanos h
  fourfold v hv := by
    obtain ⟨i, -, rfl⟩ := List.mem_map.1 ((Sample.values_ofValues_perm _).mem_iff.1 hv)
    exact fourfold_nanosToMicros i

/-- The percentiles of one metric: those of its summary, and those of the sweep by threshold. -/
structure Summary.InOrder (s : Summary) (level : Binary64 → Binary64) : Prop where
  lowerQuartile_mem : s.min ≤ s.lowerQuartile ∧ s.lowerQuartile ≤ s.max
  median_mem : s.min ≤ s.median ∧ s.median ≤ s.max
  upperQuartile_mem : s.min ≤ s.upperQuartile ∧ s.upperQuartile ≤ s.max
  quartiles_le : ¬(s.count = 2 ∧ s.max.place = s.min.place + 1) →
    s.lowerQuartile ≤ s.median ∧ s.median ≤ s.upperQuartile
  level_fifty : level (ofNat 50) = s.median
  level_seventyFive : level (ofNat 75) = s.upperQuartile
  level_mem : ∀ t ∈ Sweep.thresholds, LEWithin 1 s.min (level t) ∧ LEWithin 1 (level t) s.max
  level_le : ∀ t ∈ Sweep.thresholds, ∀ u ∈ Sweep.thresholds, t ≤ u → LEWithin 2 (level t) (level u)

theorem Sample.Quartered.inOrder {s : Sample} (h : s.Quartered) :
    (Summary.ofSample s).InOrder s.level := by
  have hmin := h.isFinite h.min_mem
  have hmax := h.isFinite h.max_mem
  have hlevel {p : Binary64} (hp : (p / ofNat 100).IsPart) : (s.level p).isFinite :=
    h.isFinite_level hp.belowOne
  have hquartile {j : Nat} (hj : j ∈ [1, 2, 3]) :
      s.min ≤ s.level (ofNat (25 * j)) ∧ s.level (ofNat (25 * j)) ≤ s.max := by
    have hfinite := hlevel (isPart_of_quartile hj)
    have hplaces := h.quartile_within hj
    exact ⟨le_of_place_le hmin hfinite hplaces.1, le_of_place_le hfinite hmax hplaces.2⟩
  have hpart {t : Binary64} (ht : t ∈ Sweep.thresholds) := isPart_of_mem (List.mem_cons_of_mem _ ht)
  exact {
    lowerQuartile_mem := hquartile (j := 1) (by decide)
    median_mem := hquartile (j := 2) (by decide)
    upperQuartile_mem := hquartile (j := 3) (by decide)
    quartiles_le := by
      intro hne
      have hplaces := h.quartiles_in_order (Classical.not_and_iff_not_or_not.1 hne)
      have hfinite {j : Nat} (hj : j ∈ [1, 2, 3]) := hlevel (isPart_of_quartile hj)
      exact ⟨le_of_place_le (hfinite (j := 1) (by decide)) (hfinite (j := 2) (by decide)) hplaces.1,
        le_of_place_le (hfinite (j := 2) (by decide)) (hfinite (j := 3) (by decide)) hplaces.2⟩
    level_fifty := rfl
    level_seventyFive := rfl
    level_mem := by
      intro t ht
      have hplaces := h.level_within (hpart ht)
      have hnan := isNaN_of_isFinite (hlevel (hpart ht))
      exact ⟨⟨isNaN_of_isFinite hmin, hnan, hplaces.1⟩, hnan, isNaN_of_isFinite hmax, hplaces.2⟩
    level_le := by
      intro t ht u hu hle
      have hquotient : ∀ t ∈ Sweep.thresholds, ∀ u ∈ Sweep.thresholds, t ≤ u →
          (t / ofNat 100).rank ≤ (u / ofNat 100).rank := by decide +kernel
      exact ⟨isNaN_of_isFinite (hlevel (hpart ht)), isNaN_of_isFinite (hlevel (hpart hu)),
        h.level_le_add_two (hpart ht) (hpart hu) (hquotient t ht u hu hle)⟩ }

/-- The percentiles of one metric that has the same value throughout. -/
structure Summary.Steady (s : Summary) (level : Binary64 → Binary64) (v : Binary64) : Prop where
  lowerQuartile_eq : s.lowerQuartile.Equal v
  median_eq : s.median.Equal v
  upperQuartile_eq : s.upperQuartile.Equal v
  level_near : ∀ t ∈ Sweep.thresholds, LEWithin 1 v (level t) ∧ LEWithin 1 (level t) v

theorem Summary.InOrder.steady {s : Summary} {level : Binary64 → Binary64} {v : Binary64}
    (h : s.InOrder level) (hmin : s.min = v) (hmax : s.max = v) : s.Steady level v where
  lowerQuartile_eq := ⟨hmax ▸ h.lowerQuartile_mem.2, hmin ▸ h.lowerQuartile_mem.1⟩
  median_eq := ⟨hmax ▸ h.median_mem.2, hmin ▸ h.median_mem.1⟩
  upperQuartile_eq := ⟨hmax ▸ h.upperQuartile_mem.2, hmin ▸ h.upperQuartile_mem.1⟩
  level_near t ht := ⟨hmin ▸ (h.level_mem t ht).1, hmax ▸ (h.level_mem t ht).2⟩

namespace Report

theorem eq_of_nanos {ns : List Int64} {i : Int64} (h : ∀ n ∈ ns, n = i) :
    ∀ v ∈ (Sample.ofNanos ns).values, v = nanosToMicros (.ofInt i.toInt) := by
  intro v hv
  obtain ⟨n, hn, rfl⟩ := List.mem_map.1 ((Sample.values_ofValues_perm _).mem_iff.1 hv)
  rw [h n hn]

/-- A report on columns of numbers of nanoseconds in microseconds. -/
theorem percentiles_in_order {packets responses : Table} {ns : Metric → List Int64}
    (hne : ∀ m, ns m ≠ [])
    (h : ∀ m : Metric, (m.table packets responses).floats m.column =
      .ok ((ns m).map fun i => nanosToMicros (.ofInt i.toInt))) (ranges : Ranges) :
    ∃ r, build packets responses ranges = .ok r ∧ ∀ m : Metric, ∃ summary level,
      r.summary? m = some summary ∧ summary = .ofSample (.ofNanos (ns m)) ∧
      (∀ t ∈ Sweep.thresholds, r.sweep.value? t m = some (level t)) ∧
      summary.InOrder level ∧
      ∀ i, (∀ n ∈ ns m, n = i) → summary.Steady level (nanosToMicros (.ofInt i.toInt)) := by
  have hbuild := build_of_values h ranges
  have hrows (m : Metric) : (m.table packets responses).rows ≠ 0 := by
    rw [← Table.length_of_floats (h m), List.length_map]
    exact Nat.ne_of_gt (List.length_pos_iff.2 (hne m))
  have hp : packets.rows ≠ 0 := hrows .arrival
  have hr : responses.rows ≠ 0 := hrows .response
  rw [if_neg hp, if_neg hr] at hbuild
  refine ⟨_, hbuild, fun m => ⟨_, (Sample.ofNanos (ns m)).level, summary?_ofSamples .., rfl,
    fun t ht => Sweep.value?_ofSamples _ ht m, ?_⟩⟩
  have hquartered := quartered_of_nanos (hne m)
  have horder := hquartered.inOrder
  refine ⟨horder, fun i hi => horder.steady ?_ ?_⟩
  · exact eq_of_nanos hi _ hquartered.min_mem
  · exact eq_of_nanos hi _ hquartered.max_mem

/-- Two packets that are neighbours as numbers, and 34 challenges that took the same time. -/
def closeNanos : Metric → List Int64 :=
  Metric.select [63050394783186951, 63050394783186956] [63050394783186951, 63050394783186956]
    [63050394783186951, 63050394783186956] (List.replicate 34 922)

def closePackets : Table :=
  .ofMeasures .packet "packet latency" fun _ =>
    #v[nanosToMicros (.ofInt 63050394783186951), nanosToMicros (.ofInt 63050394783186956)]

def closeResponses : Table :=
  .ofMeasures .response "TCP response" fun _ => Vector.replicate 34 (nanosToMicros (.ofInt 922))

theorem floats_close (m : Metric) : (m.table closePackets closeResponses).floats m.column =
    .ok ((closeNanos m).map fun i => nanosToMicros (.ofInt i.toInt)) := by
  refine (m.floats_ofMeasures ..).trans ?_
  cases m <;> rfl

theorem percentiles_in_order_close :
    (∀ m, closeNanos m ≠ []) ∧
      (∀ m : Metric, (m.table closePackets closeResponses).floats m.column =
        .ok ((closeNanos m).map fun i => nanosToMicros (.ofInt i.toInt))) ∧
      ∃ r, build closePackets closeResponses .standard = .ok r ∧
        ∀ m : Metric, ∃ summary level, r.summary? m = some summary ∧
          summary = .ofSample (.ofNanos (closeNanos m)) ∧
          (∀ t ∈ Sweep.thresholds, r.sweep.value? t m = some (level t)) ∧
          summary.InOrder level ∧
          ∀ i, (∀ n ∈ closeNanos m, n = i) →
            summary.Steady level (nanosToMicros (.ofInt i.toInt)) := by
  have hne (m : Metric) : closeNanos m ≠ [] := by
    cases m <;> decide
  exact ⟨hne, floats_close, percentiles_in_order hne floats_close .standard⟩

/-- The first quartile of the packets is above their median. The challenges all took the same time,
and yet one percentile is above it and a later one is below it. -/
theorem not_percentiles_in_order :
    ∃ r packets responses, build closePackets closeResponses .standard = .ok r ∧
      r.summary? .arrival = some packets ∧ packets.median < packets.lowerQuartile ∧
      r.summary? .response = some responses ∧
      (∃ v, r.sweep.value? (ofNat 90) .response = some v ∧ responses.max < v) ∧
      ∃ v, r.sweep.value? (ofNat 95) .response = some v ∧ v < responses.min := by
  have hbuild : build closePackets closeResponses .standard =
      .ok (ofSamples (fun m => .ofNanos (closeNanos m)) 2 34 .standard) :=
    build_of_values floats_close .standard
  have harrival : (Sample.ofNanos (closeNanos .arrival)).values =
      [nanosToMicros (.ofInt 63050394783186951), nanosToMicros (.ofInt 63050394783186956)] :=
    Sample.values_ofValues_of_pairwise (by decide +kernel)
  have hresponse : (Sample.ofNanos (closeNanos .response)).values =
      List.replicate 34 (nanosToMicros (.ofInt 922)) :=
    Sample.values_ofValues_of_pairwise (by decide +kernel)
  refine ⟨_, _, _, hbuild, summary?_ofSamples .., ?_, summary?_ofSamples ..,
    ⟨_, Sweep.value?_ofSamples _ (t := ofNat 90) (by decide +kernel) .response, ?_⟩,
    ⟨_, Sweep.value?_ofSamples _ (t := ofNat 95) (by decide +kernel) .response, ?_⟩⟩
  · change (Sample.ofNanos (closeNanos .arrival)).level (ofNat 50) <
      (Sample.ofNanos (closeNanos .arrival)).level (ofNat 25)
    rw [Sample.level, Sample.level, Sample.percentile, Sample.percentile, harrival]
    decide +kernel
  · change (Sample.ofNanos (closeNanos .response)).max <
      (Sample.ofNanos (closeNanos .response)).level (ofNat 90)
    rw [Sample.max, Sample.level, Sample.percentile, hresponse]
    decide +kernel
  · change (Sample.ofNanos (closeNanos .response)).level (ofNat 95) <
      (Sample.ofNanos (closeNanos .response)).min
    rw [Sample.min, Sample.level, Sample.percentile, hresponse]
    decide +kernel

end Report

end LatencyDigest
