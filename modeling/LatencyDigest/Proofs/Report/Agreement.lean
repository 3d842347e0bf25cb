import LatencyDigest.Proofs.Report.Rendering

/-! The parts of a report are computed each on its own way from the tables. For every metric they
agree: on the number of values, and on the percentiles. -/

namespace LatencyDigest

namespace Sweep

/-- No two thresholds are equal as numbers, so the first row that matches is the threshold's own. -/
theorem find?_thresholds {t : Binary64} (h : t ∈ thresholds) :
    (thresholds.find? fun s => decide (s.Equal t)) = some t := by
  have hall : ∀ t ∈ thresholds, (thresholds.find? fun s => decide (s.Equal t)) = some t := by
    decide +kernel
  exact hall t h

theorem value?_ofSamples (sample : Metric → Sample) {t : Binary64} (h : t ∈ thresholds)
    (m : Metric) :
    (ofSamples (Metric.all.map fun m => (m, sample m))).value? t m = some ((sample m).level t) := by
  have hrow : ((thresholds.map (rowOf (Metric.all.map fun m => (m, sample m)))).find? fun r =>
      decide (r.threshold.Equal t)) = some (rowOf (Metric.all.map fun m => (m, sample m)) t) := by
    rw [List.find?_map]
    exact congrArg (Option.map _) (find?_thresholds h)
  rw [value?, ofSamples, hrow]
  change List.lookup m (rowOf _ t).values = _
  rw [rowOf, List.map_map]
  exact Metric.lookup_all (fun m => (sample m).level t) m

end Sweep

theorem Distribution.lookup_ofSamples (ranges : Ranges) (sample : Metric → Sample) (m : Metric) :
    (ofSamples ranges (Metric.all.map fun m => (m, sample m))).counts.lookup m =
      some (ranges.count (sample m).values) := by
  rw [ofSamples, List.map_map]
  exact Metric.lookup_all (fun m => ranges.count (sample m).values) m

namespace Report

def summary? (r : Report) : Metric → Option Summary
  | .response => r.responses.lookup Metric.response.column
  | m => r.packets.lookup m.column

/-- The number of values of a metric, as the throughput has it. -/
def total (r : Report) : Metric → Nat
  | .response => r.throughput.challenges
  | _ => r.throughput.packets

/-- What a report has of a metric, and the values it has it of. -/
structure Agrees (r : Report) (packets responses : Table) (m : Metric) (values : List Binary64)
    (summary : Summary) (counts : List Nat) : Prop where
  floats_eq : (m.table packets responses).floats m.column = .ok values
  summary_eq : r.summary? m = some summary
  counts_eq : r.distribution.counts.lookup m = some counts
  rows_eq : (m.table packets responses).rows = r.total m
  count_eq : summary.count = r.total m
  sum_eq : counts.sum = r.total m
  length_eq : counts.length = r.distribution.labels.length
  percentile_eq : ∀ t ∈ Sweep.thresholds, ∃ v, (Sample.ofValues values).percentile t = some v ∧
    r.sweep.value? t m = some v
  median_eq : r.sweep.value? (.ofNat 50) m = some summary.median
  upperQuartile_eq : r.sweep.value? (.ofNat 75) m = some summary.upperQuartile

variable {packets responses : Table} {ranges : Ranges} {sample : Metric → Sample}

theorem summary?_ofSamples (sample : Metric → Sample) (packets responses : Nat) (ranges : Ranges)
    (m : Metric) :
    (ofSamples sample packets responses ranges).summary? m = some (.ofSample (sample m)) := by
  cases m <;> rfl

theorem total_ofSamples (m : Metric) : (m.table packets responses).rows =
    (ofSamples sample packets.rows responses.rows ranges).total m := by
  cases m <;> rfl

theorem agrees_ofSamples {m : Metric} (hr : ranges.bounds ≠ [])
    (h : (m.table packets responses).sample m.column = .ok (sample m)) :
    ∃ values, (ofSamples sample packets.rows responses.rows ranges).Agrees packets responses m
      values (.ofSample (sample m)) (ranges.count (sample m).values) := by
  obtain ⟨values, hvalues, -, hs⟩ := Table.sample_eq_ok_iff.1 h
  have hcount : (sample m).count =
      (ofSamples sample packets.rows responses.rows ranges).total m := by
    rw [Table.count_of_sample h, total_ofSamples]
  exact ⟨values, {
    floats_eq := hvalues
    summary_eq := summary?_ofSamples _ _ _ _ m
    counts_eq := Distribution.lookup_ofSamples ranges sample m
    rows_eq := total_ofSamples m
    count_eq := hcount
    sum_eq := by rw [Ranges.sum_count, ← hcount, Sample.count]
    length_eq := by
      rw [Ranges.length_count]
      exact (Ranges.length_labels hr).symm
    percentile_eq := by
      intro t ht
      refine ⟨(sample m).level t, ?_, Sweep.value?_ofSamples sample ht m⟩
      rw [hs, (sample m).percentile_eq_level (Sweep.belowOne_of_mem_thresholds ht)]
    median_eq := Sweep.value?_ofSamples sample (t := .ofNat 50) (by decide +kernel) m
    upperQuartile_eq := Sweep.value?_ofSamples sample (t := .ofNat 75) (by decide +kernel) m }⟩

theorem build_agrees {r : Report} (h : build packets responses ranges = .ok r)
    (ha : ranges.Accepted) :
    (∀ m : Metric, ∃ values summary counts, r.Agrees packets responses m values summary counts) ∧
      r.sweep.rows.map SweepRow.threshold = Sweep.thresholds ∧
      (∀ row ∈ r.sweep.rows, row.values.map Prod.fst = Metric.all) ∧
      ∃ text, r.distribution.render? = some text := by
  obtain ⟨sample, hsample, rfl⟩ := build_eq_ok_iff.1 h
  refine ⟨fun m => ?_, ?_, ?_, ?_⟩
  · obtain ⟨values, hm⟩ := agrees_ofSamples ha.bounds_ne_nil (hsample m)
    exact ⟨values, _, _, hm⟩
  · exact (List.map_map ..).trans (List.map_id _)
  · intro row hrow
    obtain ⟨t, -, rfl⟩ := List.mem_map.1 hrow
    rfl
  · exact Distribution.exists_render?_ofSamples ranges _

/-- Two packets and one challenge. -/
theorem build_agrees_two_packets :
    let packets := Table.ofMeasures .packet "packet latency" fun m =>
      if m = LogKind.queue then #v[.ofNat 5, .ofNat 1] else #v[.ofNat 2, .neg .zero]
    let responses := Table.ofMeasures .response "TCP response" fun _ => #v[.ofNat 7000]
    ∃ r, build packets responses .standard = .ok r ∧
      (∀ m : Metric, ∃ values summary counts, r.Agrees packets responses m values summary counts) ∧
      r.sweep.rows.map SweepRow.threshold = Sweep.thresholds ∧
      (∀ row ∈ r.sweep.rows, row.values.map Prod.fst = Metric.all) ∧
      ∃ text, r.distribution.render? = some text := by
  intro packets responses
  have h : build packets responses .standard = _ :=
    build_of_values (fun m => m.floats_ofMeasures ..) .standard
  rw [if_neg (by decide), if_neg (by decide)] at h
  exact ⟨_, h, build_agrees h .standard⟩

end Report

end LatencyDigest
