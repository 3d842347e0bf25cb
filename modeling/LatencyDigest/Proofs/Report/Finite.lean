import LatencyDigest.Proofs.Report.Logs
import LatencyDigest.Proofs.Statistics.Figures
import LatencyDigest.Proofs.Units

/-! The figures of a report on two logs that were loaded. None of them is a NaN or an infinity, and
where no logged value is negative none of them is. -/

namespace LatencyDigest

/-- A value of a metric as it stands in the loaded tables. -/
def Metric.Logged (packetLog responseLog : Table) (m : Metric) (n : Int64) : Prop :=
  ∃ ns, (m.table packetLog responseLog).column m.measure.nanos = .ok (.integers ns) ∧ n ∈ ns

namespace Report

/-- The figures of the summaries and the values of the sweep. -/
def figures (r : Report) : List Binary64 :=
  (r.packets ++ r.responses).flatMap (fun s => s.2.values) ++
    r.sweep.rows.flatMap fun row => row.values.map Prod.snd

section
variable {sample : Metric → Sample} {packets responses : Nat} {ranges : Ranges} {x : Binary64}

theorem mem_figures_ofSamples (h : x ∈ (ofSamples sample packets responses ranges).figures) :
    ∃ m : Metric, x ∈ (Summary.ofSample (sample m)).values ∨
      ∃ t ∈ Sweep.thresholds, x = (sample m).level t := by
  rcases List.mem_append.1 h with h | h
  · obtain ⟨s, hs, hx⟩ := List.mem_flatMap.1 h
    rcases List.mem_append.1 hs with hs | hs
    all_goals
      obtain ⟨m, -, rfl⟩ := List.mem_map.1 hs
      exact ⟨m, .inl hx⟩
  · obtain ⟨row, hrow, hx⟩ := List.mem_flatMap.1 h
    obtain ⟨t, ht, rfl⟩ := List.mem_map.1 hrow
    obtain ⟨p, hp, rfl⟩ := List.mem_map.1 hx
    obtain ⟨q, hq, rfl⟩ := List.mem_map.1 hp
    obtain ⟨m, -, rfl⟩ := List.mem_map.1 hq
    exact ⟨m, .inr ⟨t, ht, rfl⟩⟩

theorem isFinite_figures (h : ∀ m, (sample m).Moderate)
    (hx : x ∈ (ofSamples sample packets responses ranges).figures) : x.isFinite := by
  obtain ⟨m, hx | ⟨t, ht, rfl⟩⟩ := mem_figures_ofSamples hx
  · exact Summary.isFinite_values (h m) x hx
  · exact (h m).isFinite_level (Sweep.belowOne_of_mem_thresholds ht)

theorem negative_figures (h : ∀ m, (sample m).Moderate)
    (hn : ∀ m, ∀ v ∈ (sample m).values, v.negative = false)
    (hx : x ∈ (ofSamples sample packets responses ranges).figures) : x.negative = false := by
  obtain ⟨m, hx | ⟨t, ht, rfl⟩⟩ := mem_figures_ofSamples hx
  · exact Summary.negative_values (h m) (hn m) x hx
  · exact (h m).negative_level (hn m) (Sweep.belowOne_of_mem_thresholds ht)

theorem zero_le_deviation (h : ∀ m, (sample m).Moderate) {s : String × Summary}
    (hs : s ∈ (ofSamples sample packets responses ranges).packets ++
      (ofSamples sample packets responses ranges).responses) : .zero ≤ s.2.deviation := by
  rcases List.mem_append.1 hs with hs | hs
  all_goals
    obtain ⟨m, -, rfl⟩ := List.mem_map.1 hs
    exact Binary64.zero_le_of_not_negative (h m).deviation.1 (h m).deviation.2

end

/-- The sample of the microseconds of a metric. -/
theorem moderate_of_nanos {ns : List Int64} (h : ns ≠ []) :
    (Sample.ofValues (ns.map fun i => nanosToMicros (.ofInt i.toInt))).Moderate where
  ne_nil := by
    rw [← List.length_pos_iff, (Sample.values_ofValues_perm _).length_eq, List.length_map]
    exact List.length_pos_iff.2 h
  rank_le v hv := by
    obtain ⟨i, -, rfl⟩ := List.mem_map.1 ((Sample.values_ofValues_perm _).mem_iff.1 hv)
    exact rank_nanosToMicros_le i

theorem negative_of_nanos {ns : List Int64} (h : ∀ n ∈ ns, 0 ≤ n) :
    ∀ v ∈ (Sample.ofValues (ns.map fun i => nanosToMicros (.ofInt i.toInt))).values,
      v.negative = false := by
  intro v hv
  obtain ⟨i, hi, rfl⟩ := List.mem_map.1 ((Sample.values_ofValues_perm _).mem_iff.1 hv)
  exact negative_nanosToMicros (h i hi)

theorem isFinite_ratio {packets responses : Nat} (hp : packets ≤ Binary64.maxIndex)
    (hr : 0 < responses) :
    (Binary64.ofNat packets / .ofNat responses).isFinite ∧
      (Binary64.ofNat packets / .ofNat responses).negative = false := by
  have hfinite := Binary64.isFinite_ofNat (Nat.le_trans hp (by decide +kernel))
  have hdiv := Binary64.div_ofNat hfinite hr
  exact ⟨Binary64.isFinite_iff.2 (Nat.lt_of_le_of_lt hdiv.1 (Binary64.isFinite_iff.1 hfinite)),
    hdiv.2⟩

/-- Of the ratio alone it has to be said that the number of packets is one that a table can have. -/
theorem figures_of_logs {source origin : String} {text data : List UInt8}
    {packetLog responseLog : Table} (hp : Log.ofBytes .packet source text = .ok packetLog)
    (hr : Log.ofBytes .response origin data = .ok responseLog) (hpackets : packetLog.rows ≠ 0)
    (hresponses : responseLog.rows ≠ 0) (ranges : Ranges) :
    ∃ packets responses r, packetLog.normalizeLog .packet = (packets, none) ∧
      responseLog.normalizeLog .response = (responses, none) ∧
      build packets responses ranges = .ok r ∧
      (∀ x ∈ r.figures, x.isFinite) ∧
      (∀ s ∈ r.packets ++ r.responses, .zero ≤ s.2.deviation) ∧
      (packetLog.rows ≤ Binary64.maxIndex →
        r.throughput.ratio.isFinite ∧ .zero ≤ r.throughput.ratio) ∧
      ((∀ m n, Metric.Logged packetLog responseLog m n → 0 ≤ n) →
        ∀ x ∈ r.figures, .zero ≤ x) := by
  obtain ⟨packets, hpn, -, hprows, hpm⟩ := Log.exists_normalized hp
  obtain ⟨responses, hrn, -, hrrows, hrm⟩ := Log.exists_normalized hr
  obtain ⟨ns, hns⟩ := exists_nanos_of_logs hpm hrm
  have hbuild := build_of_values (fun m => (hns m).micros) ranges
  rw [if_neg (hprows ▸ hpackets), if_neg (hrrows ▸ hresponses)] at hbuild
  have hne (m : Metric) : ns m ≠ [] := by
    rw [← List.length_pos_iff, (hns m).length_eq]
    cases m <;> exact Nat.pos_of_ne_zero ‹_›
  refine ⟨packets, responses, _, hpn, hrn, hbuild, ?_, ?_, ?_, ?_⟩
  · exact fun x hx => isFinite_figures (fun m => moderate_of_nanos (hne m)) hx
  · exact fun s hs => zero_le_deviation (fun m => moderate_of_nanos (hne m)) hs
  · intro hrows
    have hratio := isFinite_ratio (hprows ▸ hrows) (Nat.pos_of_ne_zero (hrrows ▸ hresponses))
    exact ⟨hratio.1, Binary64.zero_le_of_not_negative hratio.1 hratio.2⟩
  · intro hlogged x hx
    refine Binary64.zero_le_of_not_negative
      (isFinite_figures (fun m => moderate_of_nanos (hne m)) hx) ?_
    refine negative_figures (fun m => moderate_of_nanos (hne m)) (fun m => ?_) hx
    exact negative_of_nanos fun n hn => hlogged m n ⟨ns m, (hns m).nanos, hn⟩

/-- The extreme numbers of nanoseconds, three packets and two challenges. -/
theorem figures_of_logs_extremes :
    let packetLog := LogKind.packet.tabulate [fun _ => Int64.minValue, fun _ => Int64.maxValue,
      fun c => if c = LogKind.queue.nanos then 0 else 7]
    let responseLog := LogKind.response.tabulate [fun _ => 5, fun _ => Int64.maxValue]
    ∃ packets responses r, packetLog.normalizeLog .packet = (packets, none) ∧
      responseLog.normalizeLog .response = (responses, none) ∧
      build packets responses .standard = .ok r ∧
      (∀ x ∈ r.figures, x.isFinite) ∧
      (∀ s ∈ r.packets ++ r.responses, .zero ≤ s.2.deviation) ∧
      (packetLog.rows ≤ Binary64.maxIndex →
        r.throughput.ratio.isFinite ∧ .zero ≤ r.throughput.ratio) ∧
      ((∀ m n, Metric.Logged packetLog responseLog m n → 0 ≤ n) →
        ∀ x ∈ r.figures, .zero ≤ x) := by
  have hp : Log.ofBytes .packet "packets" (Text.encode
      ("udp_arrival_to_queue_ns,queue_duration_ns,worker_processing_ns\n" ++
        "-9223372036854775808,-9223372036854775808,-9223372036854775808\n" ++
        "9223372036854775807,9223372036854775807,9223372036854775807\n7,0,7\n").toList) =
      .ok (LogKind.packet.tabulate [fun _ => Int64.minValue, fun _ => Int64.maxValue,
        fun c => if c = LogKind.queue.nanos then 0 else 7]) := by
    decide +kernel
  have hr : Log.ofBytes .response "responses" (Text.encode
      "target_parsed_to_tcp_sent_ns\n5\n9223372036854775807\n".toList) =
      .ok (LogKind.response.tabulate [fun _ => 5, fun _ => Int64.maxValue]) := by
    decide +kernel
  exact figures_of_logs hp hr (by decide) (by decide) .standard

end Report

end LatencyDigest
