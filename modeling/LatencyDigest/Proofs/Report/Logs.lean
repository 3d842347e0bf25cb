import LatencyDigest.Proofs.Log.Normalized
import LatencyDigest.Proofs.Report.Rendering

/-! The report on two logs that were loaded. Both are normalized, and the report fails only for want
of a row in one of them. -/

namespace LatencyDigest.Report

theorem exists_nanos_of_logs {packetLog packets responseLog responses : Table}
    (hp : ∀ m ∈ LogKind.packet.measures, ∃ ns, m.Derives packetLog packets ns)
    (hr : ∀ m ∈ LogKind.response.measures, ∃ ns, m.Derives responseLog responses ns) :
    ∃ ns : Metric → List Int64, ∀ m : Metric,
      m.measure.Derives (m.table packetLog responseLog) (m.table packets responses) (ns m) := by
  obtain ⟨a, ha⟩ := hp LogKind.arrival (by decide)
  obtain ⟨q, hq⟩ := hp LogKind.queue (by decide)
  obtain ⟨w, hw⟩ := hp LogKind.worker (by decide)
  obtain ⟨s, hs⟩ := hr LogKind.reply (by decide)
  exact ⟨Metric.select a q w s, fun m => by cases m <;> assumption⟩

theorem exists_values_of_logs {packetLog packets responseLog responses : Table}
    (hp : ∀ m ∈ LogKind.packet.measures, ∃ ns, m.Derives packetLog packets ns)
    (hr : ∀ m ∈ LogKind.response.measures, ∃ ns, m.Derives responseLog responses ns) :
    ∃ values : Metric → List Binary64,
      ∀ m : Metric, (m.table packets responses).floats m.column = .ok (values m) := by
  obtain ⟨ns, hns⟩ := exists_nanos_of_logs hp hr
  exact ⟨_, fun m => (hns m).micros⟩

theorem build_of_logs {source origin : String} {text data : List UInt8}
    {packetLog responseLog : Table} (hp : Log.ofBytes .packet source text = .ok packetLog)
    (hr : Log.ofBytes .response origin data = .ok responseLog) (ranges : Ranges) :
    ∃ packets responses, packetLog.normalizeLog .packet = (packets, none) ∧
      responseLog.normalizeLog .response = (responses, none) ∧
      ((∃ r, build packets responses ranges = .ok r) ↔
        packetLog.rows ≠ 0 ∧ responseLog.rows ≠ 0) ∧
      (∀ e, build packets responses ranges = .error e ↔
        packetLog.rows = 0 ∧ e = .noValues "packet latency" "udp_arrival_to_queue_us" ∨
        packetLog.rows ≠ 0 ∧ responseLog.rows = 0 ∧
          e = .noValues "TCP response" "target_parsed_to_tcp_sent_us") ∧
      (∀ r, build packets responses ranges = .ok r → ∃ text, r.render? = some text) ∧
      ∀ v, ranges.bucket v < ranges.bucketCount := by
  obtain ⟨packets, hpn, hpname, hprows, hpm⟩ := Log.exists_normalized hp
  obtain ⟨responses, hrn, hrname, hrrows, hrm⟩ := Log.exists_normalized hr
  obtain ⟨values, hvalues⟩ := exists_values_of_logs hpm hrm
  have hbuild : build packets responses ranges =
      if packetLog.rows = 0 then .error (.noValues "packet latency" "udp_arrival_to_queue_us")
      else if responseLog.rows = 0 then
        .error (.noValues "TCP response" "target_parsed_to_tcp_sent_us")
      else .ok (ofSamples (fun m => .ofValues (values m)) packets.rows responses.rows ranges) := by
    rw [← hprows, ← hrrows, build_of_values hvalues ranges, hpname, hrname]
    rfl
  refine ⟨packets, responses, hpn, hrn, ?_, fun e => ?_, ?_, ranges.bucket_lt⟩
  · rw [hbuild]
    split
    · simp [*]
    · split <;> simp [*]
  · rw [hbuild]
    split
    · simp [*, eq_comm]
    · split <;> simp [*, eq_comm]
  · intro r h
    obtain ⟨sample, -, rfl⟩ := build_eq_ok_iff.1 h
    exact exists_render? sample _ _ ranges

/-- A log of one packet and one without a challenge. -/
theorem build_of_logs_unanswered :
    let packetLog := LogKind.packet.tabulate [fun c => if c = LogKind.queue.nanos then -1 else 7]
    let responseLog := LogKind.response.tabulate []
    ∃ packets responses, packetLog.normalizeLog .packet = (packets, none) ∧
      responseLog.normalizeLog .response = (responses, none) ∧
      ((∃ r, build packets responses .standard = .ok r) ↔
        packetLog.rows ≠ 0 ∧ responseLog.rows ≠ 0) ∧
      (∀ e, build packets responses .standard = .error e ↔
        packetLog.rows = 0 ∧ e = .noValues "packet latency" "udp_arrival_to_queue_us" ∨
        packetLog.rows ≠ 0 ∧ responseLog.rows = 0 ∧
          e = .noValues "TCP response" "target_parsed_to_tcp_sent_us") ∧
      (∀ r, build packets responses .standard = .ok r → ∃ text, r.render? = some text) ∧
      ∀ v, Ranges.standard.bucket v < Ranges.standard.bucketCount := by
  have hp : Log.ofBytes .packet "packets" (Text.encode
      "worker_processing_ns,queue_duration_ns,udp_arrival_to_queue_ns\n7,-1,7\n".toList) =
      .ok (LogKind.packet.tabulate [fun c => if c = LogKind.queue.nanos then -1 else 7]) := by
    decide +kernel
  have hr : Log.ofBytes .response "responses" (Text.encode
      "target_parsed_to_tcp_sent_ns\n".toList) = .ok (LogKind.response.tabulate []) := by
    decide +kernel
  exact build_of_logs hp hr .standard

end LatencyDigest.Report
