import LatencyDigest.Proofs.Statistics.Sample
import LatencyDigest.Proofs.Table.Normalize
import LatencyDigest.Report.Basic

/-! A report is made from four samples and two numbers of rows. Building it comes down to taking the
samples in turn: all that comes after them succeeds. -/

namespace LatencyDigest

namespace Table

/-- A table of the measures of a kind of log, in microseconds. -/
def ofMeasures (k : LogKind) (name : String) {rows : Nat}
    (values : Measure → Vector Binary64 rows) : Table where
  name
  rows
  columns := k.measures.map fun m => ⟨m.micros, .floats (values m).toList⟩
  length_eq := by simp [Series.length]
  nodup := by
    rw [List.map_map]
    change (k.measures.map Measure.micros).Nodup
    cases k <;> decide

theorem floats_ofMeasures {k : LogKind} {m : Measure} (h : m ∈ k.measures) (name : String)
    {rows : Nat} (values : Measure → Vector Binary64 rows) :
    (ofMeasures k name values).floats m.micros = .ok (values m).toList := by
  have hc : ⟨m.micros, .floats (values m).toList⟩ ∈ (ofMeasures k name values).columns :=
    List.mem_map_of_mem (f := fun m => Column.mk m.micros (.floats (values m).toList)) h
  exact floats_of_find? ((Column.find?_eq_some_iff (ofMeasures k name values).nodup).2 hc)

end Table

namespace Metric

/-- A value for each metric. -/
def select (arrival queue worker response : α) : Metric → α
  | .arrival => arrival
  | .queue => queue
  | .worker => worker
  | .response => response

theorem select_eq (f : Metric → α) :
    select (f .arrival) (f .queue) (f .worker) (f .response) = f := by
  funext m
  cases m <;> rfl

theorem floats_ofMeasures (packetName responseName : String) {n k : Nat}
    (packets : Measure → Vector Binary64 n) (responses : Measure → Vector Binary64 k) (m : Metric) :
    (m.table (.ofMeasures .packet packetName packets)
      (.ofMeasures .response responseName responses)).floats m.column =
      .ok (m.select (packets LogKind.arrival).toList (packets LogKind.queue).toList
        (packets LogKind.worker).toList (responses LogKind.reply).toList) := by
  cases m <;> exact Table.floats_ofMeasures (by decide) ..

theorem lookup_all (f : Metric → α) (m : Metric) :
    (all.map fun n => (n, f n)).lookup m = some (f m) := by
  cases m <;> rfl

theorem samples_eq_ok {packets responses : Table} {sample : Metric → Sample}
    (h : ∀ m : Metric, (m.table packets responses).sample m.column = .ok (sample m)) :
    samples packets responses = .ok (all.map fun m => (m, sample m)) := by
  rw [samples, Outcome.mapM_eq_ok_iff, List.forall₂_map_right_iff, List.forall₂_same]
  intro m _
  rw [h m]
  rfl

end Metric

namespace Sweep

theorem belowOne_of_mem_thresholds {t : Binary64} (h : t ∈ thresholds) :
    Binary64.BelowOne (t / .ofNat 100) := by
  have hall : ∀ t ∈ thresholds, Binary64.BelowOne (t / .ofNat 100) := by decide +kernel
  exact hall t h

def rowOf (samples : List (Metric × Sample)) (threshold : Binary64) : SweepRow where
  threshold
  values := samples.map fun (m, s) => (m, s.level threshold)

theorem row?_eq (samples : List (Metric × Sample)) {t : Binary64} (h : t ∈ thresholds) :
    row? samples t = some (rowOf samples t) := by
  have hvalues : (samples.mapM fun (m, s) => do return (m, ← s.percentile t)) =
      some (samples.map fun (m, s) => (m, s.level t)) := by
    refine Outcome.mapM_eq_some_map fun (m, s) _ => ?_
    simp only [s.percentile_eq_level (belowOne_of_mem_thresholds h)]
    rfl
  rw [row?, hvalues]
  rfl

def ofSamples (samples : List (Metric × Sample)) : Sweep where
  rows := thresholds.map (rowOf samples)

theorem ofSamples?_eq (samples : List (Metric × Sample)) :
    ofSamples? samples = some (ofSamples samples) := by
  rw [ofSamples?, Outcome.mapM_eq_some_map fun t ht => row?_eq samples ht]
  rfl

end Sweep

theorem Throughput.ofTables_eq {packets responses : Table} (h : responses.rows ≠ 0) :
    Throughput.ofTables packets responses = .ok {
      packets := packets.rows
      challenges := responses.rows
      ratio := .ofNat packets.rows / .ofNat responses.rows } := by
  rw [ofTables, packetsPerChallenge, if_neg h]
  rfl

namespace Report

def ofSamples (sample : Metric → Sample) (packets responses : Nat) (ranges : Ranges) : Report where
  packets := [.arrival, .queue, .worker].map fun m : Metric => (m.column, .ofSample (sample m))
  responses := [.response].map fun m : Metric => (m.column, .ofSample (sample m))
  throughput := {
    packets
    challenges := responses
    ratio := .ofNat packets / .ofNat responses }
  sweep := .ofSamples (Metric.all.map fun m => (m, sample m))
  distribution := .ofSamples ranges (Metric.all.map fun m => (m, sample m))

theorem build_eq (packets responses : Table) (ranges : Ranges) :
    build packets responses ranges = (do
      let arrival ← packets.sample Metric.arrival.column
      let queue ← packets.sample Metric.queue.column
      let worker ← packets.sample Metric.worker.column
      let response ← responses.sample Metric.response.column
      return ofSamples (Metric.select arrival queue worker response) packets.rows responses.rows
        ranges) := by
  have hpackets : LogKind.packet.measures.map Measure.micros =
      [Metric.arrival.column, Metric.queue.column, Metric.worker.column] := rfl
  have hresponses : LogKind.response.measures.map Measure.micros = [Metric.response.column] := rfl
  simp only [build, hpackets, hresponses, Table.describe_cons, Table.describe_nil]
  cases ha : packets.sample Metric.arrival.column with
  | error e => rfl
  | ok a =>
  cases hq : packets.sample Metric.queue.column with
  | error e => rfl
  | ok q =>
  cases hw : packets.sample Metric.worker.column with
  | error e => rfl
  | ok w =>
  cases hs : responses.sample Metric.response.column with
  | error e => rfl
  | ok s =>
  obtain ⟨-, -, hrows, -⟩ := Table.sample_eq_ok_iff.1 hs
  have hsamples : Metric.samples packets responses =
      .ok (Metric.all.map fun m => (m, Metric.select a q w s m)) :=
    Metric.samples_eq_ok fun m => by cases m <;> assumption
  simp only [Throughput.ofTables_eq hrows, hsamples, Sweep.ofSamples?_eq]
  rfl

theorem build_eq_ok_iff {packets responses : Table} {ranges : Ranges} {r : Report} :
    build packets responses ranges = .ok r ↔ ∃ sample : Metric → Sample,
      (∀ m : Metric, (m.table packets responses).sample m.column = .ok (sample m)) ∧
        ofSamples sample packets.rows responses.rows ranges = r := by
  simp only [build_eq, Outcome.bind_eq_ok_iff]
  constructor
  · rintro ⟨a, ha, q, hq, w, hw, s, hs, h⟩
    exact ⟨Metric.select a q w s, fun m => by cases m <;> assumption, Except.ok.inj h⟩
  · rintro ⟨sample, h, rfl⟩
    refine ⟨_, h .arrival, _, h .queue, _, h .worker, _, h .response, ?_⟩
    rw [Metric.select_eq]
    rfl

/-- Tables that hold the columns of the metrics: what is left to fail is a table without rows. -/
theorem build_of_values {packets responses : Table} {values : Metric → List Binary64}
    (h : ∀ m : Metric, (m.table packets responses).floats m.column = .ok (values m))
    (ranges : Ranges) : build packets responses ranges =
      if packets.rows = 0 then .error (.noValues packets.name Metric.arrival.column)
      else if responses.rows = 0 then .error (.noValues responses.name Metric.response.column)
      else .ok (ofSamples (fun m => .ofValues (values m)) packets.rows responses.rows ranges) := by
  have ha : packets.sample Metric.arrival.column = _ := Table.sample_of_floats (h .arrival)
  have hq : packets.sample Metric.queue.column = _ := Table.sample_of_floats (h .queue)
  have hw : packets.sample Metric.worker.column = _ := Table.sample_of_floats (h .worker)
  have hs : responses.sample Metric.response.column = _ := Table.sample_of_floats (h .response)
  rw [build_eq, ha, hq, hw, hs]
  by_cases hp : packets.rows = 0
  · simp only [if_pos hp]
    rfl
  · by_cases hr : responses.rows = 0
    · simp only [if_neg hp, if_pos hr]
      rfl
    · simp only [if_neg hp, if_neg hr]
      rw [← Metric.select_eq fun m => Sample.ofValues (values m)]
      rfl

end Report

end LatencyDigest
