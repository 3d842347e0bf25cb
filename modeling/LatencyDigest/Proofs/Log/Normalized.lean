import LatencyDigest.Proofs.Log.Acceptance
import LatencyDigest.Proofs.Table.Normalize

/-! A loaded table is normalized without a failure, and has then the microseconds of each of its
measures. -/

namespace LatencyDigest

namespace Table

variable {k : LogKind}

@[simp] theorem columnNames_tabulate (k : LogKind) (rows : List (String → Int64)) :
    (k.tabulate rows).columnNames = k.columns := by
  rw [columnNames, LogKind.tabulate, List.map_map]
  exact List.map_id k.columns

theorem mem_tabulate {rows : List (String → Int64)} {c : String} (hc : c ∈ k.columns) :
    ⟨c, .integers (rows.map (· c))⟩ ∈ (k.tabulate rows).columns :=
  List.mem_map_of_mem (f := fun c => Column.mk c (.integers (rows.map (· c)))) hc

theorem normalizeLog_tabulate (k : LogKind) (rows : List (String → Int64)) :
    ∃ v names, (k.tabulate rows).normalizeLog k = (v, none) ∧ names ⊆ k.conversions.map Prod.snd ∧
      Grows (k.tabulate rows) v names := by
  have hs : ∀ p ∈ k.conversions, p.1 ∈ (k.tabulate rows).columnNames := by
    intro p hp
    obtain ⟨m, hm, rfl⟩ := List.mem_map.1 hp
    rw [columnNames_tabulate]
    exact List.mem_map_of_mem hm
  obtain ⟨names, hn, hg⟩ := grows_normalize (k.tabulate rows) k.conversions
  exact ⟨_, names, Prod.ext rfl (normalize_eq_none hs), hn, hg⟩

end Table

namespace LogKind

theorem conversions_nodup (k : LogKind) : (k.conversions.map Prod.snd).Nodup := by
  cases k <;> decide

theorem nanos_not_mem {k : LogKind} {m : Measure} (h : m ∈ k.measures) :
    m.nanos ∉ k.conversions.map Prod.snd := fun hm =>
  (foreign_of_mem_conversions hm).1 (List.mem_map_of_mem h)

end LogKind

/-- A table with the nanoseconds of a measure, and one with the microseconds derived from them. -/
structure Measure.Derives (m : Measure) (t u : Table) (ns : List Int64) : Prop where
  length_eq : ns.length = t.rows
  nanos : t.column m.nanos = .ok (.integers ns)
  micros : u.floats m.micros = .ok (ns.map fun i => nanosToMicros (.ofInt i.toInt))

theorem Log.exists_normalized {k : LogKind} {source : String} {text : List UInt8} {t : Table}
    (h : ofBytes k source text = .ok t) :
    ∃ u, t.normalizeLog k = (u, none) ∧ u.name = k.tableName ∧ u.rows = t.rows ∧
      ∀ m ∈ k.measures, ∃ ns, m.Derives t u ns := by
  obtain ⟨names, rows, -, -, -, rfl⟩ := exists_rows_of_ofRecords h
  obtain ⟨u, derived, hu, -, hg⟩ := Table.normalizeLog_tabulate k (rows.map values)
  refine ⟨u, hu, hg.name, hg.rows, ?_⟩
  intro m hm
  have hfind := (Column.find?_eq_some_iff (k.tabulate (rows.map values)).nodup).2
    (Table.mem_tabulate (List.mem_map_of_mem (f := Measure.nanos) hm))
  have hmicros := Table.find?_normalize_of_mem hu
    (List.mem_map_of_mem (f := fun m => (Measure.nanos m, Measure.micros m)) hm) k.conversions_nodup
    (LogKind.nanos_not_mem hm) hfind
  refine ⟨_, ?_, Table.column_eq_ok_iff.2 hfind, Table.floats_of_derived hmicros⟩
  simp [LogKind.tabulate]

end LatencyDigest
