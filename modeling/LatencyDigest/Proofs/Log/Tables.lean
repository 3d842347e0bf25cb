import LatencyDigest.Proofs.Log.Kind
import LatencyDigest.Proofs.Log.Records
import LatencyDigest.Proofs.Table.Columns

/-! What comes of the records of a log: the table of its rows, or the fault of the header, or the
fault of the first record that does not fit. -/

namespace LatencyDigest

open Delimited (Record Start)

/-- The table of a kind's columns, from the values of each row by the names of the columns. -/
def LogKind.tabulate (k : LogKind) (rows : List (String → Int64)) : Table where
  name := k.tableName
  rows := rows.length
  columns := k.columns.map fun c => ⟨c, .integers (rows.map (· c))⟩
  length_eq := by
    intro c hc
    obtain ⟨n, -, rfl⟩ := List.mem_map.1 hc
    simp [Series.length]
  nodup := by
    rw [List.map_map]
    exact (List.map_id k.columns).symm ▸ k.columns_nodup

namespace Log

def Named (fields : List (List UInt8)) (names : List String) : Prop :=
  List.Forall₂ (fun f n => Holds f n.toList) fields names

def headerFields : List Record → List (List UInt8)
  | [] => []
  | r :: _ => r.fields

section
variable {k : LogKind} {names : List String}

theorem header_eq_ok_iff {records : List Record} :
    header records = .ok names ↔ Named (headerFields records) names := by
  cases records with
  | nil =>
    rw [header, headerFields, Named, List.forall₂_nil_left_iff]
    constructor
    · intro h
      exact (Except.ok.inj h).symm
    · rintro rfl
      rfl
  | cons r rs =>
    simp only [header, Outcome.bind_eq_ok_iff, texts_eq_ok_iff]
    constructor
    · rintro ⟨ss, hs, h⟩
      cases h
      rw [Named, List.forall₂_map_right_iff]
      exact hs.imp fun f s h => by rwa [String.toList_ofList]
    · intro h
      refine ⟨names.map String.toList, ?_, ?_⟩
      · rw [List.forall₂_map_right_iff]
        exact h
      · have hn : (names.map String.toList).map String.ofList = names := by
          rw [List.map_map]
          exact List.map_id'' (fun n => String.ofList_toList) names
        rw [hn]
        rfl

theorem Named.unique {fields : List (List UInt8)} {names' : List String} (h : Named fields names)
    (h' : Named fields names') : names = names' := by
  induction h generalizing names' with
  | nil =>
    cases h'
    rfl
  | cons hf _ ih =>
    cases h' with
    | cons hf' h' => rw [ih h', String.toList_injective (hf.unique hf')]

theorem missingColumns_eq_nil_iff : missingColumns k names = [] ↔ ∀ c ∈ k.columns, c ∈ names := by
  simp [missingColumns]

/-- The values of a row as far as it has them. -/
def values (row : Row) (c : String) : Int64 := (row.lookup c).getD 0

theorem mapM_value {rows : List Row} {c : String} (h : ∀ w ∈ rows, (w.lookup c).isSome) :
    rows.mapM (Row.value c) = .ok (rows.map fun w => values w c) := by
  rw [Outcome.mapM_eq_ok_iff, List.forall₂_map_right_iff, List.forall₂_same]
  intro w hw
  obtain ⟨v, hv⟩ := Option.isSome_iff_exists.1 (h w hw)
  simp [Row.value, values, hv]

def insertColumn (source : String) (rows : List Row) (t : Table) (c : String) :
    Except Failure Table := do
  let values ← (rows.mapM (Row.value c)).mapError (.malformed source 0)
  t.insert c (.integers values)

theorem foldlM_insertColumn (source : String) {rows : List Row} {cs : List String} {t : Table}
    (hr : t.rows = rows.length) (hv : ∀ w ∈ rows, ∀ c ∈ cs, (w.lookup c).isSome)
    (hn : (t.columns.map Column.name ++ cs).Nodup) :
    ∃ u, cs.foldlM (insertColumn source rows) t = .ok u ∧
      u.name = t.name ∧ u.rows = t.rows ∧ u.columns = t.columns ++
        cs.map fun c => ⟨c, .integers (rows.map fun w => values w c)⟩ := by
  induction cs generalizing t with
  | nil => exact ⟨t, rfl, rfl, rfl, by simp⟩
  | cons c cs ih =>
    have hlen : (Series.integers (rows.map fun w => values w c)).length = t.rows := by
      simp [Series.length, hr]
    obtain ⟨u, hu⟩ := Table.exists_insert c hlen
    obtain ⟨-, hname, hrows, hcols⟩ := Table.insert_eq_ok_iff.1 hu
    have hc : c ∉ t.columns.map Column.name := by
      intro hm
      rw [List.nodup_append] at hn
      exact hn.2.2 c hm c List.mem_cons_self rfl
    rw [Column.put_of_not_mem hc] at hcols
    have hcons : (u.columns.map Column.name ++ cs).Nodup := by
      rw [hcols]
      simpa using hn
    obtain ⟨x, hx, xname, xrows, xcols⟩ := ih (hrows.trans hr)
      (fun w hw d hd => hv w hw d (List.mem_cons_of_mem c hd)) hcons
    refine ⟨x, ?_, xname.trans hname, xrows.trans hrows, ?_⟩
    · have hi : insertColumn source rows t c = .ok u := by
        rw [insertColumn, mapM_value fun w hw => hv w hw c List.mem_cons_self]
        exact hu
      rw [List.foldlM_cons, hi]
      exact hx
    · rw [xcols, hcols]
      simp

theorem table_eq_ok {source : String} {rows : List Row}
    (hv : ∀ w ∈ rows, ∀ c ∈ k.columns, (w.lookup c).isSome) :
    table k source rows = .ok (k.tabulate (rows.map values)) := by
  obtain ⟨u, hu, hname, hrows, hcols⟩ := foldlM_insertColumn source
    (t := Table.empty k.tableName rows.length) rfl hv k.columns_nodup
  change k.columns.foldlM (insertColumn source rows) _ = _
  rw [hu]
  refine congrArg _ (Table.ext_columns hname ?_ ?_)
  · rw [hrows]
    exact (List.length_map _).symm
  · rw [hcols]
    simp [Table.empty, LogKind.tabulate]

variable {source : String} {records : List Record}

theorem ofRecords_of_header {e : LogFault} (h : header records = .error e) :
    ofRecords k source records = .error (.malformed source 1 e) := by
  rw [ofRecords, h]
  rfl

theorem ofRecords_of_missing (h : header records = .ok names) (hm : missingColumns k names ≠ []) :
    ofRecords k source records =
      .error (.malformed source 1 (.missingColumns (missingColumns k names))) := by
  rw [ofRecords, h]
  change (if missingColumns k names ≠ [] then _ else _) = _
  rw [if_pos hm]
  rfl

theorem ofRecords_of_names (h : header records = .ok names) (hm : missingColumns k names = []) :
    ofRecords k source records = (records.tail.mapM fun r =>
      (row k names r).mapError (.malformed source r.start.line)) >>= table k source := by
  rw [ofRecords, h]
  change (if missingColumns k names ≠ [] then _ else _) = _
  rw [if_neg (by simpa using hm)]

theorem exists_mem_zip {fields : List (List UInt8)} (hl : fields.length = names.length) {c : String}
    (hc : c ∈ names) : ∃ f, (c, f) ∈ names.zip fields := by
  obtain ⟨i, hi, rfl⟩ := List.mem_iff_getElem.1 hc
  have hz : i < (names.zip fields).length := by
    rw [List.length_zip]
    omega
  refine ⟨fields[i], ?_⟩
  rw [← List.getElem_zip (h := hz)]
  exact List.getElem_mem hz

theorem isSome_lookup_of_row {r : Record} {w : Row} (h : row k names r = .ok w) {c : String}
    (hc : c ∈ k.columns) (hn : c ∈ names) : (w.lookup c).isSome := by
  obtain ⟨hf, -, hg⟩ := fits_of_row h
  obtain ⟨f, hm⟩ := exists_mem_zip hf.length_eq hn
  obtain ⟨v, -, hv⟩ := hg c f hm hc
  rw [hv]
  rfl

end

/-- All that can come of the records of a log. -/
inductive Comes (k : LogKind) (source : String) (records : List Record) :
    Except Failure Table → Prop
  | badHeader : header records = .error e → Comes k source records (.error (.malformed source 1 e))
  | missing : header records = .ok names → missingColumns k names ≠ [] → Comes k source records
      (.error (.malformed source 1 (.missingColumns (missingColumns k names))))
  | badRow : header records = .ok names → missingColumns k names = [] →
      records.tail = before ++ r :: after → (∀ q ∈ before, ∃ w, row k names q = .ok w) →
      row k names r = .error e →
      Comes k source records (.error (.malformed source r.start.line e))
  | table : header records = .ok names → missingColumns k names = [] →
      List.Forall₂ (fun r w => row k names r = .ok w) records.tail rows →
      Comes k source records (.ok (k.tabulate (rows.map values)))

theorem comes_ofRecords (k : LogKind) (source : String) (records : List Record) :
    Comes k source records (ofRecords k source records) := by
  cases h : header records with
  | error e =>
    rw [ofRecords_of_header h]
    exact .badHeader h
  | ok names =>
    by_cases hm : missingColumns k names = []
    · rw [ofRecords_of_names h hm]
      cases hr : records.tail.mapM fun r =>
          (row k names r).mapError (Failure.malformed source r.start.line) with
      | error d =>
        obtain ⟨before, r, after, ht, hb, hd⟩ := Outcome.exists_of_mapM_eq_error hr
        obtain ⟨e, he, rfl⟩ := Outcome.mapError_eq_error_iff.1 hd
        refine .badRow h hm ht ?_ he
        intro q hq
        obtain ⟨w, hw⟩ := hb q hq
        exact ⟨w, Outcome.mapError_eq_ok_iff.1 hw⟩
      | ok rows =>
        have hrows : List.Forall₂ (fun r w => row k names r = .ok w) records.tail rows :=
          (Outcome.mapM_eq_ok_iff.1 hr).imp fun _ _ => Outcome.mapError_eq_ok_iff.1
        have hv : ∀ w ∈ rows, ∀ c ∈ k.columns, (w.lookup c).isSome := by
          intro w hw c hc
          obtain ⟨r, -, hrw⟩ := Aligned.exists_left_of_mem hrows hw
          exact isSome_lookup_of_row hrw hc (missingColumns_eq_nil_iff.1 hm c hc)
        change Comes k source records (table k source rows)
        rw [table_eq_ok hv]
        exact .table h hm hrows
    · rw [ofRecords_of_missing h hm]
      exact .missing h hm

end Log

end LatencyDigest
