import LatencyDigest.Proofs.Log.Tables

/-! A log loads exactly if it is well formed. The table then has each number of the log in its
place, and else the fault that is told is one of the header or of the first record that does not
fit. -/

namespace LatencyDigest.Log

open Delimited (Record records)

structure WellFormed (k : LogKind) (header : List (List UInt8)) (data : List (List (List UInt8)))
    (names : List String) : Prop where
  named : Named header names
  complete : ∀ c ∈ k.columns, c ∈ names
  fits : ∀ fields ∈ data, Fits k names fields
  unrepeated : data ≠ [] → Unrepeated k names

/-- The table of the columns of a kind, with a number of each record below the name. -/
structure Tabulates (k : LogKind) (names : List String) (data : List (List (List UInt8)))
    (t : Table) : Prop where
  name : t.name = k.tableName
  rows : t.rows = data.length
  columns : List.Forall₂ (fun c column => column.name = c ∧
    ∃ vs, column.data = .integers vs ∧
      List.Forall₂ (fun fields v => ∃ f, (c, f) ∈ names.zip fields ∧ HoldsNumber f v) data vs)
    k.columns t.columns

/-- What is said of a header that is at fault is so. -/
inductive HeaderFault (k : LogKind) (rs : List Record) : LogFault → Prop
  | notUtf8 : headerFields rs = before ++ f :: after → (∀ g ∈ before, ∃ s, g = Text.encode s) →
      Text.decode f = .error good → r ∈ rs.head? →
      HeaderFault k rs (.notUtf8 r.start before.length good)
  | missing : Named (headerFields rs) names → k.columns.filter (fun c => c ∉ names) ≠ [] →
      HeaderFault k rs (.missingColumns (k.columns.filter fun c => c ∉ names))

theorem headerFault_of_header {k : LogKind} {rs : List Record} {e : LogFault}
    (h : header rs = .error e) : HeaderFault k rs e := by
  cases rs with
  | nil => cases h
  | cons r rs =>
    rw [header] at h
    cases ht : texts r.start 0 r.fields with
    | ok ss =>
      rw [ht] at h
      cases h
    | error d =>
      rw [ht] at h
      cases h
      obtain ⟨before, f, after, good, hr, hb, hd, rfl⟩ := exists_of_texts_eq_error ht
      rw [Nat.zero_add]
      exact .notUtf8 hr (fun g hg => exists_encode_iff.2 (hb g hg)) hd rfl

section
variable {k : LogKind} {names : List String} {r : Record}

theorem row_eq_ok_iff :
    (∃ w, row k names r = .ok w) ↔ Fits k names r.fields ∧ Unrepeated k names := by
  constructor
  · rintro ⟨w, hw⟩
    obtain ⟨hf, hu, -⟩ := fits_of_row hw
    exact ⟨hf, hu⟩
  · intro h
    cases hr : row k names r with
    | ok w => exact ⟨w, rfl⟩
    | error e => exact absurd h (rowFault_of_row hr).not_fits

theorem holdsNumber_values {w : Row} (h : row k names r = .ok w) {c : String} (hc : c ∈ k.columns)
    (hn : c ∈ names) : ∃ f, (c, f) ∈ names.zip r.fields ∧ HoldsNumber f (values w c) := by
  obtain ⟨hf, -, hg⟩ := fits_of_row h
  obtain ⟨f, hm⟩ := exists_mem_zip hf.length_eq hn
  obtain ⟨v, hv, hl⟩ := hg c f hm hc
  refine ⟨f, hm, ?_⟩
  rwa [values, hl]

theorem tabulates_tabulate {rs : List Record} {rows : List Row} (hc : ∀ c ∈ k.columns, c ∈ names)
    (h : List.Forall₂ (fun r w => row k names r = .ok w) rs rows) :
    Tabulates k names (rs.map Record.fields) (k.tabulate (rows.map values)) := by
  refine ⟨rfl, ?_, ?_⟩
  · simp [LogKind.tabulate, h.length_eq]
  · rw [LogKind.tabulate, List.forall₂_map_right_iff, List.forall₂_same]
    intro c hk
    refine ⟨rfl, _, rfl, ?_⟩
    rw [List.map_map, List.forall₂_map_left_iff, List.forall₂_map_right_iff]
    exact h.imp fun r w hw => holdsNumber_values hw hk (hc c hk)

theorem WellFormed.row {rs : List Record}
    (h : WellFormed k (headerFields rs) (rs.tail.map Record.fields) names) {r : Record}
    (hr : r ∈ rs.tail) : Fits k names r.fields ∧ Unrepeated k names := by
  refine ⟨h.fits _ (List.mem_map_of_mem hr), h.unrepeated ?_⟩
  exact List.ne_nil_of_mem (List.mem_map_of_mem hr)

theorem wellFormed_of_rows {rs : List Record} {rows : List Row} (hn : header rs = .ok names)
    (hm : missingColumns k names = [])
    (h : List.Forall₂ (fun r w => row k names r = .ok w) rs.tail rows) :
    WellFormed k (headerFields rs) (rs.tail.map Record.fields) names := by
  have hf : ∀ fields ∈ rs.tail.map Record.fields, Fits k names fields ∧ Unrepeated k names := by
    intro fields hm
    obtain ⟨r, hr, rfl⟩ := List.mem_map.1 hm
    obtain ⟨w, -, hw⟩ := Aligned.exists_right_of_mem h hr
    exact row_eq_ok_iff.1 ⟨w, hw⟩
  refine ⟨header_eq_ok_iff.1 hn, missingColumns_eq_nil_iff.1 hm, fun g hg => (hf g hg).1, ?_⟩
  intro hd
  obtain ⟨fields, hm⟩ := List.exists_mem_of_ne_nil _ hd
  exact (hf fields hm).2

theorem exists_rows_of_ofRecords {source : String} {rs : List Record} {t : Table}
    (h : ofRecords k source rs = .ok t) : ∃ names rows, header rs = .ok names ∧
      missingColumns k names = [] ∧ List.Forall₂ (fun r w => row k names r = .ok w) rs.tail rows ∧
        t = k.tabulate (rows.map values) := by
  have hc := comes_ofRecords k source rs
  rw [h] at hc
  cases hc with
  | table hn hm hr => exact ⟨_, _, hn, hm, hr, rfl⟩

/-- The first record at fault, below a header that names all columns. -/
structure FirstFault (k : LogKind) (names : List String) (rs : List Record) (r : Record)
    (fault : LogFault) : Prop where
  named : Named (headerFields rs) names
  complete : ∀ c ∈ k.columns, c ∈ names
  first : ∃ before after, rs.tail = before ++ r :: after ∧
    ∀ q ∈ before, Fits k names q.fields ∧ Unrepeated k names
  not_fits : ¬(Fits k names r.fields ∧ Unrepeated k names)
  fault : RowFault k names r fault

theorem exists_fault_of_ofRecords {source : String} {rs : List Record} {e : Failure}
    (h : ofRecords k source rs = .error e) :
    (∃ fault, HeaderFault k rs fault ∧ e = .malformed source 1 fault) ∨
      ∃ names r fault, FirstFault k names rs r fault ∧
        e = .malformed source r.start.line fault := by
  have hc := comes_ofRecords k source rs
  rw [h] at hc
  cases hc with
  | badHeader he => exact .inl ⟨_, headerFault_of_header he, rfl⟩
  | missing hn hm => exact .inl ⟨_, .missing (header_eq_ok_iff.1 hn) hm, rfl⟩
  | badRow hn hm ht hb he =>
    have hf := rowFault_of_row he
    refine .inr ⟨_, _, _, ⟨header_eq_ok_iff.1 hn, missingColumns_eq_nil_iff.1 hm, ?_, hf.not_fits,
      hf⟩, rfl⟩
    exact ⟨_, _, ht, fun q hq => row_eq_ok_iff.1 (hb q hq)⟩

theorem HeaderFault.not_named {rs : List Record} {fault : LogFault} (h : HeaderFault k rs fault)
    (hn : Named (headerFields rs) names) : ¬∀ c ∈ k.columns, c ∈ names := by
  cases h with
  | @notUtf8 before f after good r hf _ hd _ =>
    have hm : f ∈ headerFields rs := by simp [hf]
    obtain ⟨n, -, u, hu, -⟩ := Aligned.exists_right_of_mem hn hm
    rw [Text.decode_eq_ok_iff.2 hu] at hd
    cases hd
  | missing hn' hne =>
    rw [hn.unique hn']
    simpa using hne

theorem exists_ok_of_wellFormed {source : String} {rs : List Record}
    (h : WellFormed k (headerFields rs) (rs.tail.map Record.fields) names) :
    ∃ t, ofRecords k source rs = .ok t := by
  cases hx : ofRecords k source rs with
  | ok t => exact ⟨t, rfl⟩
  | error e =>
    exfalso
    rcases exists_fault_of_ofRecords hx with ⟨fault, hf, -⟩ | ⟨names', r, fault, hf, -⟩
    · exact hf.not_named h.named h.complete
    · obtain ⟨before, after, ht, -⟩ := hf.first
      have hr : r ∈ rs.tail := by simp [ht]
      rw [hf.named.unique h.named] at hf
      exact hf.not_fits (h.row hr)

/-- The fields of a row below the names: text, and the row's number in each column of the kind. -/
structure Bears (k : LogKind) (names : List String) (fields : List (List UInt8))
    (v : String → Int64) : Prop where
  length_eq : fields.length = names.length
  text : ∀ f ∈ fields, ∃ s, f = Text.encode s
  number : ∀ c f, (c, f) ∈ names.zip fields → c ∈ k.columns → HoldsNumber f (v c)

theorem Bears.fits {fields : List (List UInt8)} {v : String → Int64} (h : Bears k names fields v) :
    Fits k names fields := ⟨h.length_eq, h.text, fun c f hm hc => ⟨v c, h.number c f hm hc⟩⟩

theorem Bears.values_eq {v : String → Int64} {w : Row} (h : Bears k names r.fields v)
    (hw : row k names r = .ok w) {c : String} (hc : c ∈ k.columns) (hn : c ∈ names) :
    values w c = v c := by
  obtain ⟨f, hm, hf⟩ := holdsNumber_values hw hc hn
  exact hf.unique (h.number c f hm hc)

theorem tabulate_congr {vs ws : List (String → Int64)}
    (h : List.Forall₂ (fun v w => ∀ c ∈ k.columns, v c = w c) vs ws) :
    k.tabulate vs = k.tabulate ws := by
  refine Table.ext_columns (t := k.tabulate vs) rfl h.length_eq ?_
  apply List.map_congr_left
  intro c hc
  have hv : vs.map (· c) = ws.map (· c) := by
    rw [← List.forall₂_eq_eq_eq, List.forall₂_map_left_iff, List.forall₂_map_right_iff]
    exact h.imp fun v w hvw => hvw c hc
  rw [hv]

theorem ofRecords_eq_tabulate {source : String} {rs : List Record} {vs : List (String → Int64)}
    {fields : List (List UInt8)} {data : List (List (List UInt8))}
    (hr : rs.map Record.fields = fields :: data) (hn : Named fields names)
    (hc : ∀ c ∈ k.columns, names.count c = 1) (h : List.Forall₂ (Bears k names) data vs) :
    ofRecords k source rs = .ok (k.tabulate vs) := by
  obtain ⟨r, rs, rfl, rfl, rfl⟩ := List.map_eq_cons_iff.1 hr
  have hm : ∀ c ∈ k.columns, c ∈ names := fun c hk => List.count_pos_iff.1 (by rw [hc c hk]; decide)
  have hw : WellFormed k (headerFields (r :: rs)) (rs.map Record.fields) names := by
    refine ⟨hn, hm, ?_, fun _ c hk => (hc c hk).le⟩
    intro fields hf
    obtain ⟨v, -, hv⟩ := Aligned.exists_right_of_mem h hf
    exact hv.fits
  obtain ⟨t, ht⟩ : ∃ t, ofRecords k source (r :: rs) = .ok t := exists_ok_of_wellFormed hw
  obtain ⟨names', rows, hn', -, hrows, rfl⟩ := exists_rows_of_ofRecords ht
  rw [hn.unique (header_eq_ok_iff.1 hn')] at hm h
  rw [List.forall₂_map_left_iff] at h
  rw [ht]
  refine congrArg _ (tabulate_congr ?_)
  rw [List.forall₂_map_left_iff]
  exact Aligned.join hrows h fun hrow hb c hk => hb.values_eq hrow hk (hm c hk)

end

theorem ofBytes_accepts_exactly (k : LogKind) (source : String) (text : List UInt8) :
    ((∃ t, ofBytes k source text = .ok t) ↔ ∃ names, WellFormed k (headerFields (records text))
      ((records text).tail.map Record.fields) names) ∧
    (∀ t names, ofBytes k source text = .ok t → Named (headerFields (records text)) names →
      Tabulates k names ((records text).tail.map Record.fields) t) ∧
    ∀ e, ofBytes k source text = .error e →
      (∃ fault, HeaderFault k (records text) fault ∧ e = .malformed source 1 fault) ∨
      ∃ names r fault, FirstFault k names (records text) r fault ∧
        e = .malformed source r.start.line fault := by
  refine ⟨⟨?_, ?_⟩, ?_, ?_⟩
  · rintro ⟨t, h⟩
    obtain ⟨names, rows, hn, hm, hr, -⟩ := exists_rows_of_ofRecords h
    exact ⟨names, wellFormed_of_rows hn hm hr⟩
  · rintro ⟨names, h⟩
    exact exists_ok_of_wellFormed h
  · intro t names h hn
    obtain ⟨names', rows, hn', hm, hr, rfl⟩ := exists_rows_of_ofRecords h
    rw [hn.unique (header_eq_ok_iff.1 hn')]
    exact tabulates_tabulate (missingColumns_eq_nil_iff.1 hm) hr
  · intro e h
    exact exists_fault_of_ofRecords h

end LatencyDigest.Log
