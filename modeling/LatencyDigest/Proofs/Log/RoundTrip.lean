import LatencyDigest.Log.Export
import LatencyDigest.Proofs.Log.Layout
import LatencyDigest.Proofs.Log.Normalized

/-! A table that was written out is loaded again with the columns of its kind, and a table that was
loaded comes back as it was. -/

namespace LatencyDigest

open Delimited (Line Lines dropMark dropMarkChar markChar contents newline writeRecord)

/-- A table with the columns of a kind in it, and no other whose name can be taken for one of
them. -/
structure Table.Exportable (k : LogKind) (t : Table) : Prop where
  schema : ∀ c ∈ k.columns, ∃ vs, ⟨c, .integers vs⟩ ∈ t.columns
  foreign : ∀ c ∈ t.columns, c.name ∉ k.columns →
    String.ofList (Text.trim (dropMarkChar c.name.toList)) ∉ k.columns

/-- The numbers in a row by the names of their columns. -/
def Table.numbers (t : Table) (i : Nat) (c : String) : Int64 :=
  match Column.find? c t.columns with
  | some (.integers vs) => vs.getD i 0
  | _ => 0

namespace Table

variable {k : LogKind} {t : Table}

def cell (i : Nat) (c : Column) : List UInt8 := Text.encode (c.data.texts.getD i [])

theorem records_eq (t : Table) :
    t.records = (List.range t.rows).map fun i => t.columns.map (cell i) := by
  simp [records, cell]

theorem exported_eq (t : Table) : t.exported = (t.header :: t.records).flatMap writeRecord := rfl

theorem ne_nil_of_mem_records (h : t.columns ≠ []) : ∀ r ∈ t.records, r ≠ [] := by
  rw [records_eq]
  intro r hr
  obtain ⟨i, -, rfl⟩ := List.mem_map.1 hr
  simpa using h

theorem length_of_mem {c : String} {vs : List Int64} (h : ⟨c, .integers vs⟩ ∈ t.columns) :
    vs.length = t.rows := t.length_eq _ h

theorem numbers_of_mem {c : String} {vs : List Int64} (h : ⟨c, .integers vs⟩ ∈ t.columns)
    (i : Nat) : t.numbers i c = vs.getD i 0 := by
  rw [numbers, (Column.find?_eq_some_iff t.nodup).2 h]

theorem map_numbers {c : String} {vs : List Int64} (h : ⟨c, .integers vs⟩ ∈ t.columns) :
    ((List.range t.rows).map t.numbers).map (· c) = vs := by
  apply List.ext_getElem
  · simp [length_of_mem h]
  · intro i hi hv
    simp [numbers_of_mem h, List.getD_eq_getElem?_getD, hv]

namespace Exportable

/-- Whether the mark in front of it is dropped or not, a name is read as a column of the kind only
if it is that column. -/
theorem title_eq_iff (h : t.Exportable k) {col : Column} (hm : col ∈ t.columns) {s : List Char}
    (hs : s = col.name.toList ∨ s = dropMarkChar col.name.toList) {c : String}
    (hc : c ∈ k.columns) : String.ofList (Text.trim s) = c ↔ col.name = c := by
  by_cases hk : col.name ∈ k.columns
  · have hself : dropMarkChar col.name.toList = col.name.toList :=
      Delimited.dropMarkChar_of_head (LogKind.head_of_mem_columns hk).2
    rw [hself, or_self] at hs
    rw [hs, LogKind.trim_of_mem_columns hk, String.ofList_toList]
  · have hn : col.name ≠ c := fun he => hk (he ▸ hc)
    have hf := h.foreign col hm hk
    refine iff_of_false ?_ hn
    rintro rfl
    rcases hs with rfl | rfl
    · by_cases hh : col.name.toList.head? = some markChar
      · apply (LogKind.head_of_mem_columns hc).2
        rw [String.toList_ofList, Delimited.head_trim_of_head hh]
      · rw [Delimited.dropMarkChar_of_head hh] at hf
        exact hf hc
    · exact hf hc

theorem columns_ne_nil (h : t.Exportable k) : t.columns ≠ [] := by
  obtain ⟨c, hc⟩ := k.exists_mem_columns
  obtain ⟨vs, hv⟩ := h.schema c hc
  exact List.ne_nil_of_mem hv

/-- A header with a column of the kind takes up its line. -/
theorem ne_nil_of_line (h : t.Exportable k) {col : Column} {cols : List Column} {s : List Char}
    {l : List UInt8} (hcols : t.columns = col :: cols)
    (hs : s = col.name.toList ∨ s = dropMarkChar col.name.toList)
    (hl : Line (Text.encode s :: (cols.map fun c => c.name.toList).map Text.encode) l) :
    l ≠ [] := by
  intro hn
  have he := hl.eq_of_nil hn
  simp only [List.cons.injEq, List.map_eq_nil_iff] at he
  obtain ⟨c, hc⟩ := k.exists_mem_columns
  obtain ⟨vs, hv⟩ := h.schema c hc
  rw [hcols, he.2, List.mem_singleton] at hv
  have hname : col.name = c := by rw [← hv]
  apply (LogKind.head_of_mem_columns hc).1
  rw [← (h.title_eq_iff (hcols ▸ List.mem_cons_self) hs hc).2 hname,
    Text.encode_injective (he.1.trans Text.encode_nil.symm)]
  rfl

/-- The text of a table holds a header and the records, but for a mark in front of the first
name. -/
theorem exists_contents (h : t.Exportable k) : ∃ col cols s, t.columns = col :: cols ∧
    (s = col.name.toList ∨ s = dropMarkChar col.name.toList) ∧ contents (dropMark t.exported) =
      (s :: cols.map fun c => c.name.toList).map Text.encode :: t.records := by
  obtain ⟨col, cols, hcols⟩ := List.exists_cons_of_ne_nil h.columns_ne_nil
  have hheader : t.header = Text.encode col.name.toList ::
      (cols.map fun c => c.name.toList).map Text.encode := by
    rw [header, hcols, List.map_map]
    rfl
  obtain ⟨l, hl, -, hw⟩ : ∃ l, Line t.header l ∧ l ≠ [] ∧ writeRecord t.header = l ++ [newline] :=
    Delimited.exists_line_writeRecord (by simp [hheader])
  have hx : t.exported = l ++ newline :: t.records.flatMap writeRecord := by
    rw [exported_eq, List.flatMap_cons, hw, List.append_assoc]
    rfl
  rw [hheader] at hl
  obtain ⟨s, m, hd, hm, hs⟩ :=
    hl.exists_dropMark (r := newline :: t.records.flatMap writeRecord)
      (by rw [List.head?_cons]; decide)
  refine ⟨col, cols, s, hcols, hs, ?_⟩
  rw [hx, hd]
  have hr := Delimited.lines_writeRecords (ne_nil_of_mem_records h.columns_ne_nil)
  exact Delimited.contents_lines (.line hm (h.ne_nil_of_line hcols hs hm) rfl hr)

theorem forall₂_titles (h : t.Exportable k) {col : Column} {cols : List Column} {s : List Char}
    (hcols : t.columns = col :: cols)
    (hs : s = col.name.toList ∨ s = dropMarkChar col.name.toList) :
    List.Forall₂ (fun col n => ∀ c ∈ k.columns, n = c ↔ col.name = c) t.columns
      (Log.titles (s :: cols.map fun c => c.name.toList)) := by
  have hmem : ∀ c ∈ col :: cols, c ∈ t.columns := fun c hc => hcols ▸ hc
  rw [hcols, Log.titles, List.map_cons, List.map_map]
  refine .cons (fun c hc => h.title_eq_iff (hmem _ List.mem_cons_self) hs hc) ?_
  rw [List.forall₂_map_right_iff, List.forall₂_same]
  exact fun d hd c hc => h.title_eq_iff (hmem d (List.mem_cons_of_mem col hd)) (.inl rfl) hc

theorem cell_eq (h : t.Exportable k) {col : Column} (hm : col ∈ t.columns)
    (hc : col.name ∈ k.columns) {i : Nat} (hi : i < t.rows) :
    cell i col = Text.encode (Integer.chars (t.numbers i col.name)) := by
  obtain ⟨vs, hv⟩ := h.schema _ hc
  have hcol := List.inj_on_of_nodup_map t.nodup hm hv rfl
  rw [← length_of_mem hv] at hi
  rw [numbers_of_mem hv, cell, hcol, Series.texts]
  simp [List.getD_eq_getElem?_getD, hi]

theorem bears (h : t.Exportable k) {names : List String}
    (hn : List.Forall₂ (fun col n => ∀ c ∈ k.columns, n = c ↔ col.name = c) t.columns names)
    {i : Nat} (hi : i < t.rows) : Log.Bears k names (t.columns.map (cell i)) (t.numbers i) := by
  refine ⟨?_, ?_, ?_⟩
  · rw [List.length_map, hn.length_eq]
  · intro f hf
    obtain ⟨c, -, rfl⟩ := List.mem_map.1 hf
    exact ⟨_, rfl⟩
  · intro c f hf hc
    have hcells : List.Forall₂ (fun col f => col ∈ t.columns ∧ f = cell i col) t.columns
        (t.columns.map (cell i)) := by
      rw [List.forall₂_map_right_iff, List.forall₂_same]
      exact fun col hm => ⟨hm, rfl⟩
    have hz : List.Forall₂ (fun n f => ∃ col ∈ t.columns, (∀ c ∈ k.columns, n = c ↔ col.name = c) ∧
        f = cell i col) names (t.columns.map (cell i)) :=
      Aligned.join hn hcells fun hr hf => ⟨_, hf.1, hr, hf.2⟩
    obtain ⟨col, hm, hr, rfl⟩ := List.forall₂_zip hz hf
    obtain rfl := (hr c hc).1 rfl
    rw [h.cell_eq hm hc hi]
    exact ⟨_, ⟨_, rfl, (Integer.trim_chars _).symm⟩, Integer.read_chars _⟩

theorem ofBytes_eq_tabulate (h : t.Exportable k) (source : String) :
    Log.ofBytes k source t.exported = .ok (k.tabulate ((List.range t.rows).map t.numbers)) := by
  obtain ⟨col, cols, s, hcols, hs, hx⟩ := h.exists_contents
  have hn := h.forall₂_titles hcols hs
  rw [← Delimited.map_fields_records] at hx
  have hnamed : Log.Named ((s :: cols.map fun c => c.name.toList).map Text.encode)
      (Log.titles (s :: cols.map fun c => c.name.toList)) := by
    apply Log.named_titles
    rw [List.forall₂_map_right_iff, List.forall₂_same]
    exact fun u _ => ⟨[], [], by simp, by simp, by simp⟩
  refine Log.ofRecords_eq_tabulate hx hnamed ?_ ?_
  · intro c hc
    obtain ⟨vs, hv⟩ := h.schema c hc
    rw [Aligned.count_eq hn fun hr => hr c hc]
    exact List.count_eq_one_of_mem t.nodup (List.mem_map_of_mem hv)
  · rw [records_eq, List.forall₂_map_left_iff, List.forall₂_map_right_iff, List.forall₂_same]
    exact fun i hi => h.bears hn (List.mem_range.1 hi)

end Exportable

theorem Grows.mem_of_tabulate {rows : List (String → Int64)} {v : Table} {names : List String}
    (h : Grows (k.tabulate rows) v names) (hn : names ⊆ k.conversions.map Prod.snd) {c : String}
    (hc : c ∈ k.columns) : ⟨c, .integers (rows.map (· c))⟩ ∈ v.columns := by
  apply h.retains _ (mem_tabulate hc)
  intro hm
  exact (LogKind.foreign_of_mem_conversions (hn hm)).1 hc

theorem Grows.exportable {rows : List (String → Int64)} {v : Table} {names : List String}
    (h : Grows (k.tabulate rows) v names) (hn : names ⊆ k.conversions.map Prod.snd) :
    v.Exportable k := by
  refine ⟨fun c hc => ⟨_, h.mem_of_tabulate hn hc⟩, ?_⟩
  intro c hm hc
  rcases h.introduced c hm with ht | hd
  · have hname := List.mem_map_of_mem (f := Column.name) ht
    rw [← columnNames, columnNames_tabulate] at hname
    exact absurd hname hc
  · exact (LogKind.foreign_of_mem_conversions (hn hd)).2

theorem ofBytes_of_grows {rows : List (String → Int64)} {v : Table} {names : List String}
    (h : Grows (k.tabulate rows) v names) (hn : names ⊆ k.conversions.map Prod.snd)
    (source : String) : Log.ofBytes k source v.exported = .ok (k.tabulate rows) := by
  rw [(h.exportable hn).ofBytes_eq_tabulate]
  refine congrArg _ (ext_columns (t := k.tabulate _) rfl ?_ ?_)
  · simpa [LogKind.tabulate] using h.rows
  · apply List.map_congr_left
    intro c hc
    rw [map_numbers (h.mem_of_tabulate hn hc)]

end Table

theorem Log.ofBytes_exported (k : LogKind) (source : String) :
    (∀ t : Table, t.Exportable k → ∃ u, ofBytes k source t.exported = .ok u ∧
      u.name = k.tableName ∧ u.rows = t.rows ∧ u.columnNames = k.columns ∧
        ∀ c ∈ u.columns, c ∈ t.columns) ∧
    ∀ origin text t, ofBytes k origin text = .ok t → ∃ v, t.normalizeLog k = (v, none) ∧
      ∃ u, ofBytes k source v.exported = .ok u ∧ u.normalizeLog k = (v, none) ∧
        (u.normalizeLog k).1.exported = v.exported := by
  constructor
  · intro t h
    refine ⟨_, h.ofBytes_eq_tabulate source, rfl, ?_, Table.columnNames_tabulate _ _, ?_⟩
    · simp [LogKind.tabulate]
    · intro c hc
      obtain ⟨n, hn, rfl⟩ := List.mem_map.1 hc
      obtain ⟨vs, hv⟩ := h.schema n hn
      rwa [Table.map_numbers hv]
  · intro origin text t h
    obtain ⟨names, rows, -, -, -, rfl⟩ := exists_rows_of_ofRecords h
    obtain ⟨v, derived, hv, hd, hg⟩ := Table.normalizeLog_tabulate k (rows.map values)
    exact ⟨v, hv, _, Table.ofBytes_of_grows hg hd source, hv, by rw [hv]⟩

/-- A table with the extreme numbers, and with columns before and after them whose names need
quotes. -/
def Table.extremes : Table where
  name := "any"
  rows := 2
  columns := [⟨"one,\n\"two\"", .floats [.ofNat 0, .ofNat 1]⟩,
    ⟨"target_parsed_to_tcp_sent_ns", .integers [Int64.minValue, Int64.maxValue]⟩,
    ⟨"", .integers [1, 2]⟩]
  length_eq := by decide
  nodup := by decide

theorem Log.ofBytes_exported_extremes : Table.extremes.Exportable .response ∧
    ∃ u, ofBytes .response "input" Table.extremes.exported = .ok u ∧
      u.name = LogKind.response.tableName ∧ u.rows = Table.extremes.rows ∧
        u.columnNames = LogKind.response.columns ∧ ∀ c ∈ u.columns, c ∈ Table.extremes.columns := by
  have h : Table.extremes.Exportable .response := by
    refine ⟨?_, by decide +kernel⟩
    intro c hc
    obtain rfl := List.mem_singleton.1 hc
    exact ⟨_, List.mem_cons_of_mem _ List.mem_cons_self⟩
  exact ⟨h, (ofBytes_exported .response "input").1 _ h⟩

end LatencyDigest
