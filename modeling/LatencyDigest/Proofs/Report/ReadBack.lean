import LatencyDigest.Decimal.Numeral
import LatencyDigest.Proofs.Decimal.ReadBack
import LatencyDigest.Proofs.Report.Rendering
import LatencyDigest.Proofs.Statistics.Figures
import LatencyDigest.Proofs.Text.Grid

/-! The tables of a report are read back cell by cell. No cell that a table is made of has a tab or
a newline in it, as long as the labels and the names that it was given have none. -/

namespace LatencyDigest

namespace Text

def number? (cell : String) : Option Nat := Decimal.wholeNumber? cell.toList

theorem isCell_of_forall {s : String} (h : ∀ c ∈ s.toList, c.isDigit ∨
    c ∈ ['-', '.', 'i', 'n', 'f', 'N', 'a']) : IsCell s := by
  constructor <;>
  · intro hm
    rcases h _ hm with hc | hc
    · exact absurd hc (by decide)
    · exact absurd hc (by decide)

theorem isCell_toString (n : Nat) : IsCell (toString n) := by
  refine isCell_of_forall fun c hc => .inl ?_
  rw [Nat.toString_eq_repr, Nat.toList_repr] at hc
  exact Nat.isDigit_of_mem_toDigits (by decide) (by decide) hc

theorem number?_toString (n : Nat) : number? (toString n) = some n := by
  have hdigits : (Nat.toDigits 10 n).all Char.isDigit :=
    List.all_eq_true.2 fun c hc => Nat.isDigit_of_mem_toDigits (by decide) (by decide) hc
  rw [number?, Nat.toString_eq_repr, Nat.toList_repr, Decimal.wholeNumber?,
    if_pos ⟨Nat.toDigits_ne_nil, hdigits⟩, Nat.ofDigitChars_ten_toDigits]

theorem isCell_fixedText (places : Nat) (x : Binary64) : IsCell (x.fixedText places) := by
  refine isCell_of_forall fun c hc => ?_
  rw [Binary64.fixedText, String.toList_ofList] at hc
  exact Binary64.isDigit_or_mem_of_mem_fixedChars hc

end Text

open Text

namespace Metric

def ofName? (name : String) : Option Metric := all.find? fun m => m.name = name

theorem ofName?_name (m : Metric) : ofName? m.name = some m := by
  cases m <;> decide

theorem isCell_name (m : Metric) : IsCell m.name := by
  cases m <;> decide

end Metric

namespace Distribution

variable {d : Distribution}

/-- The counts beyond the last label are in no line. -/
def used (d : Distribution) : Distribution where
  labels := d.labels
  counts := d.counts.map fun c => (c.1, c.2.take d.labels.length)

/-- A table as a distribution: the labels stand in the first column, and each further column has its
metric at the top and the counts of that metric below. -/
def read? (text : String) : Option Distribution :=
  match (grid text).dropLast with
  | (_ :: names) :: body => do
    let counts ← names.zipIdx.mapM fun (name, j) => do
      return (← Metric.ofName? name, ← body.mapM fun row => do number? (← row[j + 1]?))
    return ⟨body.map fun row => row.headD "", counts⟩
  | _ => none

theorem grid_rows (h : ∀ l ∈ d.labels, IsCell l) :
    grid (String.join (d.rows.map Text.row)) = d.rows ++ [[""]] := by
  refine grid_join_rows ?_ ?_
  · rw [rows, List.forall_mem_cons, List.forall_mem_map]
    exact ⟨List.cons_ne_nil _ _, fun p _ => List.cons_ne_nil _ _⟩
  · rw [rows, List.forall_mem_cons]
    constructor
    · simp only [List.forall_mem_cons, List.forall_mem_map]
      exact ⟨by decide, fun c _ => c.1.isCell_name⟩
    · intro r hr
      obtain ⟨p, hp, rfl⟩ := List.mem_map.1 hr
      simp only [cells, List.forall_mem_cons, List.forall_mem_map]
      exact ⟨h p.1 (List.fst_mem_of_mem_zipIdx hp), fun c _ => isCell_toString _⟩

theorem map_getD_zipIdx {labels : List String} {ns : List Nat} (h : labels.length ≤ ns.length) :
    (labels.zipIdx.map fun p => ns.getD p.2 0) = ns.take labels.length := by
  refine List.ext_getElem (by simpa using h) fun i hi _ => ?_
  simp only [List.length_map, List.length_zipIdx] at hi
  simp [List.getD_eq_getElem?_getD, List.getElem?_eq_getElem (Nat.lt_of_lt_of_le hi h)]

theorem text_of_render? {text : String} (h : d.render? = some text) :
    text = String.join (d.rows.map Text.row) ∧ ∀ c ∈ d.counts, d.labels.length ≤ c.2.length := by
  have hlength : ∀ c ∈ d.counts, d.labels.length ≤ c.2.length := fun c hc =>
    Nat.le_of_not_lt fun hlt => by simp [render?_eq_none_iff.2 ⟨c, hc, hlt⟩] at h
  rw [render?_eq hlength] at h
  exact ⟨(Option.some.inj h).symm, hlength⟩

/-- The numbers below a metric are its counts, one for each label. -/
theorem mapM_number?_column {c : Metric × List Nat} {j : Nat} (hc : d.counts[j]? = some c)
    (h : d.labels.length ≤ c.2.length) :
    ((d.labels.zipIdx.map fun p => d.cells p.1 p.2).mapM fun row => do number? (← row[j + 1]?)) =
      some (c.2.take d.labels.length) := by
  rw [List.mapM_map, ← map_getD_zipIdx h]
  refine Outcome.mapM_eq_some_map fun p _ => ?_
  have hcell : (d.cells p.1 p.2)[j + 1]? = some (toString (c.2.getD p.2 0)) := by
    rw [cells, List.getElem?_cons_succ, List.getElem?_map, hc, Option.map_some]
  simp only [Function.comp_apply, hcell]
  exact number?_toString _

theorem read?_render {text : String} (h : ∀ l ∈ d.labels, IsCell l)
    (ht : d.render? = some text) : read? text = some d.used := by
  obtain ⟨rfl, hlength⟩ := text_of_render? ht
  have hcounts : ((d.counts.map fun c => c.1.name).zipIdx.mapM fun (name, j) => do
      return (← Metric.ofName? name, ← (d.labels.zipIdx.map fun p => d.cells p.1 p.2).mapM
        fun row => do number? (← row[j + 1]?))) = some d.used.counts := by
    have hused : d.used.counts = d.counts.zipIdx.map fun p =>
        (p.1.1, p.1.2.take d.labels.length) := by
      conv => lhs; rw [used, ← List.zipIdx_map_fst 0 d.counts, List.map_map]
      rfl
    rw [hused, List.zipIdx_map, List.mapM_map]
    refine Outcome.mapM_eq_some_map fun p hp => ?_
    have hget := List.mem_zipIdx_iff_getElem?.1 hp
    simp only [Function.comp_apply, Prod.map, id, Metric.ofName?_name,
      mapM_number?_column hget (hlength p.1 (List.mem_of_getElem? hget))]
    rfl
  have hlabels : (d.labels.zipIdx.map fun p => d.cells p.1 p.2).map (fun row => row.headD "") =
      d.labels := by
    rw [List.map_map]
    exact List.zipIdx_map_fst 0 d.labels
  rw [read?, grid_rows h, List.dropLast_concat, rows]
  simp only [hcounts, hlabels]
  rfl

end Distribution

namespace Summary

variable {summaries : List (String × Summary)}

def rows (summaries : List (String × Summary)) : List (List String) :=
  ("Stat" :: summaries.map (·.1)) :: ("count" :: summaries.map fun s => toString s.2.count) ::
    figures.map fun (label, figure) => label :: summaries.map fun s => (figure s.2).fixedText 3

/-- The cells of one summary, below its name. -/
def cells (name : String) (s : Summary) : List String :=
  name :: toString s.count :: s.values.map (Binary64.fixedText 3)

theorem render_eq (summaries : List (String × Summary)) :
    render summaries = String.join ((rows summaries).map Text.row) := by
  rw [render, rows, List.map_cons, List.map_cons, String.join_cons, String.join_cons,
    List.map_map, String.append_assoc]
  rfl

theorem grid_rows (h : ∀ s ∈ summaries, IsCell s.1) :
    grid (render summaries) = rows summaries ++ [[""]] := by
  have hlabels : ∀ f ∈ figures, IsCell f.1 := by decide
  rw [render_eq]
  refine grid_join_rows ?_ ?_
  · simp only [rows, List.forall_mem_cons, List.forall_mem_map]
    exact ⟨List.cons_ne_nil _ _, List.cons_ne_nil _ _, fun f _ => List.cons_ne_nil _ _⟩
  · simp only [rows, List.forall_mem_cons, List.forall_mem_map]
    exact ⟨⟨by decide, h⟩, ⟨by decide, fun s _ => isCell_toString _⟩,
      fun f hf => ⟨hlabels f hf, fun s _ => isCell_fixedText 3 _⟩⟩

theorem column_zero_rows (summaries : List (String × Summary)) :
    column 0 (rows summaries) = ("Stat" :: "count" :: figures.map (·.1)).map some := rfl

theorem column_succ_rows {j : Nat} {s : String × Summary} (h : summaries[j]? = some s) :
    column (j + 1) (rows summaries) = (cells s.1 s.2).map some := by
  simp [column, rows, cells, values, h, Function.comp_def]

end Summary

/-- Each line of a table is cut into its cells again, and what was counted is read from them. -/
theorem tables_read_back :
    (∀ d : Distribution,
      (d.render? = none ↔ ∃ c ∈ d.counts, c.2.length < d.labels.length) ∧
      ((∀ l ∈ d.labels, IsCell l) → ∀ text, d.render? = some text →
        grid text = d.rows ++ [[""]] ∧ Distribution.read? text = some d.used)) ∧
    ∀ summaries : List (String × Summary), (∀ s ∈ summaries, IsCell s.1) →
      ∃ rows, grid (Summary.render summaries) = rows ++ [[""]] ∧ rows.length = 9 ∧
        (∀ row ∈ rows, row.length = 1 + summaries.length) ∧
        rows[0]? = some ("Stat" :: summaries.map (·.1)) ∧
        (∃ counts, rows[1]? = some ("count" :: counts) ∧
          counts.map number? = summaries.map fun s => some s.2.count) ∧
        column 0 rows = ("Stat" :: "count" :: Summary.figures.map (·.1)).map some ∧
        ∀ j s, summaries[j]? = some s → column (j + 1) rows = (Summary.cells s.1 s.2).map some := by
  refine ⟨fun d => ⟨d.render?_eq_none_iff, fun h text ht => ?_⟩, fun summaries h => ?_⟩
  · obtain ⟨htext, -⟩ := Distribution.text_of_render? ht
    exact ⟨htext ▸ Distribution.grid_rows h, Distribution.read?_render h ht⟩
  · refine ⟨Summary.rows summaries, Summary.grid_rows h, rfl, ?_, rfl, ⟨_, rfl, ?_⟩,
      Summary.column_zero_rows summaries, fun j s => Summary.column_succ_rows⟩
    · simp [Summary.rows, Summary.figures, Nat.add_comm]
    · simp only [List.map_map, Function.comp_def, number?_toString]

/-- Counts beyond the last label, a missing count, and columns of figures that differ, of which one
has no numbers. -/
theorem tables_read_back_uneven :
    let d : Distribution :=
      ⟨["≤ 100us", "> 100us"], [(.queue, [3, 0, 7]), (.response, [12, 100])]⟩
    let short : Distribution := ⟨["≤ 100us", "> 100us"], [(.queue, [3, 0]), (.response, [12])]⟩
    let summaries : List (String × Summary) :=
      [("Size (B)", .ofSample ⟨[.ofInt (-1), .ofNat 3], by decide +kernel⟩),
        ("", .ofSample ⟨[.ofNat 250], by decide +kernel⟩), ("none", .ofSample ⟨[], .nil⟩)]
    (∃ text, d.render? = some text ∧ grid text = [["Range", "Queue duration", "TCP response"],
        ["≤ 100us", "3", "12"], ["> 100us", "0", "100"], [""]] ∧
      Distribution.read? text =
        some ⟨["≤ 100us", "> 100us"], [(.queue, [3, 0]), (.response, [12, 100])]⟩) ∧
    short.render? = none ∧
    ∃ rows, grid (Summary.render summaries) = rows ++ [[""]] ∧ rows.length = 9 ∧
      rows[0]? = some ["Stat", "Size (B)", "", "none"] ∧
      column 1 rows = ["Size (B)", "2", "1.000", "2.828", "-1.000", "0.000", "1.000", "2.000",
        "3.000"].map some ∧
      column 2 rows = ["", "1", "250.000", "0.000", "250.000", "250.000", "250.000", "250.000",
        "250.000"].map some ∧
      column 3 rows = ["none", "0", "NaN", "0.000", "NaN", "NaN", "NaN", "NaN",
        "NaN"].map some := by
  intro d short summaries
  obtain ⟨hdistribution, hsummaries⟩ := tables_read_back
  refine ⟨?_, (hdistribution short).1.2 ⟨(.response, [12]), by decide, by decide⟩, ?_⟩
  · obtain ⟨hnone, hread⟩ := hdistribution d
    obtain ⟨text, ht⟩ := Option.ne_none_iff_exists'.1 fun h => absurd (hnone.1 h) (by decide)
    obtain ⟨hgrid, hused⟩ := hread (by decide) text ht
    exact ⟨text, ht, hgrid, hused⟩
  · obtain ⟨rows, hgrid, hlength, -, hhead, -, -, hcolumn⟩ := hsummaries summaries (by decide)
    refine ⟨rows, hgrid, hlength, hhead, ?_, ?_, ?_⟩
    · exact (hcolumn 0 _ rfl).trans (by decide +kernel)
    · exact (hcolumn 1 _ rfl).trans (by decide +kernel)
    · exact (hcolumn 2 _ rfl).trans (by decide +kernel)

end LatencyDigest
