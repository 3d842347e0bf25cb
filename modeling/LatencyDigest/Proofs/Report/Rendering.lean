import LatencyDigest.Proofs.Ranges.Buckets
import LatencyDigest.Proofs.Report.Build

/-! A distribution can be rendered just when each metric has a count for every label. A report has
them, whatever the ranges. -/

namespace LatencyDigest

namespace Distribution

variable {d : Distribution}

/-- The line of the label at an index as cells. -/
def cells (d : Distribution) (label : String) (i : Nat) : List String :=
  label :: d.counts.map fun c => toString (c.2.getD i 0)

def rows (d : Distribution) : List (List String) :=
  ("Range" :: d.counts.map fun c => c.1.name) ::
    d.labels.zipIdx.map fun p => d.cells p.1 p.2

theorem line?_eq {i : Nat} (label : String) (h : ∀ c ∈ d.counts, i < c.2.length) :
    d.line? label i = some (Text.row (d.cells label i)) := by
  have hcells : (d.counts.mapM fun c => c.2[i]?) = some (d.counts.map fun c => c.2.getD i 0) := by
    refine Outcome.mapM_eq_some_map fun c hc => ?_
    rw [List.getD_eq_getElem?_getD, List.getElem?_eq_getElem (h c hc), Option.getD_some]
  change ((d.counts.mapM fun c => c.2[i]?) >>= _) = _
  rw [hcells, cells]
  simp [List.map_map, Function.comp_def]

theorem lt_length_of_line? {label line : String} {i : Nat} (h : d.line? label i = some line) :
    ∀ c ∈ d.counts, i < c.2.length := by
  intro c hc
  obtain ⟨ns, hns, -⟩ := Option.bind_eq_some_iff.1 h
  obtain ⟨n, hn⟩ := Outcome.exists_of_mapM_eq_some hns c hc
  exact (List.getElem?_eq_some_iff.1 hn).1

theorem lines?_eq (labels : List String) {i : Nat}
    (h : ∀ c ∈ d.counts, i + labels.length ≤ c.2.length) :
    d.lines? labels i = some ((labels.zipIdx i).map fun p => Text.row (d.cells p.1 p.2)) := by
  induction labels generalizing i with
  | nil => rfl
  | cons label labels ih =>
    simp only [List.length_cons] at h
    have hline := d.line?_eq (i := i) label fun c hc => by
      have := h c hc
      omega
    have hlines := ih (i := i + 1) fun c hc => by
      have := h c hc
      omega
    rw [lines?, hline, hlines]
    rfl

/-- A count is looked up for every label, so none of them may be missing. -/
theorem lt_length_of_lines? {labels lines : List String} {i k : Nat}
    (h : d.lines? labels i = some lines) (hk : k < labels.length) :
    ∀ c ∈ d.counts, i + k < c.2.length := by
  induction labels generalizing i k lines with
  | nil => simp at hk
  | cons label labels ih =>
    obtain ⟨line, hline, h⟩ := Option.bind_eq_some_iff.1 h
    obtain ⟨rest, hrest, -⟩ := Option.bind_eq_some_iff.1 h
    cases k with
    | zero => exact lt_length_of_line? hline
    | succ k =>
      intro c hc
      have := ih hrest (Nat.lt_of_succ_lt_succ hk) c hc
      omega

theorem render?_eq (h : ∀ c ∈ d.counts, d.labels.length ≤ c.2.length) :
    d.render? = some (String.join (d.rows.map Text.row)) := by
  have hlines := d.lines?_eq d.labels (i := 0) fun c hc => by
    rw [Nat.zero_add]
    exact h c hc
  rw [render?, hlines, rows, List.map_cons, String.join_cons, List.map_map]
  rfl

theorem render?_eq_none_iff :
    d.render? = none ↔ ∃ c ∈ d.counts, c.2.length < d.labels.length := by
  constructor
  · intro h
    refine Classical.byContradiction fun hno => ?_
    have hrender := d.render?_eq fun c hc => Nat.le_of_not_lt fun hlt => hno ⟨c, hc, hlt⟩
    rw [h] at hrender
    cases hrender
  · rintro ⟨c, hc, hlt⟩
    cases hlines : d.lines? d.labels 0 with
    | none =>
      rw [render?, hlines]
      rfl
    | some lines =>
      have := lt_length_of_lines? hlines hlt c hc
      omega

theorem exists_render? (h : ∀ c ∈ d.counts, d.labels.length ≤ c.2.length) :
    ∃ text, d.render? = some text :=
  ⟨_, render?_eq h⟩

theorem length_of_mem_ofSamples {ranges : Ranges} {samples : List (Metric × Sample)}
    {c : Metric × List Nat} (h : c ∈ (ofSamples ranges samples).counts) :
    c.2.length = ranges.bucketCount := by
  obtain ⟨p, -, rfl⟩ := List.mem_map.1 h
  exact Ranges.length_count _ _

theorem exists_render?_ofSamples (ranges : Ranges) (samples : List (Metric × Sample)) :
    ∃ text, (ofSamples ranges samples).render? = some text := by
  refine exists_render? fun c hc => ?_
  rw [length_of_mem_ofSamples hc]
  exact ranges.length_labels_le

end Distribution

theorem Report.exists_render? (sample : Metric → Sample) (packets responses : Nat)
    (ranges : Ranges) :
    ∃ text, (ofSamples sample packets responses ranges).render? = some text := by
  obtain ⟨text, ht⟩ := Distribution.exists_render?_ofSamples ranges
    (Metric.all.map fun m => (m, sample m))
  change ∃ text, (Distribution.render? _ >>= _) = some text
  rw [ofSamples, ht]
  exact ⟨_, rfl⟩

end LatencyDigest
