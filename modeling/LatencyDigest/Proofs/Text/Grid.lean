import LatencyDigest.Text.Row
import LatencyDigest.Text.Split

/-! A table as a grid of cells: its text, cut at the newlines and then at the tabs. -/

namespace LatencyDigest.Text

/-- A text that ends with a newline leaves one empty cell behind it, as a line of its own. -/
def grid (text : String) : List (List String) :=
  (split '\n' text.toList).map fun line => (split '\t' line).map String.ofList

/-- The cells of a column, from the top. -/
def column (j : Nat) (rows : List (List String)) : List (Option String) := rows.map (·[j]?)

/-- What is one cell wherever it stands in a table. -/
def IsCell (text : String) : Prop := '\t' ∉ text.toList ∧ '\n' ∉ text.toList

instance (text : String) : Decidable (IsCell text) := inferInstanceAs (Decidable (_ ∧ _))

theorem grid_empty : grid "" = [[""]] := rfl

theorem join_cons_cons (sep : Char) (p q : List Char) (ps : List (List Char)) :
    join sep (p :: q :: ps) = p ++ sep :: join sep (q :: ps) := rfl

theorem intercalate_eq_join (sep : Char) (ps : List (List Char)) :
    [sep].intercalate ps = join sep ps := by
  induction ps with
  | nil => rfl
  | cons p ps ih =>
    cases ps with
    | nil => simp [join]
    | cons q ps =>
      rw [List.intercalate_cons_cons, ih, join_cons_cons, List.append_assoc, List.singleton_append]

theorem toList_row (cells : List String) :
    (row cells).toList = join '\t' (cells.map String.toList) ++ ['\n'] := by
  rw [row, String.toList_append, String.toList_intercalate]
  exact congrArg (· ++ ['\n']) (intercalate_eq_join '\t' _)

theorem mem_join {sep c : Char} {ps : List (List Char)} (h : c ∈ join sep ps) :
    c = sep ∨ ∃ p ∈ ps, c ∈ p := by
  induction ps with
  | nil => simp [join] at h
  | cons p ps ih =>
    cases ps with
    | nil => exact .inr ⟨p, List.mem_cons_self, h⟩
    | cons q ps =>
      rw [join_cons_cons, List.mem_append, List.mem_cons] at h
      rcases h with h | h | h
      · exact .inr ⟨p, List.mem_cons_self, h⟩
      · exact .inl h
      · refine (ih h).imp_right ?_
        rintro ⟨r, hr, hc⟩
        exact ⟨r, List.mem_cons_of_mem p hr, hc⟩

section
variable {cells : List String}

theorem grid_row_append (hne : cells ≠ []) (h : ∀ c ∈ cells, IsCell c) (rest : String) :
    grid (row cells ++ rest) = cells :: grid rest := by
  have hline : '\n' ∉ join '\t' (cells.map String.toList) := by
    intro hm
    rcases mem_join hm with hc | ⟨p, hp, hc⟩
    · exact absurd hc (by decide)
    · obtain ⟨c, hm, rfl⟩ := List.mem_map.1 hp
      exact (h c hm).2 hc
  have hcells : split '\t' (join '\t' (cells.map String.toList)) = cells.map String.toList := by
    refine split_join (by simpa using hne) fun p hp => ?_
    obtain ⟨c, hm, rfl⟩ := List.mem_map.1 hp
    exact (h c hm).1
  have hid : String.ofList ∘ String.toList = id := funext fun _ => String.ofList_toList
  rw [grid, String.toList_append, toList_row, List.append_assoc, List.singleton_append,
    split_append hline, List.map_cons, hcells, List.map_map, hid, List.map_id, grid]

theorem grid_join_rows {rows : List (List String)} (hne : ∀ r ∈ rows, r ≠ [])
    (h : ∀ r ∈ rows, ∀ c ∈ r, IsCell c) :
    grid (String.join (rows.map row)) = rows ++ [[""]] := by
  induction rows with
  | nil => exact grid_empty
  | cons r rows ih =>
    rw [List.forall_mem_cons] at hne h
    rw [List.map_cons, String.join_cons, grid_row_append hne.1 h.1, ih hne.2 h.2, List.cons_append]

end

end LatencyDigest.Text
