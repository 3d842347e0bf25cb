import LatencyDigest.Proofs.Table.Columns
import Mathlib.Data.List.Induction

/-! A table as an ordered map. What it holds after any calls to put a column into it follows from the
calls alone: those with as many values as the table has rows succeed, the first of them for a name
fixes the place of the column, and the last its data. -/

namespace LatencyDigest

namespace Table

/-- The table after a call to put a column into it. A call that fails leaves the table. -/
def afterCall (t : Table) (c : Column) : Table :=
  match t.insert c.name c.data with
  | .ok u => u
  | .error _ => t

def after (t : Table) (calls : List Column) : Table := calls.foldl afterCall t

theorem after_concat (t : Table) (calls : List Column) (c : Column) :
    t.after (calls ++ [c]) = (t.after calls).afterCall c := by
  rw [after, List.foldl_append]
  rfl

theorem afterCall_of_ok {t u : Table} {c : Column} (h : t.insert c.name c.data = .ok u) :
    t.afterCall c = u := by
  rw [afterCall, h]

theorem afterCall_of_ne {t : Table} {c : Column} (h : c.data.length ≠ t.rows) :
    t.afterCall c = t := by
  rw [afterCall, insert_eq_error_iff.2 ⟨h, rfl⟩]

theorem afterCall_of_length {t : Table} {c : Column} (h : c.data.length = t.rows) :
    (t.afterCall c).name = t.name ∧ (t.afterCall c).rows = t.rows ∧
      (t.afterCall c).columns = Column.put c.name c.data t.columns := by
  obtain ⟨u, hu⟩ := exists_insert c.name h
  rw [afterCall_of_ok hu]
  exact (insert_eq_ok_iff.1 hu).2

theorem column_afterCall (t : Table) (c : Column) (x : String) : (t.afterCall c).column x =
    if c.name = x ∧ c.data.length = t.rows then .ok c.data else t.column x := by
  by_cases hl : c.data.length = t.rows
  · obtain ⟨hn, -, hc⟩ := afterCall_of_length hl
    by_cases hx : c.name = x
    · rw [if_pos ⟨hx, hl⟩, column_eq_ok_iff, hc, ← hx, Column.find?_put_self]
    · rw [if_neg fun h => hx h.1, column, column, hc, hn, Column.find?_put_of_ne (Ne.symm hx)]
  · rw [if_neg fun h => hl h.2, afterCall_of_ne hl]

theorem eraseDups_concat (names : List String) (x : String) : (names ++ [x]).eraseDups =
    if x ∈ names then names.eraseDups else names.eraseDups ++ [x] := by
  rw [List.eraseDups_append]
  split <;> simp [List.removeAll, List.eraseDups_cons, *]

/-- The calls that succeed on a table of so many rows. -/
def fitting (rows : Nat) (calls : List Column) : List Column :=
  calls.filter fun c => c.data.length = rows

/-- A call that succeeds, and after which no call of its name does. -/
def Latest (rows : Nat) (calls : List Column) (c : Column) : Prop :=
  c.data.length = rows ∧ ∃ before after, calls = before ++ c :: after ∧
    ∀ d ∈ after, d.name = c.name → d.data.length ≠ rows

/-- Only a call of the same name that succeeds takes the place of the latest. -/
theorem latest_concat {rows : Nat} {calls : List Column} {c d : Column} :
    Latest rows (calls ++ [d]) c ↔
      if d.name = c.name ∧ d.data.length = rows then d = c else Latest rows calls c := by
  constructor
  · rintro ⟨hl, before, after, heq, hafter⟩
    rcases List.eq_nil_or_concat after with rfl | ⟨after, e, rfl⟩
    · obtain ⟨-, hd⟩ := List.append_inj' heq rfl
      cases hd
      rw [if_pos ⟨rfl, hl⟩]
    · rw [List.concat_eq_append] at heq hafter
      rw [← List.cons_append, ← List.append_assoc] at heq
      obtain ⟨rfl, hd⟩ := List.append_inj' heq rfl
      cases hd
      rw [if_neg fun h => hafter d (by simp) h.1 h.2]
      exact ⟨hl, before, after, rfl, fun f hf => hafter f (List.mem_append_left _ hf)⟩
  · split
    · next h =>
      rintro rfl
      exact ⟨h.2, calls, [], rfl, by simp⟩
    · next h =>
      rintro ⟨hl, before, after, rfl, hafter⟩
      refine ⟨hl, before, after ++ [d], by simp, fun f hf => ?_⟩
      rcases List.mem_append.1 hf with hf | hf
      · exact hafter f hf
      · obtain rfl := List.mem_singleton.1 hf
        exact fun hn hl => h ⟨hn, hl⟩

/-- A table holds what was put into it since it was new. -/
structure Records (t : Table) (name : String) (rows : Nat) (calls : List Column) : Prop where
  name_eq : t.name = name
  rows_eq : t.rows = rows
  order : t.columnNames = ((fitting rows calls).map Column.name).eraseDups
  found : ∀ x data, t.column x = .ok data ↔ Latest rows calls ⟨x, data⟩

theorem records_empty (name : String) (rows : Nat) : (empty name rows).Records name rows [] := by
  refine ⟨rfl, rfl, rfl, fun x data => ?_⟩
  simp [column_eq_ok_iff, empty, Column.find?, Latest]

theorem Records.afterCall {t : Table} {name : String} {rows : Nat} {calls : List Column}
    (h : t.Records name rows calls) (c : Column) :
    (t.afterCall c).Records name rows (calls ++ [c]) := by
  have hfound : ∀ x data, (t.afterCall c).column x = .ok data ↔
      Latest rows (calls ++ [c]) ⟨x, data⟩ := by
    intro x data
    rw [column_afterCall, latest_concat, h.rows_eq, ← h.found]
    split
    · next hx =>
      obtain ⟨rfl, -⟩ := hx
      constructor
      · intro hd
        cases hd
        rfl
      · intro hd
        rw [hd]
    · rfl
  by_cases hl : c.data.length = t.rows
  · obtain ⟨hn, hr, hc⟩ := afterCall_of_length hl
    refine ⟨hn.trans h.name_eq, hr.trans h.rows_eq, ?_, hfound⟩
    have hmem : c.name ∈ t.columns.map Column.name ↔
        c.name ∈ (fitting rows calls).map Column.name := by
      rw [← List.mem_eraseDups (l := (fitting rows calls).map Column.name), ← h.order, columnNames]
    have hfit : fitting rows (calls ++ [c]) = fitting rows calls ++ [c] := by
      simp [fitting, ← h.rows_eq, hl]
    rw [columnNames, hc, Column.map_name_put, hfit, List.map_append, List.map_singleton,
      eraseDups_concat, ← h.order]
    simp only [hmem, columnNames]
  · rw [afterCall_of_ne hl] at hfound ⊢
    refine ⟨h.name_eq, h.rows_eq, ?_, hfound⟩
    rw [h.order, fitting, fitting]
    simp [← h.rows_eq, hl]

theorem records_after (name : String) (rows : Nat) (calls : List Column) :
    ((empty name rows).after calls).Records name rows calls := by
  induction calls using List.reverseRecOn with
  | nil => exact records_empty name rows
  | append_singleton calls c ih =>
    rw [after_concat]
    exact ih.afterCall c

theorem Records.column_eq_error_iff {t : Table} {name : String} {rows : Nat} {calls : List Column}
    (h : t.Records name rows calls) {x : String} {e : Failure} : t.column x = .error e ↔
      e = .unknownColumn name x ∧ ∀ c ∈ calls, c.name = x → c.data.length ≠ rows := by
  have hmem : x ∈ t.columnNames ↔ ∃ c ∈ calls, c.data.length = rows ∧ c.name = x := by
    simp [h.order, fitting, and_assoc]
  rw [column]
  cases hf : Column.find? x t.columns with
  | some data =>
    obtain ⟨c, hc, hl, hx⟩ := hmem.1 (List.mem_map_of_mem (Column.mem_of_find? hf))
    simp only [reduceCtorEq, false_iff, not_and]
    exact fun _ hall => hall c hc hx hl
  | none =>
    have hall : ∀ c ∈ calls, c.name = x → c.data.length ≠ rows := fun c hc hx hl =>
      Column.find?_eq_none_iff.1 hf (hmem.2 ⟨c, hc, hl, hx⟩)
    rw [h.name_eq]
    constructor
    · intro he
      cases he
      exact ⟨rfl, hall⟩
    · rintro ⟨rfl, -⟩
      rfl

/-- A call that succeeds changes the column of its name, or else puts it after all others. -/
theorem exists_insert_columns {t : Table} {c : Column} (h : c.data.length = t.rows) :
    ∃ u, t.insert c.name c.data = .ok u ∧ t.afterCall c = u ∧ u.name = t.name ∧ u.rows = t.rows ∧
      u.columns = if c.name ∈ t.columnNames then t.columns.map fun d => if d.name = c.name then c
        else d else t.columns ++ [c] := by
  obtain ⟨u, hu⟩ := exists_insert c.name h
  obtain ⟨-, hn, hr, hc⟩ := insert_eq_ok_iff.1 hu
  refine ⟨u, hu, afterCall_of_ok hu, hn, hr, ?_⟩
  rw [hc]
  split
  · next hm => exact Column.put_of_mem t.nodup hm
  · next hm => exact Column.put_of_not_mem hm

theorem records_of_calls (name : String) (rows : Nat) (calls : List Column) :
    let t := (empty name rows).after calls
    t.name = name ∧ t.rows = rows ∧ (∀ c ∈ t.columns, c.data.length = rows) ∧
    t.columnNames.Nodup ∧
    t.columnNames = ((fitting rows calls).map Column.name).eraseDups ∧
    (∀ x data, t.column x = .ok data ↔ Latest rows calls ⟨x, data⟩) ∧
    (∀ x e, t.column x = .error e ↔
      e = .unknownColumn name x ∧ ∀ c ∈ calls, c.name = x → c.data.length ≠ rows) ∧
    ∀ c : Column,
      ((∃ e, t.insert c.name c.data = .error e) ↔ c.data.length ≠ rows) ∧
      (c.data.length ≠ rows → t.insert c.name c.data =
        .error (.columnLength c.name c.data.length name rows) ∧ t.afterCall c = t) ∧
      (c.data.length = rows → ∃ u, t.insert c.name c.data = .ok u ∧ t.afterCall c = u ∧
        u.name = name ∧ u.rows = rows ∧ u.columns = if c.name ∈ t.columnNames then
          t.columns.map fun d => if d.name = c.name then c else d else t.columns ++ [c]) := by
  intro t
  have h : t.Records name rows calls := records_after name rows calls
  have herror {c : Column} {e : Failure} : t.insert c.name c.data = .error e ↔
      c.data.length ≠ rows ∧ e = .columnLength c.name c.data.length name rows := by
    rw [insert_eq_error_iff, h.name_eq, h.rows_eq]
  refine ⟨h.name_eq, h.rows_eq, fun c hc => (t.length_eq c hc).trans h.rows_eq, t.nodup, h.order,
    h.found, fun x e => h.column_eq_error_iff, fun c => ⟨?_, ?_, ?_⟩⟩
  · simp only [herror, exists_and_left, exists_eq, and_true]
  · intro hl
    exact ⟨herror.2 ⟨hl, rfl⟩, afterCall_of_ne (h.rows_eq.symm ▸ hl)⟩
  · intro hl
    obtain ⟨u, hu, ha, hn, hr, hc⟩ := exists_insert_columns (hl.trans h.rows_eq.symm)
    exact ⟨u, hu, ha, hn.trans h.name_eq, hr.trans h.rows_eq, hc⟩

/-- A call that fails, and one that replaces a column by data of the other kind. -/
theorem records_of_calls_replaced :
    let t := (empty "t" 1).after [⟨"b", .integers [1]⟩, ⟨"a", .floats [.ofNat 2]⟩,
      ⟨"a", .integers []⟩, ⟨"b", .floats [.ofNat 5]⟩]
    t.columnNames = ["b", "a"] ∧ t.column "b" = .ok (.floats [.ofNat 5]) ∧
      t.column "a" = .ok (.floats [.ofNat 2]) ∧ t.column "c" = .error (.unknownColumn "t" "c") ∧
      t.insert "a" (.integers []) = .error (.columnLength "a" 0 "t" 1) := by
  intro t
  obtain ⟨-, -, -, -, hnames, hfound, hmissing, hcall⟩ := records_of_calls "t" 1
    [⟨"b", .integers [1]⟩, ⟨"a", .floats [.ofNat 2]⟩, ⟨"a", .integers []⟩,
      ⟨"b", .floats [.ofNat 5]⟩]
  refine ⟨hnames.trans (by decide), (hfound _ _).2 ?_, (hfound _ _).2 ?_,
    (hmissing _ _).2 ⟨rfl, by decide⟩, ((hcall ⟨"a", .integers []⟩).2.1 (by decide)).1⟩
  · exact ⟨rfl, [⟨"b", .integers [1]⟩, ⟨"a", .floats [.ofNat 2]⟩, ⟨"a", .integers []⟩], [], rfl,
      by decide⟩
  · exact ⟨rfl, [⟨"b", .integers [1]⟩], _, rfl, by decide⟩

end Table

end LatencyDigest
