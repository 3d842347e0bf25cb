import LatencyDigest.Table
import Mathlib.Data.List.Nodup

/-! Looking columns up, and what the insertion of a column changes. -/

namespace LatencyDigest

namespace Column

@[simp] theorem find?_put_self (name : String) (data : Series) (cs : List Column) :
    find? name (put name data cs) = some data := by
  induction cs with
  | nil => simp [put, find?]
  | cons c cs ih =>
    simp only [put]
    split
    · simp [find?]
    · next h => rw [find?, if_neg h, ih]

theorem find?_put_of_ne {name other : String} (h : other ≠ name) (data : Series)
    (cs : List Column) : find? other (put name data cs) = find? other cs := by
  induction cs with
  | nil => simp [put, find?, Ne.symm h]
  | cons c cs ih =>
    simp only [put]
    split
    · next hc => rw [find?, find?, if_neg (Ne.symm h), if_neg (hc ▸ Ne.symm h)]
    · rw [find?, find?, ih]

/-- What is there already is put where it stands. -/
theorem put_eq_self {name : String} {data : Series} {cs : List Column}
    (h : find? name cs = some data) : put name data cs = cs := by
  induction cs with
  | nil => cases h
  | cons c cs ih =>
    rw [find?] at h
    rw [put]
    split
    · next hc =>
      rw [if_pos hc] at h
      cases h
      cases hc
      rfl
    · next hc => rw [ih (by rwa [if_neg hc] at h)]

theorem put_of_not_mem {name : String} {data : Series} {cs : List Column}
    (h : name ∉ cs.map Column.name) : put name data cs = cs ++ [⟨name, data⟩] := by
  induction cs with
  | nil => rfl
  | cons c cs ih =>
    simp only [List.map_cons, List.mem_cons, not_or] at h
    simp only [put]
    rw [if_neg (Ne.symm h.1), ih h.2]
    rfl

/-- The place of a name that is there already stays its place. -/
theorem put_of_mem {name : String} {data : Series} {cs : List Column}
    (hn : (cs.map Column.name).Nodup) (h : name ∈ cs.map Column.name) :
    put name data cs = cs.map fun c => if c.name = name then ⟨name, data⟩ else c := by
  induction cs with
  | nil => simp at h
  | cons c cs ih =>
    rw [List.map_cons, List.nodup_cons] at hn
    rw [put, List.map_cons]
    split
    · next hc =>
      have hrest : ∀ d ∈ cs, d.name ≠ name := by
        rintro d hd rfl
        exact hn.1 (hc ▸ List.mem_map_of_mem hd)
      rw [List.map_congr_left fun d hd => if_neg (hrest d hd), List.map_id']
    · next hc => rw [ih hn.2 ((List.mem_cons.1 h).resolve_left (Ne.symm hc))]

theorem map_name_put {name : String} {data : Series} {cs : List Column} :
    (put name data cs).map Column.name = if name ∈ cs.map Column.name then cs.map Column.name
      else cs.map Column.name ++ [name] := by
  induction cs with
  | nil => rfl
  | cons c cs ih =>
    rw [put]
    split
    · next hc => simp [hc]
    · next hc =>
      rw [List.map_cons, ih, List.map_cons]
      split <;> simp [*, Ne.symm hc]

@[simp] theorem mem_map_name_put {name other : String} {data : Series} {cs : List Column} :
    other ∈ (put name data cs).map Column.name ↔ other = name ∨ other ∈ cs.map Column.name := by
  rw [map_name_put]
  split
  · next h =>
    refine ⟨.inr, ?_⟩
    rintro (rfl | hm)
    · exact h
    · exact hm
  · rw [List.mem_append, List.mem_singleton, or_comm]

theorem mem_put_of_ne {name : String} {data : Series} {c : Column} {cs : List Column}
    (hn : c.name ≠ name) (h : c ∈ cs) : c ∈ put name data cs := by
  induction cs with
  | nil => simp at h
  | cons d cs ih =>
    simp only [put]
    rcases List.mem_cons.1 h with rfl | h
    · rw [if_neg hn]
      exact List.mem_cons_self
    · split
      · exact List.mem_cons_of_mem _ h
      · exact List.mem_cons_of_mem _ (ih h)

theorem mem_of_find? {name : String} {data : Series} {cs : List Column}
    (h : find? name cs = some data) : ⟨name, data⟩ ∈ cs := by
  induction cs with
  | nil => cases h
  | cons c cs ih =>
    rw [find?] at h
    split at h
    · next hn =>
      cases h
      cases hn
      exact List.mem_cons_self
    · exact List.mem_cons_of_mem c (ih h)

theorem exists_find? {name : String} {cs : List Column} (h : name ∈ cs.map Column.name) :
    ∃ data, find? name cs = some data := by
  induction cs with
  | nil => simp at h
  | cons c cs ih =>
    rw [find?]
    split
    · exact ⟨_, rfl⟩
    · next hn =>
      rcases List.mem_cons.1 h with rfl | h
      · exact absurd rfl hn
      · exact ih h

theorem find?_eq_none_iff {name : String} {cs : List Column} :
    find? name cs = none ↔ name ∉ cs.map Column.name := by
  constructor
  · intro h hm
    obtain ⟨data, hd⟩ := exists_find? hm
    rw [h] at hd
    cases hd
  · intro h
    cases hf : find? name cs with
    | none => rfl
    | some data => exact absurd (List.mem_map_of_mem (mem_of_find? hf)) h

theorem find?_eq_some_iff {cs : List Column} (h : (cs.map Column.name).Nodup) {name : String}
    {data : Series} : find? name cs = some data ↔ ⟨name, data⟩ ∈ cs := by
  constructor
  · exact mem_of_find?
  · intro hm
    obtain ⟨found, hf⟩ := exists_find? (List.mem_map_of_mem hm)
    have he := List.inj_on_of_nodup_map h (mem_of_find? hf) hm rfl
    rw [hf, (Column.mk.inj he).2]

end Column

namespace Table

theorem ext_columns {t u : Table} (hn : t.name = u.name) (hr : t.rows = u.rows)
    (hc : t.columns = u.columns) : t = u := by
  cases t
  cases u
  cases hn
  cases hr
  cases hc
  rfl

theorem column_eq_ok_iff {t : Table} {name : String} {data : Series} :
    t.column name = .ok data ↔ Column.find? name t.columns = some data := by
  rw [column]
  split <;> simp [*]

theorem insert_eq_ok_iff {t u : Table} {name : String} {data : Series} :
    t.insert name data = .ok u ↔ data.length = t.rows ∧ u.name = t.name ∧ u.rows = t.rows ∧
      u.columns = Column.put name data t.columns := by
  rw [insert]
  constructor
  · intro h
    split at h
    · next hl =>
      cases h
      exact ⟨hl, rfl, rfl, rfl⟩
    · cases h
  · rintro ⟨hl, hn, hr, hc⟩
    rw [dif_pos hl]
    exact congrArg _ (ext_columns hn.symm hr.symm hc.symm)

theorem insert_eq_error_iff {t : Table} {name : String} {data : Series} {e : Failure} :
    t.insert name data = .error e ↔
      data.length ≠ t.rows ∧ e = .columnLength name data.length t.name t.rows := by
  rw [insert]
  split
  · next h => simp [h]
  · next h => simp [h, eq_comm]

theorem exists_insert {t : Table} (name : String) {data : Series} (h : data.length = t.rows) :
    ∃ u, t.insert name data = .ok u := by
  rw [insert, dif_pos h]
  exact ⟨_, rfl⟩

end Table

end LatencyDigest
