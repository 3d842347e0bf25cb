import LatencyDigest.Proofs.Table.Columns
import LatencyDigest.Units

/-! Derived columns are put beside the columns that a table has: those of other names stay as they
are, and no column of another name comes in. -/

namespace LatencyDigest.Table

theorem derive_of_find? {t : Table} {source : String} {data : Series} (derived : String)
    (h : Column.find? source t.columns = some data) :
    t.derive source derived = t.insert derived (.floats (data.toFloats.map nanosToMicros)) := by
  rw [derive, floats, column, h]
  rfl

theorem length_of_find? {t : Table} {source : String} {data : Series}
    (h : Column.find? source t.columns = some data) :
    (Series.floats (data.toFloats.map nanosToMicros)).length = t.rows := by
  rw [← t.length_eq _ (Column.mem_of_find? h), Series.length, List.length_map, data.length_toFloats]

theorem floats_of_find? {t : Table} {name : String} {data : Series}
    (h : Column.find? name t.columns = some data) : t.floats name = .ok data.toFloats := by
  rw [floats, column_eq_ok_iff.2 h]
  rfl

theorem exists_find?_of_derive {t u : Table} {source derived : String}
    (h : t.derive source derived = .ok u) : ∃ data, Column.find? source t.columns = some data := by
  cases hf : Column.find? source t.columns with
  | none =>
    rw [derive, floats, column, hf] at h
    cases h
  | some data => exact ⟨data, rfl⟩

theorem exists_derive {t : Table} {source : String} (derived : String)
    (h : source ∈ t.columnNames) : ∃ u, t.derive source derived = .ok u := by
  obtain ⟨data, hd⟩ := Column.exists_find? h
  rw [derive_of_find? derived hd]
  exact exists_insert derived (length_of_find? hd)

/-- A table with columns of some names put into it. -/
structure Grows (t u : Table) (names : List String) : Prop where
  name : u.name = t.name
  rows : u.rows = t.rows
  retains : ∀ c ∈ t.columns, c.name ∉ names → c ∈ u.columns
  introduced : ∀ c ∈ u.columns, c ∈ t.columns ∨ c.name ∈ names
  keeps : ∀ n ∈ t.columnNames, n ∈ u.columnNames

theorem Grows.refl (t : Table) : Grows t t [] :=
  ⟨rfl, rfl, fun _ hc _ => hc, fun _ hc => .inl hc, fun _ hn => hn⟩

theorem Grows.trans {t u v : Table} {names others : List String} (h : Grows t u names)
    (h' : Grows u v others) : Grows t v (names ++ others) := by
  refine ⟨h'.name.trans h.name, h'.rows.trans h.rows, ?_, ?_, fun n hn => h'.keeps n (h.keeps n hn)⟩
  · intro c hc hn
    rw [List.mem_append, not_or] at hn
    exact h'.retains c (h.retains c hc hn.1) hn.2
  · intro c hc
    rw [List.mem_append]
    rcases h'.introduced c hc with hc | hc
    · exact (h.introduced c hc).imp id .inl
    · exact .inr (.inr hc)

theorem grows_derive {t u : Table} {source derived : String} (h : t.derive source derived = .ok u) :
    Grows t u [derived] := by
  obtain ⟨data, hd⟩ := exists_find?_of_derive h
  rw [derive_of_find? derived hd, insert_eq_ok_iff] at h
  obtain ⟨-, hn, hr, hc⟩ := h
  refine ⟨hn, hr, ?_, ?_, ?_⟩
  · intro c hm hd
    rw [hc]
    exact Column.mem_put_of_ne (by simpa using hd) hm
  · intro c hm
    rw [hc] at hm
    rcases Column.mem_put hm with rfl | hm
    · exact .inr (by simp)
    · exact .inl hm
  · intro n hm
    rw [columnNames, hc, Column.mem_map_name_put]
    exact .inr hm

theorem grows_normalize (t : Table) (pairs : List (String × String)) :
    ∃ names ⊆ pairs.map Prod.snd, Grows t (t.normalize pairs).1 names := by
  induction pairs generalizing t with
  | nil => exact ⟨[], by simp, .refl t⟩
  | cons p pairs ih =>
    obtain ⟨source, derived⟩ := p
    rw [normalize]
    split
    · next u hu =>
      obtain ⟨names, hn, hg⟩ := ih u
      exact ⟨derived :: names, List.cons_subset_cons _ hn, (grows_derive hu).trans hg⟩
    · exact ⟨[], by simp, .refl t⟩

theorem normalize_eq_none {t : Table} {pairs : List (String × String)}
    (h : ∀ p ∈ pairs, p.1 ∈ t.columnNames) : (t.normalize pairs).2 = none := by
  induction pairs generalizing t with
  | nil => rfl
  | cons p pairs ih =>
    obtain ⟨source, derived⟩ := p
    obtain ⟨u, hu⟩ := exists_derive derived (h _ List.mem_cons_self)
    rw [normalize, hu]
    apply ih
    intro q hq
    exact (grows_derive hu).keeps _ (h q (List.mem_cons_of_mem _ hq))

theorem exists_normalize {t : Table} {pairs : List (String × String)}
    (h : ∀ p ∈ pairs, p.1 ∈ t.columnNames) : ∃ u, t.normalize pairs = (u, none) :=
  ⟨_, Prod.ext rfl (normalize_eq_none h)⟩

theorem normalize_append (t : Table) (before after : List (String × String)) :
    t.normalize (before ++ after) = match t.normalize before with
      | (u, none) => u.normalize after
      | failed => failed := by
  induction before generalizing t with
  | nil => rfl
  | cons p before ih =>
    obtain ⟨source, derived⟩ := p
    rw [List.cons_append, normalize, normalize]
    split
    · exact ih _
    · rfl

theorem find?_normalize_of_not_mem (t : Table) {pairs : List (String × String)} {name : String}
    (h : name ∉ pairs.map Prod.snd) :
    Column.find? name (t.normalize pairs).1.columns = Column.find? name t.columns := by
  induction pairs generalizing t with
  | nil => rfl
  | cons p pairs ih =>
    obtain ⟨source, derived⟩ := p
    rw [List.map_cons, List.mem_cons, not_or] at h
    rw [normalize]
    split
    · next u hu =>
      obtain ⟨data, hd⟩ := exists_find?_of_derive hu
      rw [derive_of_find? derived hd, insert_eq_ok_iff] at hu
      rw [ih u h.2, hu.2.2.2, Column.find?_put_of_ne h.1]
    · rfl

/-- The data of a derived column. No pair before it replaces its source, and no pair after it the
column itself. -/
theorem find?_normalize {t u : Table} {before after : List (String × String)}
    {source derived : String} {data : Series}
    (h : t.normalize (before ++ (source, derived) :: after) = (u, none))
    (hs : Column.find? source t.columns = some data) (hb : source ∉ before.map Prod.snd)
    (ha : derived ∉ after.map Prod.snd) :
    Column.find? derived u.columns = some (.floats (data.toFloats.map nanosToMicros)) := by
  rw [normalize_append] at h
  split at h
  · next v hv =>
    have hsv : Column.find? source v.columns = some data := by
      rw [← hs, ← find?_normalize_of_not_mem t hb, hv]
    rw [normalize] at h
    split at h
    · next w hw =>
      rw [derive_of_find? derived hsv, insert_eq_ok_iff] at hw
      have hu : u = (w.normalize after).1 := by rw [h]
      rw [hu, find?_normalize_of_not_mem w ha, hw.2.2.2, Column.find?_put_self]
    · cases h
  · next hf => exact absurd h (hf u)

theorem floats_of_derived {u : Table} {derived : String} {ns : List Int64}
    (h : Column.find? derived u.columns =
      some (.floats ((Series.integers ns).toFloats.map nanosToMicros))) :
    u.floats derived = .ok (ns.map fun n => nanosToMicros (.ofInt n.toInt)) := by
  rw [floats_of_find? h, Series.toFloats, Series.toFloats, List.map_map]
  rfl

theorem find?_normalize_of_mem {t u : Table} {pairs : List (String × String)}
    {source derived : String} {data : Series} (h : t.normalize pairs = (u, none))
    (hp : (source, derived) ∈ pairs) (hn : (pairs.map Prod.snd).Nodup)
    (hs : source ∉ pairs.map Prod.snd) (hd : Column.find? source t.columns = some data) :
    Column.find? derived u.columns = some (.floats (data.toFloats.map nanosToMicros)) := by
  obtain ⟨before, after, rfl⟩ := List.append_of_mem hp
  rw [List.map_append, List.map_cons] at hn hs
  refine find?_normalize h hd (fun hb => hs (List.mem_append_left _ hb)) ?_
  exact (List.nodup_cons.1 (List.nodup_append.1 hn).2.1).1

end LatencyDigest.Table
