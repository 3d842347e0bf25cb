import LatencyDigest.Proofs.Table.Normalize

/-! What a list of pairs does to a table. A pair fails only for want of its source, which may be a
column that an earlier pair derived. Where no source is derived, the pairs do not meet: they give the
same columns in any order, and the same again a second time. -/

namespace LatencyDigest.Table

variable {t u v : Table} {pairs : List (String × String)}

theorem column_eq_of_find? {x : String} (hn : u.name = t.name)
    (h : Column.find? x u.columns = Column.find? x t.columns) : u.column x = t.column x := by
  rw [column, column, h, hn]

theorem derive_eq_error_iff {source derived : String} {e : Failure} :
    t.derive source derived = .error e ↔
      source ∉ t.columnNames ∧ e = .unknownColumn t.name source := by
  by_cases hs : source ∈ t.columnNames
  · obtain ⟨u, hu⟩ := exists_derive derived hs
    simp [hu, hs]
  · rw [derive, floats, column, Column.find?_eq_none_iff.2 hs]
    constructor
    · intro h
      cases h
      exact ⟨hs, rfl⟩
    · rintro ⟨-, rfl⟩
      rfl

theorem columnNames_derive {source derived : String} (h : t.derive source derived = .ok u) :
    u.columnNames = if derived ∈ t.columnNames then t.columnNames
      else t.columnNames ++ [derived] := by
  obtain ⟨data, hd⟩ := exists_find?_of_derive h
  rw [derive_of_find? derived hd, insert_eq_ok_iff] at h
  rw [columnNames, h.2.2.2, Column.map_name_put]
  rfl

/-- New columns come after those that are there. -/
theorem columnNames_prefix (t : Table) (pairs : List (String × String)) :
    t.columnNames <+: (t.normalize pairs).1.columnNames := by
  induction pairs generalizing t with
  | nil => exact List.prefix_refl _
  | cons p pairs ih =>
    obtain ⟨source, derived⟩ := p
    rw [normalize]
    split
    · next u hu =>
      refine List.IsPrefix.trans ?_ (ih u)
      rw [columnNames_derive hu]
      split
      · exact List.prefix_refl _
      · exact List.prefix_append _ _
    · exact List.prefix_refl _

theorem mem_columnNames_normalize {x : String} (h : t.normalize pairs = (u, none)) :
    x ∈ u.columnNames ↔ x ∈ t.columnNames ∨ x ∈ pairs.map Prod.snd := by
  induction pairs generalizing t with
  | nil =>
    cases h
    simp
  | cons p pairs ih =>
    obtain ⟨source, derived⟩ := p
    rw [normalize] at h
    split at h
    · next w hw =>
      have hmem : x ∈ w.columnNames ↔ x ∈ t.columnNames ∨ x = derived := by
        rw [columnNames_derive hw]
        split
        · next hd => exact ⟨.inl, fun hx => hx.elim id fun hx => hx ▸ hd⟩
        · rw [List.mem_append, List.mem_singleton]
      rw [ih h, hmem, List.map_cons, List.mem_cons, or_assoc]
    · cases h

/-- A source that is no column of the table and that no pair before it derives. -/
def Lacks (t : Table) (before : List (String × String)) (source : String) : Prop :=
  source ∉ t.columnNames ∧ source ∉ before.map Prod.snd

theorem derive_after_eq_error_iff {before : List (String × String)} {p : String × String}
    {e : Failure} (h : t.normalize before = (v, none)) : v.derive p.1 p.2 = .error e ↔
      t.Lacks before p.1 ∧ e = .unknownColumn t.name p.1 := by
  obtain ⟨names, -, hg⟩ := grows_normalize t before
  have hname : v.name = t.name := by
    rw [← hg.name, h]
  rw [derive_eq_error_iff, mem_columnNames_normalize h, not_or, hname]
  rfl

theorem exists_of_normalize_eq_some {e : Failure} (h : t.normalize pairs = (v, some e)) :
    ∃ before p after, pairs = before ++ p :: after ∧ t.normalize before = (v, none) ∧
      v.derive p.1 p.2 = .error e := by
  induction pairs generalizing t with
  | nil => cases h
  | cons p pairs ih =>
    obtain ⟨source, derived⟩ := p
    rw [normalize] at h
    split at h
    · next w hw =>
      obtain ⟨before, q, after, rfl, hb, hq⟩ := ih h
      refine ⟨(source, derived) :: before, q, after, rfl, ?_, hq⟩
      rw [normalize, hw]
      exact hb
    · next d hd =>
      cases h
      exact ⟨[], _, pairs, rfl, rfl, hd⟩

/-- The pairs before the first one that lacks its source stay done. -/
theorem normalize_eq_some_iff {e : Failure} : t.normalize pairs = (v, some e) ↔
    ∃ before p after, pairs = before ++ p :: after ∧ t.normalize before = (v, none) ∧
      t.Lacks before p.1 ∧ e = .unknownColumn t.name p.1 := by
  constructor
  · intro h
    obtain ⟨before, p, after, hp, hb, hd⟩ := exists_of_normalize_eq_some h
    exact ⟨before, p, after, hp, hb, (derive_after_eq_error_iff hb).1 hd⟩
  · rintro ⟨before, p, after, rfl, hb, hd⟩
    rw [normalize_append, hb]
    change v.normalize (p :: after) = _
    rw [normalize, (derive_after_eq_error_iff hb).2 hd]

theorem not_lacks_of_normalize {before after : List (String × String)} {p : String × String}
    (h : t.normalize (before ++ p :: after) = (u, none)) : ¬t.Lacks before p.1 := by
  intro hp
  rw [normalize_append] at h
  split at h
  · next v hv =>
    rw [normalize, (derive_after_eq_error_iff hv).2 ⟨hp, rfl⟩] at h
    cases h
  · next hf => exact hf u h

theorem exists_failure_iff : (∃ e, (t.normalize pairs).2 = some e) ↔
    ∃ before p after, pairs = before ++ p :: after ∧ t.Lacks before p.1 := by
  constructor
  · rintro ⟨e, he⟩
    obtain ⟨before, p, after, hp, -, hl, -⟩ := normalize_eq_some_iff.1 (Prod.ext rfl he)
    exact ⟨before, p, after, hp, hl⟩
  · rintro ⟨before, p, after, rfl, hl⟩
    refine Option.ne_none_iff_exists'.1 fun hn => ?_
    exact not_lacks_of_normalize (Prod.ext rfl hn) hl

/-! Pairs of which none derives a source, and no two the same column. -/

structure Separate (pairs : List (String × String)) : Prop where
  nodup : (pairs.map Prod.snd).Nodup
  source_not_mem : ∀ p ∈ pairs, p.1 ∉ pairs.map Prod.snd

namespace Separate

theorem perm {others : List (String × String)} (h : Separate pairs) (hp : others.Perm pairs) :
    Separate others := by
  have hd := hp.map Prod.snd
  refine ⟨hd.nodup_iff.2 h.nodup, fun p hm => ?_⟩
  rw [hd.mem_iff]
  exact h.source_not_mem p (hp.mem_iff.1 hm)

variable (h : Separate pairs) (hu : t.normalize pairs = (u, none))
include h hu

theorem exists_source {p : String × String} (hp : p ∈ pairs) :
    ∃ data, Column.find? p.1 t.columns = some data := by
  obtain ⟨before, after, rfl⟩ := List.append_of_mem hp
  have hsource := h.source_not_mem p hp
  have hlacks := not_lacks_of_normalize hu
  rw [List.map_append, List.mem_append, not_or] at hsource
  refine Column.exists_find? (Classical.not_not.1 fun hn => hlacks ⟨hn, hsource.1⟩)

theorem find?_derived {p : String × String} (hp : p ∈ pairs) {data : Series}
    (hd : Column.find? p.1 t.columns = some data) :
    Column.find? p.2 u.columns = some (.floats (data.toFloats.map nanosToMicros)) :=
  find?_normalize_of_mem hu hp h.nodup (h.source_not_mem p hp) hd

end Separate

theorem columnNames_normalize (hn : (pairs.map Prod.snd).Nodup)
    (hu : t.normalize pairs = (u, none)) : u.columnNames =
      t.columnNames ++ (pairs.map Prod.snd).filter fun x => x ∉ t.columnNames := by
  induction pairs generalizing t with
  | nil =>
    cases hu
    simp
  | cons p pairs ih =>
    obtain ⟨source, derived⟩ := p
    rw [List.map_cons, List.nodup_cons] at hn
    rw [normalize] at hu
    split at hu
    · next w hw =>
      have hnames := columnNames_derive hw
      rw [ih hn.2 hu, List.map_cons]
      split at hnames
      · next hd => rw [hnames, List.filter_cons_of_neg (by simpa using hd)]
      · next hd =>
        have hrest : ∀ x ∈ pairs.map Prod.snd, x ∉ w.columnNames ↔ x ∉ t.columnNames := by
          intro x hx
          have hne : x ≠ derived := fun he => hn.1 (he ▸ hx)
          rw [hnames, List.mem_append, List.mem_singleton, not_or, and_iff_left hne]
        rw [List.filter_congr fun x hx => decide_eq_decide.2 (hrest x hx), hnames,
          List.filter_cons_of_pos (by simpa using hd), List.append_assoc, List.singleton_append]
    · cases hu

/-- To derive what is there already changes nothing. -/
theorem derive_eq_self {source derived : String} {data : Series}
    (hs : Column.find? source t.columns = some data)
    (hd : Column.find? derived t.columns = some (.floats (data.toFloats.map nanosToMicros))) :
    t.derive source derived = .ok t := by
  rw [derive_of_find? derived hs, insert_eq_ok_iff]
  exact ⟨length_of_find? hs, rfl, rfl, (Column.put_eq_self hd).symm⟩

theorem normalize_eq_self (h : ∀ p ∈ pairs, ∃ data, Column.find? p.1 t.columns = some data ∧
    Column.find? p.2 t.columns = some (.floats (data.toFloats.map nanosToMicros))) :
    t.normalize pairs = (t, none) := by
  induction pairs with
  | nil => rfl
  | cons p pairs ih =>
    obtain ⟨data, hs, hd⟩ := h p List.mem_cons_self
    rw [normalize, derive_eq_self hs hd]
    exact ih fun q hq => h q (List.mem_cons_of_mem p hq)

theorem find?_of_normalize (hu : t.normalize pairs = (u, none)) {x : String}
    (hx : x ∉ pairs.map Prod.snd) : Column.find? x u.columns = Column.find? x t.columns := by
  rw [← find?_normalize_of_not_mem t hx, hu]

theorem Separate.normalize_again (h : Separate pairs) (hu : t.normalize pairs = (u, none)) :
    u.normalize pairs = (u, none) := by
  refine normalize_eq_self fun p hp => ?_
  obtain ⟨data, hd⟩ := h.exists_source hu hp
  exact ⟨data, (find?_of_normalize hu (h.source_not_mem p hp)).trans hd, h.find?_derived hu hp hd⟩

theorem Separate.exists_reordered (h : Separate pairs) (hu : t.normalize pairs = (u, none))
    {others : List (String × String)} (hp : others.Perm pairs) :
    ∃ v, t.normalize others = (v, none) ∧ v.name = u.name ∧ v.rows = u.rows ∧
      ∀ x, v.column x = u.column x := by
  have hsource : ∀ p ∈ others, p.1 ∈ t.columnNames := by
    intro p hm
    obtain ⟨data, hd⟩ := h.exists_source hu (hp.mem_iff.1 hm)
    exact List.mem_map_of_mem (Column.mem_of_find? hd)
  obtain ⟨v, hv⟩ := exists_normalize hsource
  obtain ⟨_, -, hgu⟩ := grows_normalize t pairs
  obtain ⟨_, -, hgv⟩ := grows_normalize t others
  rw [hu] at hgu
  rw [hv] at hgv
  have hname : v.name = u.name := hgv.name.trans hgu.name.symm
  refine ⟨v, hv, hname, hgv.rows.trans hgu.rows.symm, fun x => column_eq_of_find? hname ?_⟩
  by_cases hx : x ∈ pairs.map Prod.snd
  · obtain ⟨p, hm, rfl⟩ := List.mem_map.1 hx
    obtain ⟨data, hd⟩ := h.exists_source hu hm
    rw [h.find?_derived hu hm hd, (h.perm hp).find?_derived hv (hp.mem_iff.2 hm) hd]
  · rw [find?_of_normalize hu hx, find?_of_normalize hv (by rwa [(hp.map Prod.snd).mem_iff])]

theorem normalize_derives (t : Table) (pairs : List (String × String)) :
    ((t.normalize pairs).1.name = t.name ∧ (t.normalize pairs).1.rows = t.rows ∧
      (∀ x ∉ pairs.map Prod.snd, (t.normalize pairs).1.column x = t.column x) ∧
      t.columnNames <+: (t.normalize pairs).1.columnNames) ∧
    ((∃ e, (t.normalize pairs).2 = some e) ↔
      ∃ before p after, pairs = before ++ p :: after ∧ t.Lacks before p.1) ∧
    (∀ v e, t.normalize pairs = (v, some e) ↔
      ∃ before p after, pairs = before ++ p :: after ∧ t.normalize before = (v, none) ∧
        t.Lacks before p.1 ∧ e = .unknownColumn t.name p.1) ∧
    (Separate pairs → ∀ u, t.normalize pairs = (u, none) →
      (∀ p ∈ pairs, ∃ data, t.column p.1 = .ok data ∧
        u.column p.2 = .ok (.floats (data.toFloats.map nanosToMicros))) ∧
      (u.columnNames = t.columnNames ++ (pairs.map Prod.snd).filter fun x => x ∉ t.columnNames) ∧
      u.normalize pairs = (u, none) ∧
      ∀ others : List (String × String), others.Perm pairs →
        ∃ v, t.normalize others = (v, none) ∧ v.name = u.name ∧ v.rows = u.rows ∧
          ∀ x, v.column x = u.column x) := by
  obtain ⟨_, -, hg⟩ := grows_normalize t pairs
  refine ⟨⟨hg.name, hg.rows, ?_, columnNames_prefix t pairs⟩, exists_failure_iff,
    fun v e => normalize_eq_some_iff, fun h u hu => ⟨?_, columnNames_normalize h.nodup hu,
      h.normalize_again hu, fun others hp => h.exists_reordered hu hp⟩⟩
  · intro x hx
    exact column_eq_of_find? hg.name (find?_normalize_of_not_mem t hx)
  · intro p hp
    obtain ⟨data, hd⟩ := h.exists_source hu hp
    exact ⟨data, column_eq_ok_iff.2 hd, column_eq_ok_iff.2 (h.find?_derived hu hp hd)⟩

/-- One of the two columns stands before its source already. -/
theorem normalize_derives_beside :
    let t : Table := ⟨"any", 2, [⟨"b_us", .integers [7, 7]⟩, ⟨"a_ns", .floats [.ofNat 1, .nan]⟩,
      ⟨"b_ns", .integers [-1, 0]⟩], by decide, by decide⟩
    let pairs := [("a_ns", "a_us"), ("b_ns", "b_us")]
    Separate pairs ∧ ∃ u, t.normalize pairs = (u, none) ∧
      u.column "b_us" = .ok (.floats ([.ofInt (-1), .ofInt 0].map nanosToMicros)) ∧
      u.columnNames = ["b_us", "a_ns", "b_ns", "a_us"] ∧ u.normalize pairs = (u, none) ∧
      ∃ v, t.normalize pairs.reverse = (v, none) ∧ ∀ x, v.column x = u.column x := by
  intro t pairs
  have h : Separate pairs := ⟨by decide, by decide⟩
  have hsource : ∀ p ∈ pairs, p.1 ∈ t.columnNames := by decide
  obtain ⟨u, hu⟩ := exists_normalize hsource
  obtain ⟨hdata, hnames, hagain, hperm⟩ := (normalize_derives t pairs).2.2.2 h u hu
  obtain ⟨data, hd, hb⟩ := hdata ("b_ns", "b_us") (by decide)
  obtain ⟨v, hv, -, -, hx⟩ := hperm _ (List.reverse_perm pairs)
  refine ⟨h, u, hu, ?_, hnames.trans (by decide), hagain, v, hv, hx⟩
  cases hd
  exact hb

end LatencyDigest.Table
