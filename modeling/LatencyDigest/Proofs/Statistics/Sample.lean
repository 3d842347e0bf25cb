import LatencyDigest.Proofs.Outcome
import LatencyDigest.Proofs.Statistics.Percentile
import LatencyDigest.Proofs.Table.Columns
import LatencyDigest.Statistics.Describe

/-! Samples and their figures: a sample is the same for any order of its values, and all of its
figures exist. -/

namespace LatencyDigest

namespace Sample

theorem ext_values {s t : Sample} (h : s.values = t.values) : s = t := by
  cases s
  cases t
  cases h
  rfl

@[simp] theorem count_ofValues (xs : List Binary64) : (ofValues xs).count = xs.length :=
  (values_ofValues_perm xs).length_eq

/-- Values that are equal in the total order are the same bit patterns, so only one list of them is
in order. -/
theorem ofValues_eq_of_perm {xs ys : List Binary64} (h : xs.Perm ys) :
    ofValues xs = ofValues ys := by
  apply ext_values
  refine List.Perm.eq_of_pairwise (fun x y _ _ => Binary64.totalLE_antisymm) (ofValues xs).ordered
    (ofValues ys).ordered ?_
  exact (values_ofValues_perm xs).trans (h.trans (values_ofValues_perm ys).symm)

theorem values_ofValues_of_pairwise {xs : List Binary64}
    (h : xs.Pairwise fun x y => x.totalLE y) : (ofValues xs).values = xs :=
  List.mergeSort_of_pairwise h

theorem values_ofValues_eq {xs ys : List Binary64} (h : ys.Perm xs)
    (hs : ys.Pairwise fun x y => x.totalLE y) : (ofValues xs).values = ys := by
  rw [← ofValues_eq_of_perm h]
  exact values_ofValues_of_pairwise hs

theorem min_ofValues {xs : List Binary64} {x : Binary64} (hx : x ∈ xs) (h : ∀ y ∈ xs, x.totalLE y) : (ofValues xs).min = x := by
  have hperm := values_ofValues_perm xs
  have hordered := (ofValues xs).ordered
  rw [min]
  cases hv : (ofValues xs).values with
  | nil =>
    rw [hv] at hperm
    exact absurd (hperm.mem_iff.2 hx) List.not_mem_nil
  | cons a rest =>
    rw [hv] at hperm hordered
    rcases List.mem_cons.1 (hperm.mem_iff.2 hx) with rfl | hm
    · rfl
    · exact Binary64.totalLE_antisymm (List.rel_of_pairwise_cons hordered hm)
        (h a (hperm.mem_iff.1 List.mem_cons_self))

theorem max_ofValues {xs : List Binary64} {x : Binary64} (hx : x ∈ xs) (h : ∀ y ∈ xs, y.totalLE x) : (ofValues xs).max = x := by
  have hperm := values_ofValues_perm xs
  have hordered := (ofValues xs).ordered
  rw [max]
  rcases List.eq_nil_or_concat (ofValues xs).values with hv | ⟨rest, a, hv⟩
  · rw [hv] at hperm
    exact absurd (hperm.mem_iff.2 hx) List.not_mem_nil
  · rw [List.concat_eq_append] at hv
    rw [hv] at hperm hordered
    rw [hv, List.getLast?_concat, Option.getD_some]
    rcases List.mem_append.1 (hperm.mem_iff.2 hx) with hm | hm
    · exact Binary64.totalLE_antisymm (h a (hperm.mem_iff.1 (by simp)))
        ((List.pairwise_append.1 hordered).2.2 x hm a List.mem_cons_self)
    · exact (List.mem_singleton.1 hm).symm

/-- The percentile as a value, for those that always exist. -/
def level (s : Sample) (p : Binary64) : Binary64 := (s.percentile p).getD .nan

theorem percentile_eq_level (s : Sample) {p : Binary64} (hp : Binary64.BelowOne (p / .ofNat 100)) :
    s.percentile p = some (s.level p) := by
  obtain ⟨v, hv⟩ := exists_percentile hp s.values
  rw [level, percentile, hv, Option.getD_some]

end Sample

namespace Summary

def ofSample (s : Sample) : Summary where
  count := s.count
  mean := s.mean
  deviation := s.deviation
  min := s.min
  lowerQuartile := s.level (.ofNat 25)
  median := s.level (.ofNat 50)
  upperQuartile := s.level (.ofNat 75)
  max := s.max

theorem ofSample?_eq (s : Sample) : ofSample? s = some (ofSample s) := by
  simp only [ofSample?, s.percentile_eq_level (p := .ofNat 25) (by decide +kernel),
    s.percentile_eq_level (p := .ofNat 50) (by decide +kernel),
    s.percentile_eq_level (p := .ofNat 75) (by decide +kernel)]
  rfl

end Summary

namespace Table

variable {t : Table} {c : String}

theorem length_of_floats {xs : List Binary64} (h : t.floats c = .ok xs) : xs.length = t.rows := by
  obtain ⟨data, hd, rfl⟩ := Outcome.map_eq_ok_iff.1 h
  rw [data.length_toFloats]
  exact t.length_eq _ (Column.mem_of_find? (column_eq_ok_iff.1 hd))

theorem sample_of_floats {xs : List Binary64} (h : t.floats c = .ok xs) :
    t.sample c = if t.rows = 0 then .error (.noValues t.name c) else .ok (.ofValues xs) := by
  rw [sample, h, ← length_of_floats h]
  cases xs <;> rfl

theorem sample_eq_ok_iff {s : Sample} :
    t.sample c = .ok s ↔ ∃ xs, t.floats c = .ok xs ∧ t.rows ≠ 0 ∧ .ofValues xs = s := by
  cases h : t.floats c with
  | error e => simp [sample, h, bind, Except.bind]
  | ok xs =>
    rw [sample_of_floats h]
    split <;> simp [*]

theorem count_of_sample {s : Sample} (h : t.sample c = .ok s) : s.count = t.rows := by
  obtain ⟨xs, hxs, -, rfl⟩ := sample_eq_ok_iff.1 h
  rw [Sample.count_ofValues, length_of_floats hxs]

theorem summary_eq (t : Table) (c : String) : t.summary c = (t.sample c).map Summary.ofSample := by
  rw [summary]
  cases t.sample c with
  | error e => rfl
  | ok s =>
    simp only [bind, Except.bind, Summary.ofSample?_eq]
    rfl

theorem describe_nil (t : Table) : t.describe [] = .ok [] := rfl

theorem describe_cons (t : Table) (c : String) (cs : List String) :
    t.describe (c :: cs) = t.sample c >>= fun s =>
      t.describe cs >>= fun rest => .ok ((c, .ofSample s) :: rest) := by
  rw [describe, Outcome.mapM_cons, summary_eq]
  cases t.sample c <;> rfl

end Table

end LatencyDigest
