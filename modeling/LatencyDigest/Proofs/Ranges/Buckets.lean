import LatencyDigest.Outcome
import LatencyDigest.Proofs.Ranges.Boundary
import Mathlib.Tactic.Ring

/-! The buckets of latency ranges: every value has one of them, so their counts add up to the number
of values, and ranges that were accepted have a label for each. -/

namespace LatencyDigest.Ranges

theorem bucket_lt (r : Ranges) (v : Binary64) : r.bucket v < r.bucketCount :=
  Nat.lt_succ_of_le (boundary_le_length _ r.bounds)

@[simp] theorem length_count (r : Ranges) (values : List Binary64) :
    (r.count values).length = r.bucketCount := by
  simp [count]

theorem getElem_count (r : Ranges) (values : List Binary64) {i : Nat}
    (h : i < (r.count values).length) :
    (r.count values)[i] = values.countP fun v => r.bucket v = i := by
  simp [count]

theorem countP_lt_succ (f : α → Nat) (n : Nat) (xs : List α) :
    xs.countP (fun x => f x < n + 1) =
      xs.countP (fun x => f x < n) + xs.countP (fun x => f x = n) := by
  induction xs with
  | nil => rfl
  | cons x xs ih =>
    simp only [List.countP_cons, decide_eq_true_eq, ih]
    split <;> split <;> split <;> omega

theorem sum_countP_range (f : α → Nat) (n : Nat) (xs : List α) :
    ((List.range n).map fun i => xs.countP fun x => f x = i).sum = xs.countP fun x => f x < n := by
  induction n with
  | zero => simp
  | succ n ih =>
    rw [List.range_succ, List.map_append, List.sum_append, ih, List.map_singleton,
      List.sum_singleton, countP_lt_succ]

theorem sum_count (r : Ranges) (values : List Binary64) :
    (r.count values).sum = values.length := by
  rw [count, sum_countP_range, List.countP_eq_length]
  intro v _
  exact decide_eq_true (r.bucket_lt v)

/-! Labels. -/

theorem length_innerLabels (b : Binary64) (bs : List Binary64) :
    (innerLabels (b :: bs)).length = bs.length := by
  induction bs generalizing b with
  | nil => rfl
  | cons c bs ih => rw [innerLabels, List.length_cons, ih, List.length_cons]

theorem length_lastLabel (b : Binary64) (bs : List Binary64) :
    (lastLabel (b :: bs)).length = 1 := by
  induction bs generalizing b with
  | nil => rfl
  | cons c bs ih => exact ih c

theorem length_labels {r : Ranges} (h : r.bounds ≠ []) : r.labels.length = r.bucketCount := by
  obtain ⟨b, bs, hb⟩ := List.exists_cons_of_ne_nil h
  rw [labels, bucketCount, hb, List.length_append, List.length_append, length_innerLabels,
    length_lastLabel, firstLabel, List.length_singleton, List.length_cons, Nat.add_comm 1]

theorem length_labels_le (r : Ranges) : r.labels.length ≤ r.bucketCount := by
  by_cases h : r.bounds = []
  · simp [labels, h, firstLabel, innerLabels, lastLabel]
  · exact Nat.le_of_eq (length_labels h)

/-- The ways in which ranges come about. -/
inductive Accepted : Ranges → Prop
  | ofBounds : ofBounds bs = .ok r → Accepted r
  | parse : parse s = .ok r → Accepted r
  | standard : Accepted standard

theorem ofBounds_eq_ok_iff {bs : List Binary64} {r : Ranges} :
    ofBounds bs = .ok r ↔ bs ≠ [] ∧ ascending bs ∧ r.bounds = bs := by
  cases r with
  | mk bounds =>
    rw [ofBounds]
    split
    · next h => simp [h]
    · next h =>
      split
      · next ha => simp [h, ha, eq_comm]
      · next ha => simp [ha]

theorem Accepted.bounds_ne_nil {r : Ranges} (h : Accepted r) : r.bounds ≠ [] := by
  cases h with
  | ofBounds h =>
    obtain ⟨hne, -, hb⟩ := ofBounds_eq_ok_iff.1 h
    rwa [hb]
  | parse h =>
    obtain ⟨bs, -, hb⟩ := Outcome.bind_eq_ok_iff.1 h
    obtain ⟨hne, -, hb⟩ := ofBounds_eq_ok_iff.1 hb
    rwa [hb]
  | standard => simp [Ranges.standard]

end LatencyDigest.Ranges
