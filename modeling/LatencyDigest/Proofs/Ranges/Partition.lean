import LatencyDigest.Proofs.Ranges.Bounds

/-! The buckets of ascending bounds follow one another. The labels name them and the counts count
what they hold, in one order, and no number is held by two of them or by none. -/

namespace LatencyDigest

inductive Bucket where
  | upTo (b : Binary64)
  | between (a b : Binary64)
  | above (a : Binary64)
  deriving DecidableEq

namespace Bucket

/-- A number on a bound is held by the bucket below the bound. -/
def Holds (v : Binary64) : Bucket → Prop
  | upTo b => v ≤ b
  | between a b => a < v ∧ v ≤ b
  | above a => a < v

instance (v : Binary64) : (p : Bucket) → Decidable (p.Holds v)
  | upTo b => inferInstanceAs (Decidable (v ≤ b))
  | between a b => inferInstanceAs (Decidable (a < v ∧ v ≤ b))
  | above a => inferInstanceAs (Decidable (a < v))

def label : Bucket → String
  | upTo b => "≤ " ++ b.text ++ "us"
  | between a b => a.text ++ "us < v ≤ " ++ b.text ++ "us"
  | above a => "> " ++ a.text ++ "us"

/-- The buckets above a bound. -/
def beyond (a : Binary64) : List Binary64 → List Bucket
  | [] => [above a]
  | b :: bs => between a b :: beyond b bs

def all : List Binary64 → List Bucket
  | [] => []
  | b :: bs => upTo b :: beyond b bs

/-- From everything up to the first bound to everything above the last. -/
structure Divides (bs : List Binary64) (ps : List Bucket) : Prop where
  length_eq : ps.length = bs.length + 1
  first : ∀ h : 0 < bs.length, ps[0]? = some (upTo bs[0])
  between : ∀ i, ∀ h : i + 1 < bs.length, ps[i + 1]? = some (between bs[i] bs[i + 1])
  last : ∀ h : 0 < bs.length, ps[bs.length]? = some (above bs[bs.length - 1])

theorem length_beyond (a : Binary64) (bs : List Binary64) :
    (beyond a bs).length = bs.length + 1 := by
  induction bs generalizing a with
  | nil => rfl
  | cons b bs ih => rw [beyond, List.length_cons, ih, List.length_cons]

theorem getElem?_beyond {a : Binary64} {bs : List Binary64} {i : Nat}
    (h : i + 1 < (a :: bs).length) :
    (beyond a bs)[i]? = some (between (a :: bs)[i] (a :: bs)[i + 1]) := by
  induction bs generalizing a i with
  | nil => simp at h
  | cons b bs ih =>
    cases i with
    | zero => rfl
    | succ i => exact ih (Nat.lt_of_succ_lt_succ h)

theorem getElem?_beyond_length {a : Binary64} {bs : List Binary64}
    (h : bs.length < (a :: bs).length) :
    (beyond a bs)[bs.length]? = some (above (a :: bs)[bs.length]) := by
  induction bs generalizing a with
  | nil => rfl
  | cons b bs ih => exact ih (Nat.lt_of_succ_lt_succ h)

theorem divides_all {bs : List Binary64} (h : bs ≠ []) : Divides bs (all bs) := by
  obtain ⟨b, bs, rfl⟩ := List.exists_cons_of_ne_nil h
  refine ⟨by rw [all, List.length_cons, length_beyond, List.length_cons], fun _ => rfl, ?_, ?_⟩
  · intro i hi
    exact getElem?_beyond hi
  · intro _
    exact getElem?_beyond_length (Nat.lt_succ_self _)

end Bucket

namespace Ranges

open Binary64 Bucket

theorem innerLabels_append_lastLabel (b : Binary64) (bs : List Binary64) :
    innerLabels (b :: bs) ++ lastLabel (b :: bs) = (beyond b bs).map label := by
  induction bs generalizing b with
  | nil => rfl
  | cons c bs ih => rw [innerLabels, lastLabel, List.cons_append, ih, beyond, List.map_cons, label]

theorem labels_eq_map (r : Ranges) : r.labels = (all r.bounds).map label := by
  rw [labels]
  cases r.bounds with
  | nil => rfl
  | cons b bs => rw [List.append_assoc, innerLabels_append_lastLabel, all, List.map_cons]; rfl

variable {r : Ranges} {v : Binary64} {ps : List Bucket}

theorem Sorted.lt_bucket_iff (h : r.Sorted) (v : Binary64) {j : Nat} (hj : j < r.bounds.length) :
    j < r.bucket v ↔ r.bounds[j] < v := by
  rw [bucket, lt_boundary_iff (h.parted v) hj, decide_eq_true_iff]

theorem Sorted.bucket_le_iff (h : r.Sorted) (hv : v.isNaN = false) {j : Nat}
    (hj : j < r.bounds.length) : r.bucket v ≤ j ↔ v ≤ r.bounds[j] := by
  rw [← Nat.not_lt, h.lt_bucket_iff v hj,
    ← Binary64.not_le_iff (h.isNaN _ (List.getElem_mem hj)) hv, not_not]

theorem Sorted.bucket_eq_iff (h : r.Sorted) (hv : v.isNaN = false) (hps : Divides r.bounds ps)
    {i : Nat} {p : Bucket} (hp : ps[i]? = some p) : r.bucket v = i ↔ p.Holds v := by
  have hpos : 0 < r.bounds.length := List.length_pos_iff.2 h.ne_nil
  have hi : i ≤ r.bounds.length := by
    obtain ⟨hi, -⟩ := List.getElem?_eq_some_iff.1 hp
    rw [hps.length_eq] at hi
    omega
  rcases Nat.lt_or_eq_of_le hi with hlt | rfl
  · have hupper := h.bucket_le_iff hv hlt
    cases i with
    | zero =>
      rw [hps.first hpos] at hp
      cases hp
      rw [Holds, ← hupper, Nat.le_zero]
    | succ i =>
      have hlower := h.lt_bucket_iff v (Nat.lt_of_succ_lt hlt)
      rw [hps.between i hlt] at hp
      cases hp
      rw [Holds, ← hlower, ← hupper]
      omega
  · have hlast := h.lt_bucket_iff v (Nat.sub_lt hpos Nat.one_pos)
    have hbucket := r.bucket_lt v
    rw [hps.last hpos] at hp
    cases hp
    rw [Holds, ← hlast]
    rw [bucketCount] at hbucket
    omega

theorem Sorted.count_eq_map (h : r.Sorted) {values : List Binary64}
    (hv : ∀ v ∈ values, v.isNaN = false) (hps : Divides r.bounds ps) :
    r.count values = ps.map fun p : Bucket => values.countP fun v => p.Holds v := by
  refine List.ext_getElem ?_ fun i hi hi' => ?_
  · rw [length_count, bucketCount, List.length_map, hps.length_eq]
  · have hp : i < ps.length := by rwa [List.length_map] at hi'
    rw [getElem_count, List.getElem_map]
    refine List.countP_congr fun v hvm => ?_
    rw [decide_eq_true_iff, decide_eq_true_iff]
    exact h.bucket_eq_iff (hv v hvm) hps (List.getElem?_eq_getElem hp)

theorem Sorted.exists_unique_holds (h : r.Sorted) (hv : v.isNaN = false)
    (hps : Divides r.bounds ps) : ∃! i : Nat, ∃ p, ps[i]? = some p ∧ p.Holds v := by
  have hlt : r.bucket v < ps.length := by
    rw [hps.length_eq]
    exact r.bucket_lt v
  refine ⟨r.bucket v, ⟨ps[r.bucket v], List.getElem?_eq_getElem hlt, ?_⟩, ?_⟩
  · exact (h.bucket_eq_iff hv hps (List.getElem?_eq_getElem hlt)).1 rfl
  · rintro i ⟨p, hp, hholds⟩
    exact ((h.bucket_eq_iff hv hps hp).2 hholds).symm

theorem count_by_buckets {values : List Binary64} (hr : Accepted r)
    (hn : ∀ b ∈ r.bounds, b.isNaN = false) (hv : ∀ v ∈ values, v.isNaN = false) :
    ∃ ps, Divides r.bounds ps ∧ r.labels = ps.map label ∧
      (r.count values = ps.map fun p : Bucket => values.countP fun v => p.Holds v) ∧
      (r.count values).sum = values.length ∧
      ∀ v ∈ values, ∃! i : Nat, ∃ p, ps[i]? = some p ∧ p.Holds v := by
  have hsorted : r.Sorted := hr.sorted_iff.2 hn
  have hps := divides_all hsorted.ne_nil
  refine ⟨all r.bounds, hps, labels_eq_map r, hsorted.count_eq_map hv hps, sum_count r values,
    fun v hvm => ?_⟩
  exact hsorted.exists_unique_holds (hv v hvm) hps

/-- Both infinities and both zeros, among the bounds and among the values. -/
theorem count_by_buckets_extremes :
    let r : Ranges := ⟨[-infinity, -zero, ofBits 1, infinity]⟩
    let values := [infinity, zero, ofBits 2, -infinity, -zero, ofBits 1]
    Accepted r ∧ (∀ b ∈ r.bounds, b.isNaN = false) ∧ (∀ v ∈ values, v.isNaN = false) ∧
      ∃ ps, Divides r.bounds ps ∧ r.labels = ps.map label ∧
        ([1, 2, 1, 2, 0] = ps.map fun p : Bucket => values.countP fun v => p.Holds v) ∧
        ∀ v ∈ values, ∃! i : Nat, ∃ p, ps[i]? = some p ∧ p.Holds v := by
  intro r values
  have hr : Accepted r := .ofBounds (show ofBounds r.bounds = .ok r by decide)
  have hn : ∀ b ∈ r.bounds, b.isNaN = false := by decide
  have hv : ∀ v ∈ values, v.isNaN = false := by decide
  have hcount : r.count values = [1, 2, 1, 2, 0] := by decide +kernel
  obtain ⟨ps, hps, hlabels, hmap, -, hunique⟩ := count_by_buckets hr hn hv
  exact ⟨hr, hn, hv, ps, hps, hlabels, hcount ▸ hmap, hunique⟩

end Ranges

end LatencyDigest
