import LatencyDigest.Proofs.Binary64.Rounded
import LatencyDigest.Proofs.Statistics.Sorting
import Mathlib.Algebra.Order.BigOperators.Group.List
import Mathlib.Data.List.Sort

/-! The mean of whole numbers. Where their absolute values come to at most `2 ^ 53` no partial sum is
rounded, in whatever order and with whatever signs, so the mean is the quotient of the exact sum,
rounded once; and rounding cannot put it outside the least and the greatest of them. -/

namespace LatencyDigest

open Binary64

namespace Sample

variable {vs : List Int}

theorem totalLE_ofInt {v w : Int} (h : v ≤ w) : (ofInt v).totalLE (ofInt w) :=
  totalLE_ofRatio Nat.one_pos Nat.one_pos (Int.mul_le_mul_of_nonneg_right h (by decide))

/-- Values that are sorted before they are read as numbers need not be sorted again. -/
theorem values_ofInts (vs : List Int) : (ofValues (vs.map ofInt)).values =
    (vs.mergeSort fun v w => decide (v ≤ w)).map ofInt :=
  values_ofValues_eq ((List.mergeSort_perm vs _).map _) (List.pairwise_map.2
    ((List.pairwise_mergeSort' (· ≤ ·) vs).imp totalLE_ofInt))

theorem sum_ofInts (hne : vs ≠ []) (h : (vs.map Int.natAbs).sum ≤ 2 ^ 53) :
    (ofValues (vs.map ofInt)).sum = ofInt vs.sum := by
  have hperm := List.mergeSort_perm vs fun v w => decide (v ≤ w)
  rw [sum, values_ofInts, sum_ofInt, hperm.sum_eq]
  · exact fun hnil => hne (hnil ▸ hperm).nil_eq.symm
  · rwa [(hperm.map _).sum_eq]

theorem natAbs_sum_le (vs : List Int) : vs.sum.natAbs ≤ (vs.map Int.natAbs).sum := by
  induction vs with
  | nil => rfl
  | cons v vs ih =>
    rw [List.sum_cons, List.map_cons, List.sum_cons]
    exact (Int.natAbs_add_le _ _).trans (Nat.add_le_add_left ih _)

/-- There are whole numbers, and neither their number nor what they can come to is too large to be
exact. -/
structure Exact (vs : List Int) : Prop where
  ne_nil : vs ≠ []
  length_le : vs.length ≤ 2 ^ 53
  sum_le : (vs.map Int.natAbs).sum ≤ 2 ^ 53

namespace Exact

theorem length_pos (h : Exact vs) : 0 < vs.length := List.length_pos_iff.2 h.ne_nil

theorem natAbs_sum_le (h : Exact vs) : vs.sum.natAbs ≤ 2 ^ 53 :=
  (Sample.natAbs_sum_le vs).trans h.sum_le

theorem natAbs_le (h : Exact vs) {v : Int} (hv : v ∈ vs) : v.natAbs ≤ 2 ^ 53 :=
  (List.le_sum_of_mem (List.mem_map_of_mem hv)).trans h.sum_le

theorem mean_eq (h : Exact vs) : (ofValues (vs.map ofInt)).mean =
    ofRatio (vs.sum < 0) (vs.sum.natAbs * unit) vs.length := by
  have hvalues : (ofValues (vs.map ofInt)).values ≠ [] := fun hnil => by
    have hcount := count_ofValues (vs.map ofInt)
    rw [count, hnil, List.length_map] at hcount
    exact Nat.ne_of_lt h.length_pos hcount
  rw [mean, if_neg hvalues, sum_ofInts h.ne_nil h.sum_le, count_ofValues, List.length_map,
    ofInt_div_ofNat h.natAbs_sum_le h.length_pos h.length_le]

theorem isRounded_mean (h : Exact vs) :
    (ofValues (vs.map ofInt)).mean.IsRounded vs.sum vs.length := by
  rw [h.mean_eq]
  refine isRounded_ofRatio h.length_pos (isFinite_iff.2 ?_)
  -- no larger than the sum, which is finite
  refine Nat.lt_of_le_of_lt (nearestRank_mono h.length_pos Nat.one_pos ?_)
    (rank_ofNat_lt h.natAbs_sum_le)
  exact Nat.mul_le_mul_left _ h.length_pos

theorem isNaN_mean (h : Exact vs) : (ofValues (vs.map ofInt)).mean.isNaN = false :=
  isNaN_of_isFinite h.isRounded_mean.isFinite

theorem le_mean (h : Exact vs) {lo : Int} (hlo : ∀ v ∈ vs, lo ≤ v) :
    ofInt lo ≤ (ofValues (vs.map ofInt)).mean := by
  refine ⟨isNaN_ofRatio .., h.isNaN_mean, place_le_of_totalLE ?_⟩
  rw [h.mean_eq]
  refine totalLE_ofRatio Nat.one_pos h.length_pos ?_
  have hsum := List.card_nsmul_le_sum vs lo hlo
  rw [nsmul_eq_mul, Int.mul_comm] at hsum
  rwa [Int.natCast_one, Int.mul_one]

theorem mean_le (h : Exact vs) {hi : Int} (hhi : ∀ v ∈ vs, v ≤ hi) :
    (ofValues (vs.map ofInt)).mean ≤ ofInt hi := by
  refine ⟨h.isNaN_mean, isNaN_ofRatio .., place_le_of_totalLE ?_⟩
  rw [h.mean_eq]
  refine totalLE_ofRatio h.length_pos Nat.one_pos ?_
  have hsum := List.sum_le_card_nsmul vs hi hhi
  rw [nsmul_eq_mul, Int.mul_comm] at hsum
  rwa [Int.natCast_one, Int.mul_one]

end Exact

theorem min_ofInts {lo : Int} (hm : lo ∈ vs) (hlo : ∀ v ∈ vs, lo ≤ v) :
    (ofValues (vs.map ofInt)).min = ofInt lo := by
  refine min_ofValues (List.mem_map_of_mem hm) fun y hy => ?_
  obtain ⟨v, hv, rfl⟩ := List.mem_map.1 hy
  exact totalLE_ofInt (hlo v hv)

theorem max_ofInts {hi : Int} (hm : hi ∈ vs) (hhi : ∀ v ∈ vs, v ≤ hi) :
    (ofValues (vs.map ofInt)).max = ofInt hi := by
  refine max_ofValues (List.mem_map_of_mem hm) fun y hy => ?_
  obtain ⟨v, hv, rfl⟩ := List.mem_map.1 hy
  exact totalLE_ofInt (hhi v hv)

/-! Values that are all the same. -/

theorem Exact.mean_of_equal (h : Exact vs) {v : Int} (hv : ∀ w ∈ vs, w = v) :
    (ofValues (vs.map ofInt)).mean = ofInt v := by
  rw [h.mean_eq, List.sum_eq_card_nsmul vs v hv, nsmul_eq_mul, Int.mul_comm]
  exact ofRatio_mul_self h.length_pos

theorem squaredDistance_self {x : Binary64} (hx : x.isFinite) : squaredDistance x x = zero := by
  have hscaled : x.scaled + (-x).scaled = 0 := by
    cases hs : x.negative with
    | true =>
      rw [scaled_of_negative hs, scaled_of_not_negative (by simp [hs])]
      exact Int.add_left_neg _
    | false =>
      rw [scaled_of_not_negative hs, scaled_neg_of_not_negative hs]
      exact Int.add_right_neg _
  have hzero : x - x = zero := by
    change x + -x = zero
    rw [add_eq_ofRatio hx (isFinite_neg hx), hscaled, if_pos rfl, negative_neg, Bool.and_not_self]
    rfl
  rw [squaredDistance, hzero]
  decide +kernel

theorem sum_replicate_zero {n : Nat} (hn : n ≠ 0) : Binary64.sum (.replicate n zero) = zero := by
  obtain ⟨m, rfl⟩ := Nat.exists_eq_succ_of_ne_zero hn
  have hstart : -zero + zero = zero := by decide +kernel
  have hstep : zero + zero = zero := by decide +kernel
  have hrest (k : Nat) : (List.replicate k zero).foldl (· + ·) zero = zero := by
    induction k with
    | zero => rfl
    | succ k ih => rw [List.replicate_succ, List.foldl_cons, hstep, ih]
  rw [Binary64.sum, List.replicate_succ, List.foldl_cons, hstart, hrest]

theorem deviation_of_equal {s : Sample} (hmean : s.mean.isFinite)
    (h : ∀ v ∈ s.values, v = s.mean) : s.deviation = zero := by
  rw [deviation]
  split
  · rfl
  · next hcount =>
    have hdistances : s.values.map (squaredDistance s.mean) = .replicate s.count zero := by
      refine List.eq_replicate_iff.2 ⟨List.length_map _, fun d hd => ?_⟩
      obtain ⟨v, hv, rfl⟩ := List.mem_map.1 hd
      rw [h v hv, squaredDistance_self hmean]
    have hdiv := div_ofNat (x := zero) rfl (Nat.sub_pos_of_lt (Nat.lt_of_not_le hcount))
    have hzero : zero / ofNat (s.count - 1) = zero :=
      eq_of_magnitude hdiv.2 (congrArg magnitudeAt (Nat.le_zero.1 hdiv.1))
    rw [hdistances, sum_replicate_zero (by omega)]
    simp only [hzero]
    rfl

end Sample

namespace Summary

/-- The summary of those whole numbers, as far as their sum decides it. -/
structure Averages (vs : List Int) (s : Summary) : Prop where
  count_eq : s.count = vs.length
  isRounded : s.mean.IsRounded vs.sum vs.length
  min_eq : ∀ lo ∈ vs, (∀ v ∈ vs, lo ≤ v) → s.min = ofInt lo
  max_eq : ∀ hi ∈ vs, (∀ v ∈ vs, v ≤ hi) → s.max = ofInt hi
  min_le_mean : s.min ≤ s.mean
  mean_le_max : s.mean ≤ s.max
  of_equal : ∀ v, (∀ w ∈ vs, w = v) →
    s.mean = ofInt v ∧ s.mean.scaled = v * unit ∧ s.deviation = zero

theorem averages_ofSample {vs : List Int} (h : Sample.Exact vs) :
    Averages vs (ofSample (.ofValues (vs.map ofInt))) := by
  obtain ⟨lo, hlo⟩ := Option.isSome_iff_exists.1 (List.isSome_min?_of_ne_nil h.ne_nil)
  obtain ⟨hi, hhi⟩ := Option.isSome_iff_exists.1 (List.isSome_max?_of_ne_nil h.ne_nil)
  rw [List.min?_eq_some_iff] at hlo
  rw [List.max?_eq_some_iff] at hhi
  have hcount : (Sample.ofValues (vs.map ofInt)).count = vs.length := by
    rw [Sample.count_ofValues, List.length_map]
  have hmin := h.le_mean hlo.2
  have hmax := h.mean_le hhi.2
  rw [← Sample.min_ofInts hlo.1 hlo.2] at hmin
  rw [← Sample.max_ofInts hhi.1 hhi.2] at hmax
  refine ⟨hcount, h.isRounded_mean, fun lo => Sample.min_ofInts, fun hi => Sample.max_ofInts, hmin,
    hmax, fun v hv => ?_⟩
  · have hmean := h.mean_of_equal hv
    have hmem : v ∈ vs := hv lo hlo.1 ▸ hlo.1
    refine ⟨hmean, (congrArg scaled hmean).trans (scaled_ofInt (h.natAbs_le hmem)),
      Sample.deviation_of_equal h.isRounded_mean.isFinite fun x hx => ?_⟩
    · obtain ⟨w, hw, rfl⟩ := List.mem_map.1 ((Sample.values_ofValues_perm _).mem_iff.1 hx)
      rw [hmean, hv w hw]

end Summary

namespace Table

variable {t : Table} {c : String} {vs : List Int64}

theorem sample_of_integers (hc : t.column c = .ok (.integers vs)) (hne : vs ≠ []) :
    t.sample c = .ok (.ofValues ((vs.map Int64.toInt).map ofInt)) := by
  rw [sample, floats, hc, List.map_map]
  cases vs with
  | nil => exact absurd rfl hne
  | cons v vs => rfl

theorem describe_of_sample {s : Sample} (hs : t.sample c = .ok s) :
    t.describe [c] = .ok [(c, .ofSample s)] := by
  rw [describe_cons, hs]
  rfl

/-- The summary of a column is the same whatever is described beside it. -/
theorem eq_ofSample_of_describe {s : Sample} {cs : List String} {r : List (String × Summary)}
    {u : Summary} (hs : t.sample c = .ok s) (hr : t.describe cs = .ok r) (hu : (c, u) ∈ r) :
    u = .ofSample s := by
  obtain ⟨d, -, hd⟩ := Outcome.exists_of_mem_mapM hr hu
  obtain ⟨v, hv, heq⟩ := Outcome.bind_eq_ok_iff.1 hd
  obtain ⟨rfl, rfl⟩ := Prod.mk.inj (Except.ok.inj heq)
  rw [summary_eq, hs] at hv
  exact (Except.ok.inj hv).symm

theorem describe_integers (hc : t.column c = .ok (.integers vs)) (hne : vs ≠ [])
    (hlength : vs.length ≤ 2 ^ 53) (hsum : (vs.map fun v => v.toInt.natAbs).sum ≤ 2 ^ 53) :
    ∃ s, t.describe [c] = .ok [(c, s)] ∧ s.Averages (vs.map Int64.toInt) ∧
      (∀ cs r u, t.describe cs = .ok r → (c, u) ∈ r → u = s) ∧
      ∀ (t' : Table) (c' : String) (ws : List Int64), t'.column c' = .ok (.integers ws) →
        ws.Perm vs → t'.describe [c'] = .ok [(c', s)] := by
  have hs := sample_of_integers hc hne
  have hexact : Sample.Exact (vs.map Int64.toInt) := by
    refine ⟨by simpa using hne, by simpa using hlength, ?_⟩
    rwa [List.map_map]
  refine ⟨_, describe_of_sample hs, Summary.averages_ofSample hexact,
    fun cs r u => eq_ofSample_of_describe hs, fun t' c' ws hc' hws => ?_⟩
  have hne' : ws ≠ [] := fun hnil => hne (hnil ▸ hws).nil_eq.symm
  rw [describe_of_sample (sample_of_integers hc' hne'),
    Sample.ofValues_eq_of_perm ((hws.map Int64.toInt).map ofInt)]

/-- Values of both signs that come to `2 ^ 53`, the same in another order, and values that are all
the same. -/
theorem describe_integers_mixed :
    let vs : List Int64 := [2 ^ 52, -(2 ^ 52 - 1), 1]
    let t : Table := ⟨"TCP packet", 3, [⟨"Size (B)", .integers vs⟩], by decide, by decide⟩
    let moved : Table :=
      ⟨"TCP response", 3, [⟨"RTT (ns)", .integers vs.reverse⟩], by decide, by decide⟩
    let same : Table :=
      ⟨"TCP packet", 3, [⟨"Size (B)", .integers [-7, -7, -7]⟩], by decide, by decide⟩
    (∃ s, t.describe ["Size (B)"] = .ok [("Size (B)", s)] ∧
      moved.describe ["RTT (ns)"] = .ok [("RTT (ns)", s)] ∧ s.mean.IsRounded 2 3 ∧
      s.min = ofInt (-(2 ^ 52 - 1)) ∧ s.max = ofInt (2 ^ 52) ∧ s.min ≤ s.mean ∧ s.mean ≤ s.max) ∧
    ∃ s, same.describe ["Size (B)"] = .ok [("Size (B)", s)] ∧ s.mean = ofInt (-7) ∧
      s.deviation = zero := by
  intro vs t moved same
  constructor
  · have hc : t.column "Size (B)" = .ok (.integers vs) := rfl
    obtain ⟨s, hs, haverages, -, hmoved⟩ :=
      describe_integers hc (by decide) (by decide) (by decide)
    exact ⟨s, hs, hmoved moved "RTT (ns)" vs.reverse rfl vs.reverse_perm, haverages.isRounded,
      haverages.min_eq _ (by decide) (by decide), haverages.max_eq _ (by decide) (by decide),
      haverages.min_le_mean, haverages.mean_le_max⟩
  · have hc : same.column "Size (B)" = .ok (.integers [-7, -7, -7]) := rfl
    obtain ⟨s, hs, haverages, -⟩ := describe_integers hc (by decide) (by decide) (by decide)
    obtain ⟨hmean, -, hdeviation⟩ := haverages.of_equal (-7) (by decide)
    exact ⟨s, hs, hmean, hdeviation⟩

end Table

end LatencyDigest
