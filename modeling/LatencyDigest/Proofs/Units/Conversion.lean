import LatencyDigest.Proofs.Binary64.Blend
import LatencyDigest.Proofs.Binary64.TotalOrder
import LatencyDigest.Proofs.Statistics.Sample
import LatencyDigest.Proofs.Table.Normalize
import LatencyDigest.Proofs.Units

/-! What nanoseconds keep on their way to microseconds: their order, over the whole range, and up to
`2 ^ 50` all that they tell, since the way back ends less than half a nanosecond from where it
began. -/

namespace LatencyDigest

namespace Binary64

/-- The number is closer to that whole number than to every other one. -/
def ClosestTo (x : Binary64) (i : Int) : Prop :=
  x.isFinite ∧ ∀ k : Int, k ≠ i → (x.scaled - i * unit).natAbs < (x.scaled - k * unit).natAbs

theorem ClosestTo.unique {x : Binary64} {i j : Int} (hi : x.ClosestTo i) (hj : x.ClosestTo j) :
    i = j := by
  refine Classical.byContradiction fun hne => ?_
  exact Nat.lt_asymm (hi.2 j (Ne.symm hne)) (hj.2 i hne)

theorem closestTo_of_lt {x : Binary64} {i : Int} (hx : x.isFinite)
    (h : 2 * (x.scaled - i * unit).natAbs < unit) : x.ClosestTo i := by
  refine ⟨hx, fun k hk => ?_⟩
  have hstep : unit ≤ ((i - k) * unit).natAbs := by
    rw [Int.natAbs_mul, Int.natAbs_natCast]
    exact Nat.le_mul_of_pos_left unit (Int.natAbs_pos.2 (sub_ne_zero.2 (Ne.symm hk)))
  have hsplit : x.scaled - k * unit = (x.scaled - i * unit) + (i - k) * unit := by ring
  omega

/-- So far below the largest numbers the two roundings move less than half of one. -/
theorem round_trip_error {n : Nat} (h : n ≤ 2 ^ 50) :
    let there := nearestRank (n * unit) 1000
    let back := nearestRank (1000 * magnitudeAt there) 1
    back < infinityRank ∧ 2 * magnitudeAt back < 2 * (n * unit) + unit ∧
      2 * (n * unit) < 2 * magnitudeAt back + unit := by
  intro there back
  have hn : n * unit ≤ 2 ^ 50 * unit := Nat.mul_le_mul_right unit h
  obtain ⟨c, hc, hlow, hcstep⟩ : ∃ c < infinityRank, 2 ^ 50 * unit < 1000 * magnitudeAt (c + 1) ∧
      2 * (1000 * 2 ^ exponentAt c) < unit := ⟨powerRank 1063 - 1, by decide +kernel⟩
  obtain ⟨b, hb, hhigh, hbstep⟩ : ∃ b < infinityRank - 1,
      (2 ^ 50 + 1) * unit < 1 * magnitudeAt (b + 1) ∧ 2 * (1 * 2 ^ exponentAt b) < unit :=
    ⟨powerRank 1073 - 1, by decide +kernel⟩
  have hthere := two_mul_magnitudeAt_nearestRank_le (by decide) hc (Nat.lt_of_le_of_lt hn hlow)
  have hthere' := two_mul_le_magnitudeAt_nearestRank (by decide) hc (Nat.lt_of_le_of_lt hn hlow)
  change 2 * (1000 * magnitudeAt there) ≤ _ at hthere
  change _ ≤ 2 * (1000 * magnitudeAt there) + _ at hthere'
  have hproduct : 1000 * magnitudeAt there < 1 * magnitudeAt (b + 1) := by omega
  have hback := two_mul_magnitudeAt_nearestRank_le Nat.one_pos (by omega) hproduct
  have hback' := two_mul_le_magnitudeAt_nearestRank Nat.one_pos (by omega) hproduct
  change 2 * (1 * magnitudeAt back) ≤ _ at hback
  change _ ≤ 2 * (1 * magnitudeAt back) + _ at hback'
  have hfinite : back ≤ b + 1 :=
    nearestRank_le_of_le Nat.one_pos (by omega) (Nat.le_of_lt hproduct)
  omega

end Binary64

open Binary64

/-- Numbers may come together, but never in the wrong order. -/
theorem totalLE_nanosToMicros {i j : Int64} (h : i ≤ j) :
    (nanosToMicros (.ofInt i.toInt)).totalLE (nanosToMicros (.ofInt j.toInt)) := by
  have hrank {m n : Nat} (hmn : m ≤ n) : nearestRank (ofNat m).magnitude 1000 ≤
      nearestRank (ofNat n).magnitude 1000 :=
    nearestRank_mono (by decide) (by decide) (Nat.mul_le_mul_right _ (magnitude_ofNat_mono hmn))
  rw [Int64.le_iff_toInt_le] at h
  rw [nanosToMicros_ofInt, nanosToMicros_ofInt]
  refine totalLE_of_rank (fun hj => ?_) fun hi => hrank ?_
  · have hj := of_decide_eq_true hj
    exact ⟨decide_eq_true (by omega), hrank (by omega)⟩
  · have hi := of_decide_eq_false hi
    omega

theorem microsToNanos_nanosToMicros (i : Int64) (h : i.toInt.natAbs ≤ 2 ^ 50) :
    microsToNanos (nanosToMicros (.ofInt i.toInt)) = ofRatio (i.toInt < 0)
      (1000 * magnitudeAt (nearestRank (i.toInt.natAbs * unit) 1000)) 1 := by
  have hfinite := isFinite_of_rank_le (rank_nanosToMicros_le i) (by decide)
  have hthousand : nanosPerMicro.magnitude = 1000 * unit := magnitude_ofNat (by decide)
  rw [microsToNanos, mul_eq_ofRatio hfinite (by decide +kernel), nanosToMicros_ofInt, hthousand,
    magnitude_ofNat (h.trans (by decide))]
  change ofRatio (decide (i.toInt < 0) != false) _ unit = _
  rw [Bool.bne_false]
  refine ofRatio_congr _ unit_pos Nat.one_pos ?_
  change magnitudeAt (nearestRank _ 1000) * (1000 * unit) * 1 = _
  ring

theorem closestTo_round_trip {i : Int64} (h : i.toInt.natAbs ≤ 2 ^ 50) :
    (microsToNanos (nanosToMicros (.ofInt i.toInt))).ClosestTo i.toInt := by
  obtain ⟨hfinite, hup, hlow⟩ := round_trip_error h
  rw [microsToNanos_nanosToMicros i h]
  refine closestTo_of_lt (isFinite_iff.2 hfinite) ?_
  have habs : ((i.toInt.natAbs * unit : Nat) : Int) = i.toInt.natAbs * unit := Int.natCast_mul _ _
  rcases Int.lt_or_le i.toInt 0 with hi | hi
  · rw [scaled_of_negative (decide_eq_true hi)]
    rw [Int.ofNat_natAbs_of_nonpos (Int.le_of_lt hi), Int.neg_mul] at habs
    change 2 * (-(magnitudeAt (nearestRank _ 1) : Int) - _).natAbs < unit
    omega
  · rw [scaled_of_not_negative (decide_eq_false (Int.not_lt.2 hi))]
    rw [Int.natAbs_of_nonneg hi] at habs
    change 2 * ((magnitudeAt (nearestRank _ 1) : Int) - _).natAbs < unit
    omega

theorem nanosToMicros_injective {i j : Int64} (hi : i.toInt.natAbs ≤ 2 ^ 50)
    (hj : j.toInt.natAbs ≤ 2 ^ 50)
    (h : nanosToMicros (.ofInt i.toInt) = nanosToMicros (.ofInt j.toInt)) : i = j := by
  have hback := closestTo_round_trip hi
  rw [h] at hback
  exact Int64.toInt_inj.1 (hback.unique (closestTo_round_trip hj))

theorem pairwise_mergeSort_nanos (ns : List Int64) : ns.mergeSort.Pairwise (· ≤ ·) := by
  have htrans : ∀ i j k : Int64, decide (i ≤ j) → decide (j ≤ k) → decide (i ≤ k) := by
    simpa using fun _ _ _ => Int64.le_trans
  have htotal : ∀ i j : Int64, decide (i ≤ j) || decide (j ≤ i) := by
    simpa using Int64.le_total
  simpa using List.pairwise_mergeSort htrans htotal ns

namespace Sample

/-- To sort the nanoseconds and to sort the microseconds comes to the same. -/
theorem values_of_nanos (ns : List Int64) :
    (ofValues (ns.map fun i => nanosToMicros (.ofInt i.toInt))).values =
      ns.mergeSort.map fun i => nanosToMicros (.ofInt i.toInt) :=
  values_ofValues_eq ((List.mergeSort_perm ns _).map _)
    (List.pairwise_map.2 ((pairwise_mergeSort_nanos ns).imp totalLE_nanosToMicros))

end Sample

theorem conversion_faithful :
    (∀ (t : Table) (source derived : String) (ns : List Int64),
      t.column source = .ok (.integers ns) →
      (∃ u, t.normalize [(source, derived)] = (u, none)) ∧
      ∀ (before after : List (String × String)) (u : Table),
        source ∉ before.map Prod.snd → derived ∉ after.map Prod.snd →
        t.normalize (before ++ (source, derived) :: after) = (u, none) →
        ∃ micros, u.floats derived = .ok micros ∧
          (Sample.ofValues micros).values =
            ns.mergeSort.map (fun i => nanosToMicros (.ofInt i.toInt)) ∧
          ∀ lo ∈ ns, ∀ hi ∈ ns, (∀ n ∈ ns, lo ≤ n ∧ n ≤ hi) →
            (Sample.ofValues micros).min = nanosToMicros (.ofInt lo.toInt) ∧
              (Sample.ofValues micros).max = nanosToMicros (.ofInt hi.toInt)) ∧
    (∀ i : Int64, i.toInt.natAbs ≤ 2 ^ 50 →
      (microsToNanos (nanosToMicros (.ofInt i.toInt))).ClosestTo i.toInt) ∧
    ∀ i j : Int64, i.toInt.natAbs ≤ 2 ^ 50 → j.toInt.natAbs ≤ 2 ^ 50 →
      nanosToMicros (.ofInt i.toInt) = nanosToMicros (.ofInt j.toInt) → i = j := by
  refine ⟨fun t source derived ns hs => ?_, fun i => closestTo_round_trip,
    fun i j => nanosToMicros_injective⟩
  rw [Table.column_eq_ok_iff] at hs
  constructor
  · have hmem : source ∈ t.columnNames := List.mem_map_of_mem (Column.mem_of_find? hs)
    exact Table.exists_normalize (by simpa using hmem)
  · intro before after u hb ha hu
    refine ⟨_, Table.floats_of_derived (Table.find?_normalize hu hs hb ha),
      Sample.values_of_nanos ns, fun lo hlo hi hhi hall => ⟨?_, ?_⟩⟩
    · refine Sample.min_ofValues (List.mem_map_of_mem hlo) fun y hy => ?_
      obtain ⟨n, hn, rfl⟩ := List.mem_map.1 hy
      exact totalLE_nanosToMicros (hall n hn).1
    · refine Sample.max_ofValues (List.mem_map_of_mem hhi) fun y hy => ?_
      obtain ⟨n, hn, rfl⟩ := List.mem_map.1 hy
      exact totalLE_nanosToMicros (hall n hn).2

/-- The least and the greatest, two that are converted to one number, and the last that is sure to
come back. -/
theorem conversion_faithful_extremes :
    let ns := [Int64.maxValue, 0, Int64.minValue, Int64.maxValue - 1]
    let t : Table :=
      ⟨"TCP response", 4, [⟨LogKind.reply.nanos, .integers ns⟩], by decide, by decide⟩
    let last : Int64 := 2 ^ 50
    (∃ u micros, t.normalizeLog .response = (u, none) ∧ u.floats LogKind.reply.micros = .ok micros ∧
      (Sample.ofValues micros).values = [Int64.minValue, 0, Int64.maxValue - 1, Int64.maxValue].map
        (fun i => nanosToMicros (.ofInt i.toInt)) ∧
      (Sample.ofValues micros).min = nanosToMicros (.ofInt Int64.minValue.toInt) ∧
      (Sample.ofValues micros).max = nanosToMicros (.ofInt Int64.maxValue.toInt)) ∧
    (microsToNanos (nanosToMicros (.ofInt last.toInt))).ClosestTo last.toInt ∧
    nanosToMicros (.ofInt last.toInt) ≠ nanosToMicros (.ofInt (last - 1).toInt) := by
  intro ns t last
  obtain ⟨htables, hback, hapart⟩ := conversion_faithful
  obtain ⟨⟨u, hu⟩, hmicros⟩ := htables t LogKind.reply.nanos LogKind.reply.micros ns rfl
  obtain ⟨micros, hm, hvalues, hextremes⟩ := hmicros [] [] u (by decide) (by decide) hu
  obtain ⟨hmin, hmax⟩ :=
    hextremes Int64.minValue (by decide) Int64.maxValue (by decide)
      fun n _ => ⟨n.minValue_le, n.le_maxValue⟩
  have hsorted : ns.mergeSort = [Int64.minValue, 0, Int64.maxValue - 1, Int64.maxValue] :=
    List.Perm.eq_of_pairwise (fun _ _ _ _ => Int64.le_antisymm) (pairwise_mergeSort_nanos ns)
      (by decide) ((List.mergeSort_perm ns _).trans (by decide))
  refine ⟨⟨u, micros, hu, hm, hvalues.trans (congrArg _ hsorted), hmin, hmax⟩,
    hback last (by decide), fun h => ?_⟩
  exact absurd (hapart last (last - 1) (by decide) (by decide) h) (by decide)

end LatencyDigest
