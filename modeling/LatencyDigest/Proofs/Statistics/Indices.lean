import LatencyDigest.Proofs.Statistics.Percentile

/-! Where a percentile is read, for any percentile: at one index or at two neighbours. They leave
the list exactly if the percentile is above 100 and there are two values or more, since a number
just above 100 is still above one after the division, and then the rank is above the last index by
a step or more. -/

namespace LatencyDigest

namespace Binary64

theorem ceilIndex_le_floorIndex_succ (x : Binary64) : x.ceilIndex ≤ x.floorIndex + 1 := by
  rw [floorIndex, ceilIndex]
  split
  · exact Nat.zero_le _
  · split
    · exact Nat.le_succ _
    · have hdiv : (x.magnitude + unit - 1) / unit ≤ x.magnitude / unit + 1 := by
        rw [← Nat.add_div_right _ unit_pos]
        exact Nat.div_le_div_right (Nat.sub_le _ _)
      omega

theorem lt_ceilIndex {x : Binary64} {n : Nat} (hx : x.isNaN = false) (hs : x.negative = false)
    (hn : n < maxIndex) (h : n * unit < x.magnitude) : n < x.ceilIndex := by
  rw [ceilIndex, if_neg (by simp [hx, hs])]
  split
  · exact hn
  · refine lt_min ?_ hn
    have hdiv : n + 1 ≤ (x.magnitude + unit - 1) / unit := by
      rw [Nat.le_div_iff_mul_le unit_pos, Nat.succ_mul]
      omega
    exact hdiv

/-- What is read at the index `0` for its sign, or for being a NaN. -/
def IsBelow (x : Binary64) : Prop := x.isNaN = true ∨ x.negative = true

theorem IsBelow.floorIndex {x : Binary64} (h : x.IsBelow) : x.floorIndex = 0 :=
  if_pos (Bool.or_eq_true_iff.2 h)

theorem IsBelow.ceilIndex {x : Binary64} (h : x.IsBelow) : x.ceilIndex = 0 :=
  if_pos (Bool.or_eq_true_iff.2 h)

theorem isNaN_quiet {x : Binary64} (h : x.isNaN) : x.quiet.isNaN :=
  decide_eq_true (Nat.lt_of_lt_of_le (of_decide_eq_true h) Nat.left_le_or)

section
variable {x y z : Binary64}

theorem IsBelow.orNaN (hx : x.IsBelow) (hy : y.isNaN = false)
    (hz : x.negative = true → z.IsBelow) : (orNaN x y z).IsBelow := by
  rw [Binary64.orNaN, hy]
  split
  · next h => exact .inl (isNaN_quiet h)
  · next h => exact hz (hx.resolve_left h)

theorem IsBelow.mul (hx : x.IsBelow) (hy : y.isNaN = false) (hs : y.negative = false) :
    (x * y).IsBelow := by
  refine hx.orNaN hy fun h => ?_
  rw [h, hs]
  split
  · split
    · exact .inl rfl
    · exact .inr rfl
  · exact .inr rfl

theorem IsBelow.div (hx : x.IsBelow) (hy : y.isNaN = false) (hs : y.negative = false) :
    (x / y).IsBelow := by
  refine hx.orNaN hy fun h => ?_
  rw [h, hs]
  split
  · split
    · exact .inl rfl
    · exact .inr rfl
  · split
    · exact .inr rfl
    · split
      · split
        · exact .inl rfl
        · exact .inr rfl
      · exact .inr rfl

theorem isInfinite_of_le (hx : x.isNaN = false) (h : infinityRank ≤ x.rank) :
    x.isInfinite = true := by
  have hle : ¬infinityRank < x.rank := of_decide_eq_false hx
  exact decide_eq_true (Nat.le_antisymm (Nat.le_of_not_lt hle) h)

theorem isZero_of_isInfinite (h : x.isInfinite) : x.isZero = false := by
  have hrank : x.rank = infinityRank := of_decide_eq_true h
  exact decide_eq_false (by rw [hrank]; decide)

theorem mul_eq_infinity (hx : x.isNaN = false) (hy : y.isNaN = false)
    (hi : (x.isInfinite || y.isInfinite) = true) (hzx : x.isZero = false) (hzy : y.isZero = false)
    (hs : x.negative = false) (ht : y.negative = false) : x * y = infinity := by
  change mul x y = _
  simp only [mul, orNaN, hx, hy, hi, hzx, hzy, hs, ht, Bool.false_eq_true, if_false, if_true,
    Bool.or_false, bne_self_eq_false]
  rfl

end

/-! The quotient of a percentile and 100. -/

theorem magnitude_hundred : (ofNat 100).magnitude = 100 * unit := magnitude_ofNat (by decide)

theorem div_hundred {p : Binary64} (hp : p.isFinite) (hs : p.negative = false) :
    p / ofNat 100 = ofRatio false (p.magnitude * unit) (100 * unit) := by
  rw [div_eq_ofRatio hp (isFinite_ofNat (by decide)) (by decide +kernel), hs, magnitude_hundred]
  rfl

/-- A number that is above one by a step or more. -/
structure AboveOne (q : Binary64) : Prop where
  isNaN : q.isNaN = false
  negative : q.negative = false
  rank_lt : (ofNat 1).rank < q.rank

/-- The number right above 100 is taken to the one right above one. -/
theorem aboveOne_div_hundred {p : Binary64} (h : ofNat 100 < p) : AboveOne (p / ofNat 100) := by
  have hnan : p.isNaN = false := h.2.1
  have hs : p.negative = false := by
    refine Bool.eq_false_iff.2 fun hs => not_lt_of_negative rfl hs h
  have hrank : (ofNat 100).rank < p.rank :=
    (lt_iff_rank_lt (isNaN_ofNat 100) hnan rfl hs).1 h
  rcases Nat.lt_or_ge p.rank infinityRank with hlt | hge
  · have hstep : (ofNat 1).rank <
        nearestRank (magnitudeAt ((ofNat 100).rank + 1) * unit) (100 * unit) := by
      decide +kernel
    have hpos : 0 < 100 * unit := Nat.mul_pos (by decide) unit_pos
    rw [div_hundred (isFinite_iff.2 hlt) hs]
    refine ⟨isNaN_ofRatio .., rfl, Nat.lt_of_lt_of_le hstep ?_⟩
    have hmagnitude : magnitudeAt ((ofNat 100).rank + 1) ≤ p.magnitude :=
      magnitudeAt_succ_le hrank
    exact nearestRank_mono hpos hpos (Nat.mul_le_mul_right _ (Nat.mul_le_mul_right _ hmagnitude))
  · have hinfinite := isInfinite_of_le hnan hge
    have hdiv : p / ofNat 100 = infinity := by
      change div p (ofNat 100) = _
      simp only [div, orNaN, hnan, isNaN_ofNat, hinfinite, hs, Bool.false_eq_true, if_false,
        if_true]
      decide +kernel
    rw [hdiv]
    exact ⟨rfl, rfl, rank_ofNat_lt (by decide)⟩

/-- Among whole numbers of 53 bits a factor above one counts for a step or more. -/
theorem lt_ceilIndex_mul_ofNat {q : Binary64} (hq : AboveOne q) {n : Nat} (hn : 0 < n)
    (h : n ≤ 2 ^ 53) : n < (q * ofNat n).ceilIndex := by
  have hmax : n < maxIndex := Nat.lt_of_le_of_lt h (by decide +kernel)
  have hfinite : (ofNat n).isFinite := isFinite_ofNat_of_le h
  rcases Nat.lt_or_ge q.rank infinityRank with hlt | hge
  · have hone : (ofNat 1).rank ≤ (ofNat n).rank := rank_ofNat_mono hn
    have hnormal : 2 ^ 52 ≤ (ofNat n).rank := Nat.le_trans (by decide +kernel) hone
    have hstep : unit * (2 ^ 52 + 1) ≤ 2 ^ 52 * q.magnitude := by
      refine Nat.le_trans ?_ (Nat.mul_le_mul_left _ (magnitudeAt_succ_le hq.rank_lt))
      decide +kernel
    have hrank : (ofNat n).rank < (q * ofNat n).rank := by
      rw [mul_eq_ofRatio (isFinite_iff.2 hlt) hfinite]
      refine le_nearestRank_of_le unit_pos (isFinite_iff.1 hfinite) ?_
      exact mul_le_of_step (c := 2 ^ 52) (by decide) hstep (magnitudeAt_succ_mul_le hnormal)
    have hmagnitude := magnitudeAt_lt_iff.2 hrank
    refine lt_ceilIndex ?_ ?_ hmax ?_
    · rw [mul_eq_ofRatio (isFinite_iff.2 hlt) hfinite]
      exact isNaN_ofRatio ..
    · rw [mul_eq_ofRatio (isFinite_iff.2 hlt) hfinite, hq.negative]
      rfl
    · rw [← magnitude_ofNat h]
      exact hmagnitude
  · have hinfinite := isInfinite_of_le hq.isNaN hge
    have hone : 0 < (ofNat 1).rank := by decide +kernel
    have hzero : (ofNat n).isZero = false :=
      decide_eq_false (Nat.ne_of_gt (Nat.lt_of_lt_of_le hone (rank_ofNat_mono hn)))
    rw [mul_eq_infinity hq.isNaN (isNaN_ofNat n) (by rw [hinfinite]; rfl)
      (isZero_of_isInfinite hinfinite) hzero hq.negative rfl]
    exact hmax

theorem ceilIndex_mul_ofNat_zero (q : Binary64) : (q * ofNat 0).ceilIndex = 0 := by
  have hzero : (ofNat 0).magnitude = 0 := (magnitude_ofNat (by decide)).trans (Nat.zero_mul _)
  by_cases hbelow : q.IsBelow
  · exact (hbelow.mul (isNaN_ofNat 0) rfl).ceilIndex
  · obtain ⟨hnan, hs⟩ := not_or.1 hbelow
    rw [Bool.not_eq_true] at hnan hs
    rcases Nat.lt_or_ge q.rank infinityRank with hlt | hge
    · have hrank : (q * ofNat 0).rank = 0 := by
        rw [mul_eq_ofRatio (isFinite_iff.2 hlt) (isFinite_ofNat (by decide)), hzero]
        exact Nat.le_zero.1 (nearestRank_le_of_le unit_pos (by decide) (Nat.zero_le _))
      refine Nat.le_zero.1 (ceilIndex_le (isFinite_iff.2 ?_) ?_)
      · rw [hrank]
        decide
      · rw [magnitude, hrank, magnitudeAt_zero]
        exact Nat.zero_le _
    · have hinfinite := isInfinite_of_le hnan hge
      have hproduct : q * ofNat 0 = nan := by
        change mul q (ofNat 0) = _
        have hzero : (ofNat 0).isZero = true := by decide +kernel
        simp only [mul, orNaN, hnan, isNaN_ofNat, hinfinite, hzero, Bool.false_eq_true, if_false,
          Bool.true_or, Bool.or_true, if_true]
      rw [hproduct]
      rfl

/-- A percentile of at most 100 that is a number and has no sign. -/
theorem ceilIndex_div_hundred_mul_le {p : Binary64} (hp : p.isNaN = false)
    (hs : p.negative = false) (h : ¬ofNat 100 < p) {n : Nat} (hn : n ≤ 2 ^ 53) :
    (p / ofNat 100 * ofNat n).ceilIndex ≤ n := by
  have hrank : p.rank ≤ (ofNat 100).rank := by
    rw [← Nat.not_lt, ← lt_iff_rank_lt (isNaN_ofNat 100) hp rfl hs]
    exact h
  have hfinite : (ofNat n).isFinite := isFinite_ofNat_of_le hn
  have hpfinite : p.isFinite :=
    isFinite_iff.2 (Nat.lt_of_le_of_lt hrank (rank_ofNat_lt (by decide)))
  have honefinite := rank_ofNat_lt (n := 1) (by decide)
  have hone : (p / ofNat 100).rank ≤ (ofNat 1).rank := by
    rw [div_hundred hpfinite hs]
    refine nearestRank_le_of_le (Nat.mul_pos (by decide) unit_pos) honefinite ?_
    rw [← magnitude_hundred, Nat.mul_comm (ofNat 100).magnitude]
    exact (Nat.mul_comm _ _).le.trans
      (Nat.mul_le_mul magnitude_one.ge (magnitudeAt_le_iff.2 hrank))
  have hqfinite : (p / ofNat 100).isFinite := isFinite_iff.2 (Nat.lt_of_le_of_lt hone honefinite)
  have hproduct : (p / ofNat 100 * ofNat n).rank ≤ (ofNat n).rank := by
    rw [mul_eq_ofRatio hqfinite hfinite]
    refine nearestRank_le_of_le unit_pos (isFinite_iff.1 hfinite) ?_
    refine Nat.mul_le_mul_right _ ?_
    rw [← magnitude_one]
    exact magnitudeAt_le_iff.2 hone
  refine ceilIndex_le ?_ ?_
  · exact isFinite_iff.2 (Nat.lt_of_le_of_lt hproduct (isFinite_iff.1 hfinite))
  · rw [← magnitude_ofNat hn]
    exact magnitudeAt_le_iff.2 hproduct

end Binary64

open Binary64

theorem valueAt_of_eq {values : List Binary64} {rank : Binary64} {i : Nat}
    (hf : rank.floorIndex = i) (hc : rank.ceilIndex = i) : valueAt values rank = values[i]? := by
  rw [valueAt, hf, hc]
  exact if_pos rfl

theorem valueAt_eq_none {values : List Binary64} {rank : Binary64}
    (h : values.length ≤ rank.ceilIndex) : valueAt values rank = none := by
  have hhigh : values[rank.ceilIndex]? = none := List.getElem?_eq_none h
  rw [valueAt]
  split
  · next heq => rw [heq, hhigh]
  · rw [hhigh]
    cases values[rank.floorIndex]? <;> rfl

theorem Binary64.IsBelow.percentileRank {p : Binary64} (h : p.IsBelow) (n : Nat) :
    (percentileRank n p).IsBelow :=
  (h.div (isNaN_ofNat 100) rfl).mul (isNaN_ofNat n) rfl

theorem ceilIndex_percentileRank_le {p : Binary64} {n : Nat} (hn : n ≤ 2 ^ 53)
    (h : ¬(ofNat 100 < p ∧ 0 < n)) : (percentileRank n p).ceilIndex ≤ n := by
  by_cases hbelow : p.IsBelow
  · rw [(hbelow.percentileRank n).ceilIndex]
    exact Nat.zero_le n
  · obtain ⟨hnan, hs⟩ := not_or.1 hbelow
    rw [Bool.not_eq_true] at hnan hs
    rcases Nat.eq_zero_or_pos n with rfl | hpos
    · exact Nat.le_of_eq (ceilIndex_mul_ofNat_zero _)
    · exact ceilIndex_div_hundred_mul_le hnan hs (fun hp => h ⟨hp, hpos⟩) hn

theorem percentile_eq_none_iff {values : List Binary64} (hne : values ≠ [])
    (hlen : values.length ≤ 2 ^ 53) (p : Binary64) :
    percentile values p = none ↔ ofNat 100 < p ∧ 2 ≤ values.length := by
  have hpos := List.length_pos_iff.2 hne
  rw [percentile_eq_valueAt hne]
  constructor
  · intro hnone
    refine Classical.byContradiction fun h => ?_
    have hle : (percentileRank (values.length - 1) p).ceilIndex ≤ values.length - 1 :=
      ceilIndex_percentileRank_le (by omega) fun hp => h ⟨hp.1, by omega⟩
    obtain ⟨v, hv⟩ : ∃ v, valueAt values (percentileRank (values.length - 1) p) = some v :=
      exists_valueAt (Nat.lt_of_le_sub_one hpos hle)
    rw [hnone] at hv
    cases hv
  · rintro ⟨hp, htwo⟩
    have hlt := lt_ceilIndex_mul_ofNat (aboveOne_div_hundred hp) (n := values.length - 1)
      (by omega) (by omega)
    exact valueAt_eq_none (by rw [percentileRank]; omega)

theorem Binary64.IsBelow.percentile_eq {p : Binary64} (h : p.IsBelow) (values : List Binary64)
    (hne : values ≠ []) : percentile values p = values.head? := by
  have hrank := h.percentileRank (values.length - 1)
  rw [percentile_eq_valueAt hne, valueAt_of_eq hrank.floorIndex hrank.ceilIndex,
    List.head?_eq_getElem?]

/-! Ranks that are whole numbers. -/

namespace Binary64

theorem floorIndex_ofNat {n : Nat} (h : n ≤ 2 ^ 53) : (ofNat n).floorIndex = n := by
  have hfinite : (ofNat n).isFinite := isFinite_ofNat_of_le h
  have hmax : n ≤ maxIndex := Nat.le_trans h (by decide +kernel)
  rw [floorIndex, isNaN_ofNat, isInfinite_of_isFinite hfinite, magnitude_ofNat h,
    Nat.mul_div_cancel _ unit_pos]
  exact min_eq_left hmax

theorem ceilIndex_ofNat {n : Nat} (h : n ≤ 2 ^ 53) : (ofNat n).ceilIndex = n := by
  have hfinite : (ofNat n).isFinite := isFinite_ofNat_of_le h
  refine Nat.le_antisymm (ceilIndex_le hfinite (magnitude_ofNat h).le) ?_
  exact (floorIndex_ofNat h).ge.trans (floorIndex_le_ceilIndex _)

theorem one_mul_ofNat {n : Nat} (h : n ≤ 2 ^ 64) : ofNat 1 * ofNat n = ofNat n := by
  have hfinite : (ofNat n).isFinite := isFinite_ofNat h
  rw [mul_eq_ofRatio (isFinite_ofNat (by decide)) hfinite, magnitude_one]
  have hrank : nearestRank (unit * (ofNat n).magnitude) unit = (ofNat n).rank :=
    nearestRank_unit_mul (isFinite_iff.1 hfinite)
  simp only [ofRatio, hrank]
  rfl

theorem zero_mul_ofNat {n : Nat} (h : n ≤ 2 ^ 64) : zero * ofNat n = zero := by
  have hzero : zero.magnitude * (ofNat n).magnitude = 0 := Nat.zero_mul _
  rw [mul_eq_ofRatio rfl (isFinite_ofNat h), hzero]
  change ofRatio false 0 unit = zero
  decide +kernel

/-- Of the numbers up to zero all but zero itself have a sign. -/
theorem isBelow_or_eq_zero {x : Binary64} (h : x ≤ zero) : x.IsBelow ∨ x = zero := by
  obtain ⟨negative, rank, hrank⟩ := x
  cases negative with
  | true => exact .inl (.inr rfl)
  | false =>
    have hplace : (rank : Int) ≤ 0 := h.2.2
    have hzero : rank = 0 := by omega
    subst hzero
    exact .inr rfl

end Binary64

theorem valueAt_ofNat (values : List Binary64) {n : Nat} (h : n ≤ 2 ^ 53) :
    valueAt values (ofNat n) = values[n]? :=
  valueAt_of_eq (floorIndex_ofNat h) (ceilIndex_ofNat h)

theorem percentile_zero {values : List Binary64} (hne : values ≠ [])
    (hlen : values.length ≤ 2 ^ 53) : percentile values zero = values.head? := by
  have hquotient : zero / ofNat 100 = zero := by decide +kernel
  rw [percentile_eq_valueAt hne, percentileRank, hquotient, zero_mul_ofNat (by omega),
    valueAt_of_eq (i := 0) (by decide +kernel) (by decide +kernel), List.head?_eq_getElem?]

theorem percentile_hundred {values : List Binary64} (hne : values ≠ [])
    (hlen : values.length ≤ 2 ^ 53) : percentile values (ofNat 100) = values.getLast? := by
  have hquotient : ofNat 100 / ofNat 100 = ofNat 1 := by decide +kernel
  rw [percentile_eq_valueAt hne, percentileRank, hquotient, one_mul_ofNat (by omega),
    valueAt_ofNat values (by omega), List.getLast?_eq_getElem?]

/-- An index beyond the list is read exactly above 100 in two values or more. Else the indices are
neighbours or the same, and at the ends of the scale stand the ends of the list. -/
theorem percentile_reads {values : List Binary64} (hne : values ≠ [])
    (hlen : values.length ≤ 2 ^ 53) (p : Binary64) :
    (percentile values p = none ↔ ofNat 100 < p ∧ 2 ≤ values.length) ∧
      (¬(ofNat 100 < p ∧ 2 ≤ values.length) →
        (percentileRank (values.length - 1) p).floorIndex ≤
            (percentileRank (values.length - 1) p).ceilIndex ∧
          (percentileRank (values.length - 1) p).ceilIndex ≤
            (percentileRank (values.length - 1) p).floorIndex + 1 ∧
          (percentileRank (values.length - 1) p).ceilIndex ≤ values.length - 1) ∧
      (p.isNaN ∨ p ≤ zero → percentile values p = values.head?) ∧
      (p = ofNat 100 → percentile values p = values.getLast?) := by
  refine ⟨percentile_eq_none_iff hne hlen p, fun h => ?_, fun h => ?_, ?_⟩
  · refine ⟨floorIndex_le_ceilIndex _, ceilIndex_le_floorIndex_succ _, ?_⟩
    exact ceilIndex_percentileRank_le (by omega) fun hp => h ⟨hp.1, by omega⟩
  · have hbelow : p.IsBelow ∨ p = zero := h.elim (fun h => .inl (.inl h)) isBelow_or_eq_zero
    rcases hbelow with hbelow | rfl
    · exact hbelow.percentile_eq values hne
    · exact percentile_zero hne hlen
  · rintro rfl
    exact percentile_hundred hne hlen

/-- The percentile right above 100, of two values. -/
theorem percentile_reads_beyond :
    let values := [ofNat 1, ofNat 2]
    let p : Binary64 := ⟨false, (ofNat 100).rank + 1, by decide +kernel⟩
    values ≠ [] ∧ values.length ≤ 2 ^ 53 ∧
      (percentile values p = none ↔ ofNat 100 < p ∧ 2 ≤ values.length) ∧
      (¬(ofNat 100 < p ∧ 2 ≤ values.length) →
        (percentileRank (values.length - 1) p).floorIndex ≤
            (percentileRank (values.length - 1) p).ceilIndex ∧
          (percentileRank (values.length - 1) p).ceilIndex ≤
            (percentileRank (values.length - 1) p).floorIndex + 1 ∧
          (percentileRank (values.length - 1) p).ceilIndex ≤ values.length - 1) ∧
      (p.isNaN ∨ p ≤ zero → percentile values p = values.head?) ∧
      (p = ofNat 100 → percentile values p = values.getLast?) := by
  intro values p
  exact ⟨by decide, by decide, percentile_reads (by decide) (by decide) p⟩

end LatencyDigest
