import LatencyDigest.Proofs.Binary64.Operations
import LatencyDigest.Statistics.Percentile

/-! The indices that a percentile is read at. For a percentile that is well below 100 both of them
are in the list, however long it is, though the rank is rounded three times. -/

namespace LatencyDigest

namespace Binary64

theorem ceilIndex_le_maxIndex (x : Binary64) : x.ceilIndex ≤ maxIndex := by
  rw [ceilIndex]
  split
  · exact Nat.zero_le _
  · split
    · exact Nat.le_refl _
    · exact Nat.min_le_right _ _

theorem ceilIndex_le {x : Binary64} {n : Nat} (hx : x.isFinite) (h : x.magnitude ≤ n * unit) :
    x.ceilIndex ≤ n := by
  rw [ceilIndex, isInfinite_of_isFinite hx, if_neg Bool.false_ne_true]
  split
  · exact Nat.zero_le _
  · refine Nat.le_trans (Nat.min_le_left _ _) (Nat.le_of_lt_succ ?_)
    rw [Nat.div_lt_iff_lt_mul unit_pos, Nat.succ_mul]
    have := unit_pos
    omega

theorem floorIndex_le_ceilIndex (x : Binary64) : x.floorIndex ≤ x.ceilIndex := by
  rw [floorIndex, ceilIndex]
  split
  · exact Nat.le_refl _
  · split
    · exact Nat.le_refl _
    · have hdiv : x.magnitude / unit ≤ (x.magnitude + unit - 1) / unit :=
        Nat.div_le_div_right (Nat.le_sub_one_of_lt (Nat.lt_add_of_pos_right unit_pos))
      omega

/-- Less than one by so much that a factor of it makes up for a step between two ranks. -/
def BelowOne (q : Binary64) : Prop :=
  q.isFinite ∧ q.magnitude * (2 ^ 52 + 1) ≤ 2 ^ 52 * unit

instance (q : Binary64) : Decidable (BelowOne q) := inferInstanceAs (Decidable (_ ∧ _))

/-- A factor that is less than one by a part in `c + 1` undoes a step of a part in `c`. -/
theorem mul_le_of_step {c q u m n : Nat} (hc : 0 < c) (hq : q * (c + 1) ≤ c * u)
    (hn : n * c ≤ m * (c + 1)) : q * n ≤ u * m := by
  refine Nat.le_of_mul_le_mul_right ?_ hc
  calc q * n * c = q * (n * c) := Nat.mul_assoc q n c
    _ ≤ q * (m * (c + 1)) := Nat.mul_le_mul_left q hn
    _ = q * (c + 1) * m := by ring
    _ ≤ c * u * m := Nat.mul_le_mul_right m hq
    _ = u * m * c := by ring

/-- The highest rank that is not above a whole number is the one that it is rounded to, or the one
before that. -/
theorem exists_magnitudeAt_le {q : Binary64} (hq : BelowOne q) (n : Nat) :
    ∃ r ≤ (ofNat n).rank, magnitudeAt r ≤ n * unit ∧
      q.magnitude * (ofNat n).magnitude ≤ unit * magnitudeAt r := by
  rcases Nat.lt_or_ge (n * unit) (ofNat n).magnitude with hlt | hge
  · obtain ⟨r, hr⟩ : ∃ r, (ofNat n).rank = r + 1 := by
      refine Nat.exists_eq_succ_of_ne_zero fun h => ?_
      rw [magnitude, h, magnitudeAt_zero] at hlt
      exact Nat.not_lt_zero _ hlt
    have hbelow : magnitudeAt r < n * unit := by
      have hrank : r < nearestRank (n * unit) 1 := Nat.lt_of_succ_le (Nat.le_of_eq hr.symm)
      simpa using lt_of_lt_nearestRank Nat.one_pos hrank
    have hmagnitude : (ofNat n).magnitude = magnitudeAt (r + 1) := congrArg magnitudeAt hr
    rw [hmagnitude] at hlt ⊢
    rw [hr]
    have hnormal : 2 ^ 52 ≤ r := by
      refine Nat.le_of_not_lt fun hsmall => ?_
      have hone : magnitudeAt (r + 1) ≤ unit :=
        Nat.le_trans (magnitudeAt_le_iff.2 hsmall) (by decide +kernel)
      have hn : n ≠ 0 := by
        rintro rfl
        rw [Nat.zero_mul] at hbelow
        exact Nat.not_lt_zero _ hbelow
      have := Nat.le_mul_of_pos_left unit (Nat.pos_of_ne_zero hn)
      omega
    exact ⟨r, Nat.le_succ r, Nat.le_of_lt hbelow,
      mul_le_of_step (c := 2 ^ 52) (by decide) hq.2 (magnitudeAt_succ_mul_le hnormal)⟩
  · refine ⟨_, Nat.le_refl _, hge, Nat.mul_le_mul_right _ ?_⟩
    have := hq.2
    omega

theorem ceilIndex_mul_ofNat_le {q : Binary64} (hq : BelowOne q) (n : Nat) :
    (q * ofNat n).ceilIndex ≤ n := by
  rcases Nat.lt_or_ge n maxIndex with hn | hn
  · have hfin : (ofNat n).isFinite :=
      isFinite_ofNat (Nat.le_trans (Nat.le_of_lt hn) (by decide +kernel))
    obtain ⟨r, hr, hle, hmul⟩ := exists_magnitudeAt_le hq n
    have hrank : (q * ofNat n).rank ≤ r := by
      rw [mul_eq_ofRatio hq.1 hfin]
      exact nearestRank_le_of_le unit_pos (Nat.lt_of_le_of_lt hr (isFinite_iff.1 hfin)) hmul
    have hprod : (q * ofNat n).isFinite :=
      isFinite_iff.2 (Nat.lt_of_le_of_lt (Nat.le_trans hrank hr) (isFinite_iff.1 hfin))
    exact ceilIndex_le hprod (Nat.le_trans (magnitudeAt_le_iff.2 hrank) hle)
  · exact Nat.le_trans (ceilIndex_le_maxIndex _) hn

end Binary64

theorem exists_valueAt {values : List Binary64} {rank : Binary64}
    (h : rank.ceilIndex < values.length) : ∃ v, valueAt values rank = some v := by
  have hlow := Nat.lt_of_le_of_lt rank.floorIndex_le_ceilIndex h
  simp only [valueAt, List.getElem?_eq_getElem h, List.getElem?_eq_getElem hlow]
  split
  · exact ⟨_, rfl⟩
  · exact ⟨_, rfl⟩

theorem percentile_eq_valueAt {values : List Binary64} (h : values ≠ []) (p : Binary64) :
    percentile values p = valueAt values (percentileRank (values.length - 1) p) := by
  obtain ⟨v, vs, rfl⟩ := List.exists_cons_of_ne_nil h
  rfl

theorem exists_percentile {p : Binary64} (hp : Binary64.BelowOne (p / .ofNat 100))
    (values : List Binary64) : ∃ v, percentile values p = some v := by
  cases values with
  | nil => exact ⟨.nan, rfl⟩
  | cons v vs =>
    refine exists_valueAt (Nat.lt_succ_of_le ?_)
    exact Binary64.ceilIndex_mul_ofNat_le hp vs.length

end LatencyDigest
