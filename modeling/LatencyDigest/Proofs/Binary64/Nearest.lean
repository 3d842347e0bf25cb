import LatencyDigest.Binary64.Rounding
import LatencyDigest.Proofs.Binary64.Magnitude

/-! Rounding by its thresholds: a quotient is rounded to a rank or below exactly if it lies below
the middle between that rank and the next, or on the middle when the rank is even. That rounding
keeps the order, leaves alone what has a rank, and tells apart what is far enough apart follows
from this alone. -/

namespace LatencyDigest

theorem roundHalfEven_le_iff {n d q : Nat} (hd : 0 < d) :
    roundHalfEven n d ≤ q ↔ 2 * n < d * (2 * q + 1) ∨ 2 * n = d * (2 * q + 1) ∧ q % 2 = 0 := by
  have hn := Nat.div_add_mod n d
  have hr := Nat.mod_lt n hd
  have hq : d * (2 * q + 1) = 2 * (d * q) + d := by rw [Nat.mul_add, Nat.mul_left_comm, Nat.mul_one]
  rw [roundHalfEven, hq]
  rcases Nat.lt_trichotomy (n / d) q with h | h | h
  · have hm : d * (n / d) + d ≤ d * q := Nat.mul_le_mul_left d h
    split <;> [skip; split] <;> omega
  · rw [← h]
    split <;> [skip; split] <;> omega
  · have hm : d * q + d ≤ d * (n / d) := Nat.mul_le_mul_left d h
    split <;> [skip; split] <;> omega

theorem div_le_roundHalfEven (n d : Nat) : n / d ≤ roundHalfEven n d := by
  rw [roundHalfEven]
  split <;> [skip; split] <;> omega

namespace Binary64

/-- Twice the middle between a rank and the next. -/
def middle (r : Nat) : Nat := magnitudeAt r + magnitudeAt (r + 1)

theorem middle_eq (r : Nat) : middle r = (2 * significandAt r + 1) * 2 ^ exponentAt r := by
  rw [middle, magnitudeAt_succ_eq_add, magnitudeAt_eq, Nat.add_mul, Nat.two_mul, Nat.add_mul,
    Nat.one_mul, Nat.add_assoc]

theorem mul_magnitudeAt_succ (d r : Nat) :
    d * magnitudeAt (r + 1) = d * magnitudeAt r + d * 2 ^ exponentAt r := by
  rw [magnitudeAt_succ_eq_add, Nat.mul_add]

theorem mul_middle (d r : Nat) :
    d * middle r = 2 * (d * magnitudeAt r) + d * 2 ^ exponentAt r := by
  rw [middle, Nat.mul_add, mul_magnitudeAt_succ]
  omega

/-- The number of bits that are cut off below the 53 that are kept. -/
def cutOf (n d : Nat) : Nat := (n / d).log2 - 52

theorem nearestRank_eq (n d : Nat) : nearestRank n d =
    min (cutOf n d * 2 ^ 52 + roundHalfEven n (d * 2 ^ cutOf n d)) infinityRank := rfl

section
variable {n d : Nat}

theorem lt_of_cutOf (hd : 0 < d) : n < d * 2 ^ (cutOf n d + 53) := by
  rw [Nat.mul_comm, ← Nat.div_lt_iff_lt_mul hd]
  refine Nat.lt_of_lt_of_le Nat.lt_log2_self (Nat.pow_le_pow_right (by decide) ?_)
  rw [cutOf]
  omega

theorem le_of_cutOf (hc : cutOf n d ≠ 0) : d * 2 ^ (cutOf n d + 52) ≤ n := by
  have hlog : cutOf n d + 52 = (n / d).log2 := by
    rw [cutOf] at hc ⊢
    omega
  have hq : n / d ≠ 0 := by
    intro h
    rw [cutOf, h] at hc
    exact hc rfl
  rw [hlog]
  exact Nat.le_trans (Nat.mul_le_mul_left d (Nat.log2_self_le hq)) (Nat.mul_div_le n d)

theorem roundHalfEven_cutOf_le (hd : 0 < d) :
    roundHalfEven n (d * 2 ^ cutOf n d) ≤ 2 ^ 53 := by
  rw [roundHalfEven_le_iff (Nat.mul_pos hd (Nat.two_pow_pos _))]
  have h := lt_of_cutOf (n := n) hd
  rw [Nat.pow_add, ← Nat.mul_assoc] at h
  omega

theorem le_roundHalfEven_cutOf (hd : 0 < d) (hc : cutOf n d ≠ 0) :
    2 ^ 52 ≤ roundHalfEven n (d * 2 ^ cutOf n d) := by
  refine Nat.le_trans ?_ (div_le_roundHalfEven n _)
  rw [Nat.le_div_iff_mul_le (Nat.mul_pos hd (Nat.two_pow_pos _)), Nat.mul_left_comm,
    ← Nat.pow_add, Nat.add_comm]
  exact le_of_cutOf hc

/-- The exponents decide, and where they are the same the significands. -/
theorem nearestRank_le_iff {r : Nat} (hd : 0 < d) (hr : r < infinityRank) :
    nearestRank n d ≤ r ↔ 2 * n < d * middle r ∨ 2 * n = d * middle r ∧ r % 2 = 0 := by
  have hmin : nearestRank n d ≤ r ↔
      cutOf n d * 2 ^ 52 + roundHalfEven n (d * 2 ^ cutOf n d) ≤ r := by
    rw [nearestRank_eq]
    omega
  have hrank := rank_eq r
  have hsig := significandAt_lt r
  have hsplit := exponentAt_eq_zero_or r
  have hQ := roundHalfEven_cutOf_le (n := n) hd
  rw [hmin, middle_eq]
  rcases Nat.lt_trichotomy (cutOf n d) (exponentAt r) with h | h | h
  · have hlow : 2 * n < d * ((2 * significandAt r + 1) * 2 ^ exponentAt r) := by
      have hpow : 2 ^ (cutOf n d + 53) ≤ 2 ^ (52 + exponentAt r) :=
        Nat.pow_le_pow_right (by decide) (by omega)
      calc 2 * n < 2 * (d * 2 ^ (52 + exponentAt r)) := by
            have := Nat.mul_le_mul_left d hpow
            have := lt_of_cutOf (n := n) hd
            omega
        _ = d * (2 ^ 53 * 2 ^ exponentAt r) := by ring
        _ ≤ d * ((2 * significandAt r + 1) * 2 ^ exponentAt r) :=
            Nat.mul_le_mul_left d (Nat.mul_le_mul_right _ (by omega))
    exact iff_of_true (by omega) (.inl hlow)
  · rw [h, Nat.mul_comm (2 * significandAt r + 1), ← Nat.mul_assoc, show r % 2 =
      significandAt r % 2 by omega, ← roundHalfEven_le_iff (Nat.mul_pos hd (Nat.two_pow_pos _))]
    omega
  · have hc : cutOf n d ≠ 0 := by omega
    have hhigh : d * ((2 * significandAt r + 1) * 2 ^ exponentAt r) < 2 * n := by
      have hpow : 2 ^ (53 + exponentAt r) ≤ 2 ^ (cutOf n d + 52) :=
        Nat.pow_le_pow_right (by decide) (by omega)
      calc d * ((2 * significandAt r + 1) * 2 ^ exponentAt r)
          < d * (2 ^ 54 * 2 ^ exponentAt r) :=
            Nat.mul_lt_mul_of_pos_left (Nat.mul_lt_mul_of_pos_right (by omega)
              (Nat.two_pow_pos _)) hd
        _ = 2 * (d * 2 ^ (53 + exponentAt r)) := by ring
        _ ≤ 2 * n := by
            have := Nat.mul_le_mul_left d hpow
            have := le_of_cutOf hc
            omega
    have hQ' := le_roundHalfEven_cutOf hd hc
    exact iff_of_false (by omega) (by omega)

theorem middle_le_of_lt_nearestRank {r : Nat} (hd : 0 < d) (hr : r < infinityRank)
    (h : r < nearestRank n d) : d * middle r ≤ 2 * n := by
  have hle := (nearestRank_le_iff hd hr).not.1 (Nat.not_le.2 h)
  omega

theorem nearestRank_le (n d : Nat) : nearestRank n d ≤ infinityRank := Nat.min_le_right _ _

theorem nearestRank_mono {n' d' : Nat} (hd : 0 < d) (hd' : 0 < d') (h : n * d' ≤ n' * d) :
    nearestRank n d ≤ nearestRank n' d' := by
  rcases Nat.lt_or_ge (nearestRank n' d') infinityRank with hr | hr
  · have hle := (nearestRank_le_iff hd' hr).1 (Nat.le_refl _)
    rw [nearestRank_le_iff hd hr]
    generalize middle (nearestRank n' d') = m at hle ⊢
    -- both sides of the threshold over the common denominator `d * d'`
    have hn : 2 * n * d' ≤ 2 * n' * d := by
      rw [Nat.mul_assoc, Nat.mul_assoc]
      exact Nat.mul_le_mul_left 2 h
    have hm : d' * m * d = d * m * d' := by ac_rfl
    rcases hle with hlt | ⟨heq, heven⟩
    · left
      refine Nat.lt_of_mul_lt_mul_right (a := d') ?_
      exact Nat.lt_of_le_of_lt hn (hm ▸ Nat.mul_lt_mul_of_pos_right hlt hd)
    · have hle : 2 * n ≤ d * m := by
        refine Nat.le_of_mul_le_mul_right ?_ hd'
        exact Nat.le_trans hn (hm ▸ Nat.mul_le_mul_right d (Nat.le_of_eq heq))
      exact (Nat.lt_or_eq_of_le hle).imp_right fun h => ⟨h, heven⟩
  · exact Nat.le_trans (nearestRank_le n d) hr

theorem nearestRank_congr {n' d' : Nat} (hd : 0 < d) (hd' : 0 < d') (h : n * d' = n' * d) :
    nearestRank n d = nearestRank n' d' :=
  Nat.le_antisymm (nearestRank_mono hd hd' (Nat.le_of_eq h))
    (nearestRank_mono hd' hd (Nat.le_of_eq h.symm))

theorem nearestRank_le_of_le {r : Nat} (hd : 0 < d) (hr : r < infinityRank)
    (h : n ≤ d * magnitudeAt r) : nearestRank n d ≤ r := by
  rw [nearestRank_le_iff hd hr, middle, Nat.mul_add]
  have := Nat.mul_lt_mul_of_pos_left (magnitudeAt_lt_succ r) hd
  omega

theorem nearestRank_zero (hd : 0 < d) : nearestRank 0 d = 0 :=
  Nat.le_zero.1 (nearestRank_le_of_le hd (by decide) (Nat.zero_le _))

theorem lt_of_lt_nearestRank {r : Nat} (hd : 0 < d) (h : r < nearestRank n d) :
    d * magnitudeAt r < n := by
  refine Nat.lt_of_not_le fun hle => ?_
  have hr : r < infinityRank := Nat.lt_of_lt_of_le h (nearestRank_le n d)
  exact Nat.not_le.2 h (nearestRank_le_of_le hd hr hle)

theorem le_nearestRank_of_le {r : Nat} (hd : 0 < d) (hr : r ≤ infinityRank)
    (h : d * magnitudeAt r ≤ n) : r ≤ nearestRank n d := by
  cases r with
  | zero => exact Nat.zero_le _
  | succ p =>
    refine Nat.le_of_not_lt fun hlt => ?_
    have hle := (nearestRank_le_iff hd hr).1 (Nat.le_of_lt_succ hlt)
    rw [middle, Nat.mul_add] at hle
    have := Nat.mul_lt_mul_of_pos_left (magnitudeAt_lt_succ p) hd
    omega

theorem nearestRank_of_magnitudeAt {r : Nat} (hr : r < infinityRank) :
    nearestRank (magnitudeAt r) 1 = r :=
  Nat.le_antisymm (nearestRank_le_of_le Nat.one_pos hr (Nat.le_of_eq (Nat.one_mul _).symm))
    (le_nearestRank_of_le Nat.one_pos (Nat.le_of_lt hr) (Nat.le_of_eq (Nat.one_mul _)))

/-- A rank lies at most half a step above what is rounded to it. -/
theorem two_mul_magnitudeAt_le {r : Nat} (hd : 0 < d) (hr : r < infinityRank)
    (h : nearestRank n d = r) :
    2 * (d * magnitudeAt r) ≤ 2 * n + d * 2 ^ exponentAt r := by
  cases r with
  | zero => simp
  | succ p =>
    have hlt : p < nearestRank n d := Nat.lt_of_lt_of_eq p.lt_succ_self h.symm
    have hlow := middle_le_of_lt_nearestRank hd (Nat.lt_of_succ_lt hr) hlt
    have hstep : magnitudeAt (p + 1) ≤ magnitudeAt p + 2 ^ exponentAt (p + 1) := by
      rw [magnitudeAt_succ_eq_add]
      exact Nat.add_le_add_left
        (Nat.pow_le_pow_right (by decide) (exponentAt_mono p.le_succ)) _
    have hmul := Nat.mul_le_mul_left d hstep
    rw [middle, Nat.mul_add] at hlow
    rw [Nat.mul_add] at hmul
    omega

/-- What is more than a step further on is rounded to a higher rank. -/
theorem nearestRank_lt_of_step {n' : Nat} (hd : 0 < d) (hr : nearestRank n d < infinityRank)
    (h : n + d * 2 ^ exponentAt (nearestRank n d) < n') : nearestRank n d < nearestRank n' d := by
  refine Nat.lt_of_not_le fun hle => ?_
  have hup := (nearestRank_le_iff hd hr).1 hle
  have hlow := two_mul_magnitudeAt_le hd hr rfl
  rw [middle, magnitudeAt_succ_eq_add, Nat.mul_add, Nat.mul_add] at hup
  omega

end

end Binary64

end LatencyDigest
