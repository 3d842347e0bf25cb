import LatencyDigest.Proofs.Binary64.Bounds

/-! A sum of two quotients that are rounded before they are added and once more after it, against
the sum that is rounded once: the two are at most one rank apart. The exact sum lies between a rank
and the next, and no rounding moves anything by more than half of that step. -/

namespace LatencyDigest.Binary64

section
variable {n d c : Nat}

theorem two_mul_magnitudeAt_nearestRank_le (hd : 0 < d) (hc : c < infinityRank)
    (h : n < d * magnitudeAt (c + 1)) :
    2 * (d * magnitudeAt (nearestRank n d)) ≤ 2 * n + d * 2 ^ exponentAt c := by
  cases hr : nearestRank n d with
  | zero => simp
  | succ p =>
    have hlt : p < nearestRank n d := hr ▸ p.lt_succ_self
    have hpc : p < c + 1 := by
      rw [← magnitudeAt_lt_iff]
      exact Nat.lt_of_mul_lt_mul_left (Nat.lt_trans (lt_of_lt_nearestRank hd hlt) h)
    have hlow := middle_le_of_lt_nearestRank hd (Nat.lt_of_le_of_lt (Nat.le_of_lt_succ hpc) hc) hlt
    have hexponent : d * 2 ^ exponentAt p ≤ d * 2 ^ exponentAt c :=
      Nat.mul_le_mul_left d
        (Nat.pow_le_pow_right (by decide) (exponentAt_mono (Nat.le_of_lt_succ hpc)))
    rw [mul_middle] at hlow
    rw [mul_magnitudeAt_succ]
    omega

theorem two_mul_le_magnitudeAt_nearestRank (hd : 0 < d) (hc : c < infinityRank)
    (h : n < d * magnitudeAt (c + 1)) :
    2 * n ≤ 2 * (d * magnitudeAt (nearestRank n d)) + d * 2 ^ exponentAt c := by
  rcases Nat.lt_or_ge c (nearestRank n d) with hr | hr
  · have hmagnitude := Nat.mul_le_mul_left d (magnitudeAt_succ_le hr)
    omega
  · have hle := (nearestRank_le_iff hd (Nat.lt_of_le_of_lt hr hc)).1 (Nat.le_refl _)
    have hexponent : d * 2 ^ exponentAt (nearestRank n d) ≤ d * 2 ^ exponentAt c :=
      Nat.mul_le_mul_left d (Nat.pow_le_pow_right (by decide) (exponentAt_mono hr))
    rw [mul_middle] at hle
    omega

/-- Below the half of a number the steps are half as long, but for the lowest exponent. -/
theorem exists_half_step {e : Nat} (hc : c < infinityRank) (he : exponentAt c = e + 1)
    (h : 2 * n < d * magnitudeAt (c + 1)) :
    ∃ b < infinityRank, n < d * magnitudeAt (b + 1) ∧ exponentAt b = e := by
  obtain ⟨b, hb⟩ : ∃ b, b + 1 = powerRank (e + 1) :=
    ⟨_, Nat.succ_pred_eq_of_pos (Nat.lt_of_lt_of_le (by decide) (Nat.le_add_left (2 ^ 52) _))⟩
  have hbc : b < c := by
    have := rank_eq c
    have := exponentAt_eq_zero_or c
    rw [powerRank] at hb
    omega
  refine ⟨b, Nat.lt_trans hbc hc, ?_, ?_⟩
  · have hbound := Nat.mul_le_mul_left d (magnitudeAt_succ_le_mul c)
    have htwice : d * (2 ^ 53 * 2 ^ (e + 1)) = 2 * (d * 2 ^ (52 + (e + 1))) := by ring
    rw [he] at hbound
    rw [hb, magnitudeAt_powerRank]
    omega
  · simp only [exponentAt]
    rw [powerRank] at hb
    omega

/-! The exact sum of two quotients, and the sum of what they are rounded to. -/

variable {u v : Nat}

theorem add_error_le (hd : 0 < d) (hc : c < infinityRank) (h₁ : u < d * magnitudeAt (c + 1))
    (h₂ : v < d * magnitudeAt (c + 1)) :
    d * (magnitudeAt (nearestRank u d) + magnitudeAt (nearestRank v d)) ≤
        u + v + d * 2 ^ exponentAt c ∧
      u + v ≤ d * (magnitudeAt (nearestRank u d) + magnitudeAt (nearestRank v d)) +
        d * 2 ^ exponentAt c := by
  have := two_mul_magnitudeAt_nearestRank_le hd hc h₁
  have := two_mul_magnitudeAt_nearestRank_le hd hc h₂
  have := two_mul_le_magnitudeAt_nearestRank hd hc h₁
  have := two_mul_le_magnitudeAt_nearestRank hd hc h₂
  rw [Nat.mul_add]
  omega

/-- The smaller of the two is moved by half as much as the larger. -/
theorem four_mul_add_error_le (hd : 0 < d) (hc : c < infinityRank) (he : exponentAt c ≠ 0)
    (h : u + v < d * magnitudeAt (c + 1)) :
    4 * (d * (magnitudeAt (nearestRank u d) + magnitudeAt (nearestRank v d))) ≤
        4 * (u + v) + 3 * (d * 2 ^ exponentAt c) ∧
      4 * (u + v) ≤
        4 * (d * (magnitudeAt (nearestRank u d) + magnitudeAt (nearestRank v d))) +
          3 * (d * 2 ^ exponentAt c) := by
  wlog hle : v ≤ u generalizing u v with H
  · rw [Nat.add_comm u, Nat.add_comm (magnitudeAt (nearestRank u d))]
    exact H (by omega) (by omega)
  obtain ⟨e, he⟩ := Nat.exists_eq_succ_of_ne_zero he
  obtain ⟨b, hb, hv, heb⟩ := exists_half_step (n := v) (d := d) hc he (by omega)
  have hstep : d * 2 ^ exponentAt c = 2 * (d * 2 ^ exponentAt b) := by
    rw [he, heb, Nat.pow_succ]
    ring
  have := two_mul_magnitudeAt_nearestRank_le hd hc (n := u) (by omega)
  have := two_mul_le_magnitudeAt_nearestRank hd hc (n := u) (by omega)
  have := two_mul_magnitudeAt_nearestRank_le hd hb hv
  have := two_mul_le_magnitudeAt_nearestRank hd hb hv
  rw [Nat.mul_add]
  omega

/-- The rank at or below a quotient, which is the one that it is rounded to or the one before. -/
theorem exists_rank_below (hd : 0 < d) (hr : nearestRank n d < infinityRank) :
    ∃ c, d * magnitudeAt c ≤ n ∧ n < d * magnitudeAt (c + 1) ∧
      (nearestRank n d = c ∨ nearestRank n d = c + 1) := by
  rcases Nat.lt_or_ge n (d * magnitudeAt (nearestRank n d)) with hlt | hge
  · cases hp : nearestRank n d with
    | zero =>
      rw [hp, magnitudeAt_zero] at hlt
      exact absurd hlt (Nat.not_lt_zero n)
    | succ p =>
      have hlt' : p < nearestRank n d := by omega
      have hmiddle := middle_le_of_lt_nearestRank hd (Nat.lt_trans hlt' hr) hlt'
      rw [mul_middle] at hmiddle
      exact ⟨p, by omega, hp ▸ hlt, .inr rfl⟩
  · have hmiddle := (nearestRank_le_iff hd hr).1 (Nat.le_refl _)
    have hpos := Nat.mul_pos hd (Nat.two_pow_pos (exponentAt (nearestRank n d)))
    rw [mul_middle] at hmiddle
    refine ⟨_, hge, ?_, .inl rfl⟩
    rw [mul_magnitudeAt_succ]
    omega

theorem nearestRank_add_le_succ (hd : 0 < d) (hr : nearestRank (u + v) d + 1 < infinityRank) :
    nearestRank (magnitudeAt (nearestRank u d) + magnitudeAt (nearestRank v d)) 1 ≤
      nearestRank (u + v) d + 1 := by
  obtain ⟨c, -, hhigh, heq⟩ := exists_rank_below hd (Nat.lt_of_succ_lt hr)
  have hc : c + 1 < infinityRank := by omega
  have hcrude := (add_error_le hd (Nat.lt_of_succ_lt hc) (u := u) (v := v) (by omega)
    (by omega)).1
  have hfine := four_mul_add_error_le hd (Nat.lt_of_succ_lt hc) (u := u) (v := v)
  have hstep := mul_magnitudeAt_succ d c
  have hmono : d * 2 ^ exponentAt c ≤ d * 2 ^ exponentAt (c + 1) :=
    Nat.mul_le_mul_left d (Nat.pow_le_pow_right (by decide) (exponentAt_mono c.le_succ))
  have hpos := Nat.mul_pos hd (Nat.two_pow_pos (exponentAt c))
  generalize magnitudeAt (nearestRank u d) + magnitudeAt (nearestRank v d) = t at hcrude hfine ⊢
  rcases heq with heq | heq
  · -- the exact sum is at most half a step above `c`
    have hmiddle := (nearestRank_le_iff hd (by omega)).1 heq.le
    rw [mul_middle] at hmiddle
    rw [heq, nearestRank_le_iff Nat.one_pos hc, Nat.one_mul]
    left
    by_cases he : exponentAt c = 0
    · -- all are whole numbers of units, so the sum is not on the middle itself
      rw [he, Nat.pow_zero, Nat.mul_one] at hcrude hmiddle
      have htwice : 2 * t ≤ 2 * magnitudeAt c + 3 := by
        refine Nat.le_of_mul_le_mul_left ?_ hd
        rw [Nat.mul_left_comm, Nat.mul_add, Nat.mul_left_comm d 2]
        omega
      have hone : magnitudeAt (c + 1) = magnitudeAt c + 1 := by
        rw [magnitudeAt_succ_eq_add, he, Nat.pow_zero]
      have := magnitudeAt_lt_succ (c + 1)
      rw [middle]
      omega
    · have hthree := (hfine he hhigh).1
      refine Nat.lt_of_mul_lt_mul_left (a := d) ?_
      rw [mul_middle, hstep, Nat.mul_left_comm]
      omega
  · rw [heq]
    refine nearestRank_le_of_le Nat.one_pos (by omega) (Nat.le_of_mul_le_mul_left ?_ hd)
    rw [Nat.one_mul, mul_magnitudeAt_succ, hstep]
    omega

theorem nearestRank_le_add_succ (hd : 0 < d) (hr : nearestRank (u + v) d < infinityRank) :
    nearestRank (u + v) d ≤
      nearestRank (magnitudeAt (nearestRank u d) + magnitudeAt (nearestRank v d)) 1 + 1 := by
  obtain ⟨c, hlow, hhigh, heq⟩ := exists_rank_below hd hr
  have hc : c < infinityRank := by omega
  have hfine := four_mul_add_error_le hd hc (u := u) (v := v)
  -- a term that is rounded to `c` or above is enough
  by_cases hlarge : magnitudeAt c ≤ magnitudeAt (nearestRank u d) + magnitudeAt (nearestRank v d)
  · have := le_nearestRank_of_le Nat.one_pos hc.le ((Nat.one_mul _).trans_le hlarge)
    omega
  rw [Nat.not_le] at hlarge
  obtain ⟨b, rfl⟩ : ∃ b, c = b + 1 := by
    refine Nat.exists_eq_succ_of_ne_zero fun h => ?_
    rw [h, magnitudeAt_zero] at hlarge
    exact Nat.not_lt_zero _ hlarge
  have hbelow {m : Nat} (h : magnitudeAt (nearestRank m d) < magnitudeAt (b + 1)) :
      m < d * magnitudeAt (b + 1) := by
    refine Nat.lt_of_not_le fun hle => Nat.not_le.2 (magnitudeAt_lt_iff.1 h) ?_
    exact le_nearestRank_of_le hd hc.le hle
  have hcrude := (add_error_le hd (Nat.lt_of_succ_lt hc) (hbelow (m := u) (by omega))
    (hbelow (m := v) (by omega))).2
  generalize magnitudeAt (nearestRank u d) + magnitudeAt (nearestRank v d) = t at *
  rcases heq with heq | heq
  · have hle : b ≤ nearestRank t 1 := by
      refine le_nearestRank_of_le Nat.one_pos (Nat.le_of_succ_le hc.le) ?_
      refine Nat.le_of_mul_le_mul_left ?_ hd
      rw [mul_magnitudeAt_succ] at hlow
      rw [Nat.one_mul]
      omega
    omega
  · have hmiddle := middle_le_of_lt_nearestRank hd hc (n := u + v) (r := b + 1) (by omega)
    have hmono : d * 2 ^ exponentAt b ≤ d * 2 ^ exponentAt (b + 1) :=
      Nat.mul_le_mul_left d (Nat.pow_le_pow_right (by decide) (exponentAt_mono b.le_succ))
    rw [mul_middle] at hmiddle
    rw [heq]
    refine Nat.succ_le_succ (Nat.le_of_not_lt fun hlt => ?_)
    have hmiddle' : d * (2 * t) ≤ d * middle b := by
      have := (nearestRank_le_iff Nat.one_pos (Nat.lt_of_succ_lt hc)).1 (Nat.le_of_lt_succ hlt)
      exact Nat.mul_le_mul_left d (by omega)
    rw [mul_middle, Nat.mul_left_comm] at hmiddle'
    have hstep := mul_magnitudeAt_succ d b
    by_cases he : exponentAt (b + 1) = 0
    · have hless := Nat.mul_le_mul_left d (Nat.succ_le_of_lt hlarge)
      rw [he, Nat.pow_zero, Nat.mul_one] at hmiddle hmono
      rw [Nat.mul_succ] at hless
      omega
    · have hthree := (hfine he hhigh).2
      have hpos := Nat.mul_pos hd (Nat.two_pow_pos (exponentAt (b + 1)))
      omega

end

end LatencyDigest.Binary64
