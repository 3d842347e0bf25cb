import LatencyDigest.Proofs.Binary64.Operations

/-! How far the results of operations can go, and their signs. A magnitude is bounded by a power of
two, given as the rank of that power. A sum does not outgrow such a bound when each of its terms is
less than half a step there, whatever the number of terms. -/

namespace LatencyDigest

namespace Binary64

/-- The rank of `2 ^ (52 + k)` units. -/
def powerRank (k : Nat) : Nat := k * 2 ^ 52 + 2 ^ 52

theorem exponentAt_powerRank (k : Nat) : exponentAt (powerRank k) = k := by
  simp only [exponentAt, powerRank]
  omega

theorem magnitudeAt_powerRank (k : Nat) : magnitudeAt (powerRank k) = 2 ^ (52 + k) := by
  rw [powerRank, magnitudeAt_add (.inr (Nat.le_refl _)) (by decide), Nat.pow_add]

theorem powerRank_mono {j k : Nat} (h : j ≤ k) : powerRank j ≤ powerRank k :=
  Nat.add_le_add_right (Nat.mul_le_mul_right _ h) _

theorem powerRank_lt {k : Nat} (h : k < 2046) : powerRank k < infinityRank := by
  have hinfinity : infinityRank = 2047 * 2 ^ 52 := rfl
  rw [hinfinity, powerRank]
  omega

section
variable {x y : Binary64} {k : Nat}

theorem isFinite_of_rank_le (h : x.rank ≤ powerRank k) (hk : k < 2046) : x.isFinite :=
  isFinite_iff.2 (Nat.lt_of_le_of_lt h (powerRank_lt hk))

theorem magnitude_le_of_rank_le (h : x.rank ≤ powerRank k) : x.magnitude ≤ 2 ^ (52 + k) :=
  magnitudeAt_powerRank k ▸ magnitudeAt_le_iff.2 h

@[simp] theorem rank_neg (x : Binary64) : (-x).rank = x.rank := rfl

@[simp] theorem negative_neg (x : Binary64) : (-x).negative = !x.negative := rfl

theorem isFinite_neg (h : x.isFinite) : (-x).isFinite := h

theorem scaled_of_negative (h : x.negative = true) : x.scaled = -(x.magnitude : Int) := if_pos h

theorem scaled_of_not_negative (h : x.negative = false) : x.scaled = x.magnitude := by
  rw [scaled, if_neg (by simp [h])]

theorem scaled_neg_of_not_negative (h : x.negative = false) : (-x).scaled = -x.magnitude := by
  rw [scaled, if_pos (by simp [h])]
  rfl

theorem natAbs_scaled (x : Binary64) : x.scaled.natAbs = x.magnitude := by
  rw [scaled]
  split <;> simp

theorem zero_le_iff (hx : x.isFinite) : zero ≤ x ↔ 0 ≤ x.place := by
  change (_ ∧ _ ∧ _) ↔ _
  simp only [isNaN_of_isFinite hx, show zero.isNaN = false from rfl, show zero.place = 0 from rfl,
    true_and]

theorem zero_le_of_not_negative (hx : x.isFinite) (h : x.negative = false) : zero ≤ x := by
  rw [zero_le_iff hx, place, if_neg (by simp [h])]
  exact Int.natCast_nonneg _

/-! Sums. -/

theorem add_eq_ofRatio (hx : x.isFinite) (hy : y.isFinite) :
    x + y = ofRatio (if x.scaled + y.scaled = 0 then x.negative && y.negative
      else decide (x.scaled + y.scaled < 0)) (x.scaled + y.scaled).natAbs 1 := by
  change add x y = _
  simp only [add, orNaN, isNaN_of_isFinite hx, isNaN_of_isFinite hy, isInfinite_of_isFinite hx,
    isInfinite_of_isFinite hy, Bool.false_eq_true, if_false]

theorem rank_add_le (hx : x.rank ≤ powerRank k) (hy : 2 * y.magnitude < 2 ^ k) (hk : k < 2046) :
    (x + y).rank ≤ powerRank k := by
  have hfx := isFinite_of_rank_le hx hk
  have hsmall : y.magnitude < magnitudeAt (powerRank k) := by
    rw [magnitudeAt_powerRank, Nat.pow_add]
    omega
  have hfy : y.isFinite :=
    isFinite_of_rank_le (Nat.le_of_lt (magnitudeAt_lt_iff.1 hsmall)) hk
  have hmx : x.magnitude ≤ magnitudeAt (powerRank k) := magnitudeAt_le_iff.2 hx
  have hsum : (x.scaled + y.scaled).natAbs ≤ x.magnitude + y.magnitude := by
    rw [← natAbs_scaled x, ← natAbs_scaled y]
    exact Int.natAbs_add_le _ _
  have hstep : magnitudeAt (powerRank k + 1) = magnitudeAt (powerRank k) + 2 ^ k := by
    rw [magnitudeAt_succ_eq_add, exponentAt_powerRank]
  rw [add_eq_ofRatio hfx hfy]
  change nearestRank _ 1 ≤ _
  -- the exact sum lies below the middle between the bound and the next rank
  rw [nearestRank_le_iff Nat.one_pos (powerRank_lt hk), middle, hstep]
  omega

theorem rank_add_le_of_rank_le {j : Nat} (hx : x.rank ≤ powerRank k) (hy : y.rank ≤ powerRank j)
    (hj : j + 54 ≤ k) (hk : k < 2046) : (x + y).rank ≤ powerRank k := by
  refine rank_add_le hx ?_ hk
  have hpow : 2 ^ (52 + j + 2) ≤ 2 ^ k := Nat.pow_le_pow_right (by decide) (by omega)
  have := magnitude_le_of_rank_le hy
  have := Nat.two_pow_pos (52 + j)
  rw [Nat.pow_add] at hpow
  omega

theorem negative_add (hx : x.isFinite) (hy : y.isFinite) (h : 0 ≤ x.scaled + y.scaled)
    (hn : y.negative = false) : (x + y).negative = false := by
  rw [add_eq_ofRatio hx hy]
  change (if _ then _ else _) = false
  split
  · rw [hn, Bool.and_false]
  · exact decide_eq_false (Int.not_lt.2 h)

theorem negative_add_of_not_negative (hx : x.isFinite) (hy : y.isFinite)
    (hnx : x.negative = false) (hny : y.negative = false) : (x + y).negative = false := by
  refine negative_add hx hy ?_ hny
  rw [scaled_of_not_negative hnx, scaled_of_not_negative hny]
  omega

/-- A difference of numbers that are not negative, when the one that is taken off is not larger. -/
theorem sub_eq_ofRatio (hx : x.isFinite) (hy : y.isFinite) (hnx : x.negative = false)
    (hny : y.negative = false) (h : y.magnitude ≤ x.magnitude) :
    x - y = ofRatio false (x.magnitude - y.magnitude) 1 := by
  have hs : x.scaled + (-y).scaled = ((x.magnitude - y.magnitude : Nat) : Int) := by
    rw [scaled_of_not_negative hnx, scaled_neg_of_not_negative hny]
    omega
  change x + -y = _
  rw [add_eq_ofRatio hx (isFinite_neg hy), hs, Int.natAbs_natCast, hnx, Bool.false_and]
  congr 1
  split
  · rfl
  · exact decide_eq_false (Int.not_lt.2 (Int.natCast_nonneg _))

theorem rank_foldl_le {xs : List Binary64} {j : Nat} (h : ∀ y ∈ xs, y.rank ≤ powerRank j)
    (hx : x.rank ≤ powerRank k) (hj : j + 54 ≤ k) (hk : k < 2046) :
    (xs.foldl (· + ·) x).rank ≤ powerRank k := by
  induction xs generalizing x with
  | nil => exact hx
  | cons y xs ih =>
    refine ih (fun z hz => h z (List.mem_cons_of_mem y hz)) ?_
    exact rank_add_le_of_rank_le hx (h y List.mem_cons_self) hj hk

/-- The partial sums stop growing before they come to this bound, however many there are. -/
theorem rank_sum_le {xs : List Binary64} (h : ∀ y ∈ xs, y.rank ≤ powerRank k)
    (hk : k + 54 < 2046) : (sum xs).rank ≤ powerRank (k + 54) :=
  rank_foldl_le h (Nat.zero_le _) (Nat.le_refl _) hk

theorem negative_foldl {xs : List Binary64} (h : ∀ y ∈ xs, y.rank ≤ powerRank k)
    (hn : ∀ y ∈ xs, y.negative = false) (hx : x.rank ≤ powerRank (k + 54))
    (hnx : x.negative = false) (hk : k + 54 < 2046) :
    (xs.foldl (· + ·) x).negative = false := by
  induction xs generalizing x with
  | nil => exact hnx
  | cons y xs ih =>
    have hy := h y List.mem_cons_self
    refine ih (fun z hz => h z (List.mem_cons_of_mem y hz))
      (fun z hz => hn z (List.mem_cons_of_mem y hz)) ?_ ?_
    · exact rank_add_le_of_rank_le hx hy (Nat.le_refl _) hk
    · exact negative_add_of_not_negative (isFinite_of_rank_le hx hk)
        (isFinite_of_rank_le hy (by omega)) hnx (hn y List.mem_cons_self)

theorem negative_sum {xs : List Binary64} (h : ∀ y ∈ xs, y.rank ≤ powerRank k)
    (hn : ∀ y ∈ xs, y.negative = false) (hne : xs ≠ []) (hk : k + 54 < 2046) :
    (sum xs).negative = false := by
  cases xs with
  | nil => exact absurd rfl hne
  | cons y xs =>
    have hy := h y List.mem_cons_self
    have hny := hn y List.mem_cons_self
    have hstart : (-zero).scaled = 0 := rfl
    have hzero : (-zero).isFinite := rfl
    change (xs.foldl (· + ·) (-zero + y)).negative = false
    refine negative_foldl (fun z hz => h z (List.mem_cons_of_mem y hz))
      (fun z hz => hn z (List.mem_cons_of_mem y hz)) ?_ ?_ hk
    · exact rank_add_le_of_rank_le (Nat.zero_le _) hy (Nat.le_refl _) hk
    · refine negative_add hzero (isFinite_of_rank_le hy (by omega)) ?_ hny
      rw [hstart, scaled_of_not_negative hny]
      omega

/-! Products and quotients. -/

theorem pow_eq_unit_mul (n : Nat) : 2 ^ (1074 + n) = unit * 2 ^ n := by
  unfold unit
  generalize 1074 = m
  exact Nat.pow_add 2 m n

theorem rank_mul_le {j c : Nat} (hx : x.rank ≤ powerRank k) (hy : y.rank ≤ powerRank j)
    (hc : k + j = c + 1022) (hk : k < 2046) (hj : j < 2046) (hlt : c < 2046) :
    (x * y).rank ≤ powerRank c := by
  rw [mul_eq_ofRatio (isFinite_of_rank_le hx hk) (isFinite_of_rank_le hy hj)]
  refine nearestRank_le_of_le unit_pos (powerRank_lt hlt) ?_
  rw [magnitudeAt_powerRank]
  calc x.magnitude * y.magnitude ≤ 2 ^ (52 + k) * 2 ^ (52 + j) :=
        Nat.mul_le_mul (magnitude_le_of_rank_le hx) (magnitude_le_of_rank_le hy)
    _ = 2 ^ (1074 + (52 + c)) := by
        rw [← Nat.pow_add]
        congr 1
        omega
    _ = unit * 2 ^ (52 + c) := pow_eq_unit_mul _

/-- A factor of at most one does not make a number larger. -/
theorem rank_mul_le_left (hx : x.isFinite) (hy : y.isFinite) (h : y.magnitude ≤ unit) :
    (x * y).rank ≤ x.rank := by
  rw [mul_eq_ofRatio hx hy]
  refine nearestRank_le_of_le unit_pos (isFinite_iff.1 hx) ?_
  rw [Nat.mul_comm]
  exact Nat.mul_le_mul_right _ h

theorem negative_mul (hx : x.isFinite) (hy : y.isFinite) (h : x.negative = y.negative) :
    (x * y).negative = false := by
  rw [mul_eq_ofRatio hx hy, h]
  exact bne_self_eq_false _

theorem unit_le_magnitude_ofNat {n : Nat} (hn : 0 < n) : unit ≤ (ofNat n).magnitude := by
  rw [← magnitude_one]
  exact magnitude_ofNat_mono hn

theorem rank_ofNat_ne_zero {n : Nat} (hn : 0 < n) : (ofNat n).rank ≠ 0 := by
  intro h
  have hle := unit_le_magnitude_ofNat hn
  rw [magnitude, h, magnitudeAt_zero] at hle
  exact Nat.not_lt.2 hle unit_pos

/-- A quotient by a whole number, which is infinite if it is too large. -/
theorem div_ofNat {n : Nat} (hx : x.isFinite) (hn : 0 < n) :
    (x / ofNat n).rank ≤ x.rank ∧ (x / ofNat n).negative = x.negative := by
  rcases Nat.lt_or_eq_of_le (nearestRank_le (n * unit) 1) with hlt | heq
  · have hfinite : (ofNat n).isFinite := isFinite_iff.2 hlt
    rw [div_eq_ofRatio hx hfinite (rank_ofNat_ne_zero hn)]
    refine ⟨nearestRank_le_of_le ?_ (isFinite_iff.1 hx) ?_, Bool.bne_false _⟩
    · exact Nat.lt_of_lt_of_le unit_pos (unit_le_magnitude_ofNat hn)
    · rw [Nat.mul_comm]
      exact Nat.mul_le_mul_right _ (unit_le_magnitude_ofNat hn)
  · have hinfinite : (ofNat n).isInfinite = true := decide_eq_true heq
    have hdiv : x / ofNat n = withSign (x.negative != (ofNat n).negative) zero := by
      change div x (ofNat n) = _
      simp only [div, orNaN, isNaN_of_isFinite hx, show (ofNat n).isNaN = false from
        isNaN_ofRatio .., isInfinite_of_isFinite hx, hinfinite, Bool.false_eq_true, if_false,
        if_true]
    rw [hdiv]
    exact ⟨Nat.zero_le _, Bool.bne_false _⟩

end

/-! Square roots. -/

theorem rootOfPairs_mul_self_le (n pairs : Nat) :
    rootOfPairs n pairs * rootOfPairs n pairs ≤ n := by
  induction pairs generalizing n with
  | zero => exact Nat.zero_le n
  | succ pairs ih =>
    have hquarter := ih (n / 4)
    simp only [rootOfPairs]
    split
    · next h => exact h
    · generalize rootOfPairs (n / 4) pairs = r at hquarter
      rw [show 2 * r * (2 * r) = 4 * (r * r) by ring]
      omega

theorem wholeRoot_mul_self_le (n : Nat) : wholeRoot n * wholeRoot n ≤ n :=
  rootOfPairs_mul_self_le n _

theorem sqrt_of_not_negative {x : Binary64} (hx : x.isFinite) (h : x.negative = false) :
    x.sqrt.isFinite ∧ x.sqrt.negative = false := by
  rw [sqrt, isNaN_of_isFinite hx, isInfinite_of_isFinite hx, h]
  simp only [Bool.false_eq_true, if_false]
  split
  · exact ⟨hx, h⟩
  · refine ⟨isFinite_iff.2 ?_, rfl⟩
    generalize hr : wholeRoot (x.magnitude * unit) = r
    have hroot : r * r ≤ x.magnitude * unit := hr ▸ wholeRoot_mul_self_le _
    have hmax : x.magnitude ≤ magnitudeAt (infinityRank - 1) :=
      magnitudeAt_le_iff.2 (Nat.le_sub_one_of_lt (isFinite_iff.1 hx))
    obtain ⟨top, htop, hfinite⟩ : ∃ top, magnitudeAt (infinityRank - 1) * unit <
        magnitudeAt top * magnitudeAt top ∧ top < infinityRank :=
      ⟨powerRank 1600, by decide +kernel, powerRank_lt (by decide)⟩
    have hlt : r < magnitudeAt top := by
      refine Nat.lt_of_not_le fun hle => ?_
      have := Nat.mul_le_mul hle hle
      have := Nat.mul_le_mul_right unit hmax
      omega
    refine Nat.lt_of_le_of_lt (nearestRank_le_of_le (by decide) hfinite ?_) hfinite
    split <;> omega

end Binary64

end LatencyDigest
