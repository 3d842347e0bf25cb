import LatencyDigest.Proofs.Statistics.Reading
import LatencyDigest.Report.Sweep

/-! Thresholds at which the exact rank is a whole number. The percentile is divided before it is
multiplied, so the quotient's error is in the rank, and what is left of it depends on the threshold.
Of a tenth of a percent it is the largest part of half a step, and there the number of values
decides. -/

namespace LatencyDigest

namespace Binary64

/-- Apart by less than one part in `2 ^ 54`. -/
def Near (n m : Nat) : Prop := 2 ^ 54 * (n - m) < m ∧ 2 ^ 54 * (m - n) < m

instance (n m : Nat) : Decidable (Near n m) := inferInstanceAs (Decidable (_ ∧ _))

theorem Near.of_mul {n m c : Nat} (h : Near (c * n) (c * m)) : Near n m := by
  obtain ⟨hup, hlow⟩ := h
  rw [← Nat.mul_sub, Nat.mul_left_comm] at hup hlow
  exact ⟨Nat.lt_of_mul_lt_mul_left hup, Nat.lt_of_mul_lt_mul_left hlow⟩

theorem Near.mul {n m c : Nat} (hc : 0 < c) (h : Near n m) : Near (c * n) (c * m) := by
  rw [Near, ← Nat.mul_sub, ← Nat.mul_sub, Nat.mul_left_comm, Nat.mul_left_comm (2 ^ 54)]
  exact ⟨Nat.mul_lt_mul_of_pos_left h.1 hc, Nat.mul_lt_mul_of_pos_left h.2 hc⟩

/-- A significand has at most 53 bits, so half a step is a part of that size at least. -/
theorem nearestRank_of_near {n r : Nat} (hr : r < infinityRank) (h : Near n (magnitudeAt r)) :
    nearestRank n 1 = r := by
  obtain ⟨hup, hlow⟩ := h
  refine Nat.le_antisymm ?_ ?_
  · have hbound := magnitudeAt_lt_mul r
    rw [nearestRank_le_iff Nat.one_pos hr, mul_middle]
    omega
  · cases r with
    | zero => exact Nat.zero_le _
    | succ p =>
      refine Nat.lt_of_not_le fun hle => ?_
      have hbound := magnitudeAt_succ_le_mul p
      have hstep := magnitudeAt_succ_eq_add p
      have hmiddle := (nearestRank_le_iff Nat.one_pos (Nat.lt_of_succ_lt hr)).1 hle
      rw [mul_middle] at hmiddle
      omega

/-- The step above a whole number. -/
theorem two_pow_exponentAt_ofNat {j k : Nat} (hlow : 2 ^ j ≤ k) (hhigh : k < 2 ^ (j + 1))
    (hk : k ≤ 2 ^ 53) : 2 ^ exponentAt (ofNat k).rank = 2 ^ (j + 1) * grain := by
  have hmagnitude : magnitudeAt (ofNat k).rank = k * unit := magnitude_ofNat hk
  obtain ⟨g, -, hg⟩ := isGrid_grain
  rw [unit_eq_grain, hg, ← Nat.pow_add] at hmagnitude
  rw [hg, ← Nat.pow_add]
  generalize (ofNat k).rank = r at hmagnitude ⊢
  have hbelow : 2 ^ (j + (53 + g)) ≤ magnitudeAt r := by
    rw [hmagnitude, Nat.pow_add]
    exact Nat.mul_le_mul_right _ hlow
  have habove : magnitudeAt r < 2 ^ (j + 1 + (53 + g)) := by
    rw [hmagnitude, Nat.pow_add 2 (j + 1)]
    exact Nat.mul_lt_mul_of_pos_right hhigh (Nat.two_pow_pos _)
  have hlt : magnitudeAt r < 2 ^ (53 + exponentAt r) := by
    rw [Nat.pow_add]
    exact magnitudeAt_lt_mul r
  have hle : 2 ^ (52 + exponentAt r) ≤ magnitudeAt r := by
    rw [magnitudeAt_eq, Nat.pow_add]
    refine Nat.mul_le_mul_right _ ((exponentAt_eq_zero_or r).resolve_left fun h => ?_)
    rw [h] at hlt
    have := Nat.pow_le_pow_right (n := 2) (by decide) (show 53 + 0 ≤ j + (53 + g) by omega)
    omega
  have h₁ := (Nat.pow_lt_pow_iff_right (a := 2) (by decide)).1 (Nat.lt_of_le_of_lt hbelow hlt)
  have h₂ := (Nat.pow_lt_pow_iff_right (a := 2) (by decide)).1 (Nat.lt_of_le_of_lt hle habove)
  congr 1
  omega

end Binary64

open Binary64

/-- Zeros up to an index, and ones beyond it. -/
def stepAfter (k n : Nat) : List Binary64 :=
  List.replicate (k + 1) zero ++ List.replicate (n - k) (ofNat 1)

section
variable {n k : Nat}

theorem length_stepAfter (h : k ≤ n) : (stepAfter k n).length = n + 1 := by
  simp only [stepAfter, List.length_append, List.length_replicate]
  omega

theorem getElem?_stepAfter : (stepAfter k n)[k]? = some zero := by
  rw [stepAfter, List.getElem?_append_left (by simp),
    List.getElem?_replicate_of_lt k.lt_succ_self]

theorem getElem?_stepAfter_succ (h : k < n) : (stepAfter k n)[k + 1]? = some (ofNat 1) := by
  rw [stepAfter, List.getElem?_append_right (by simp), List.length_replicate, Nat.sub_self,
    List.getElem?_replicate_of_lt (Nat.sub_pos_of_lt h)]

theorem pairwise_stepAfter : (stepAfter k n).Pairwise fun x y => x.totalLE y := by
  refine List.pairwise_append.2 ⟨?_, ?_, ?_⟩
  · exact List.pairwise_replicate.2 (.inr (by decide))
  · exact List.pairwise_replicate.2 (.inr (by decide +kernel))
  · rintro x hx y hy
    rw [List.eq_of_mem_replicate hx, List.eq_of_mem_replicate hy]
    decide +kernel

theorem isFinite_stepAfter : ∀ v ∈ stepAfter k n, v.isFinite := by
  intro v hv
  rcases List.mem_append.1 hv with hv | hv
  · rw [List.eq_of_mem_replicate hv]
    rfl
  · rw [List.eq_of_mem_replicate hv]
    exact isFinite_ofNat (by decide)

/-- The percentile of `n + 1` finite values in order is the value at the index `k`. -/
def ReadsAt (p : Binary64) (n k : Nat) : Prop :=
  ∀ values : List Binary64, values.length = n + 1 →
    values.Pairwise (fun x y => x.totalLE y) → (∀ v ∈ values, v.isFinite) →
      ∃ v, values[k]? = some v ∧ percentile values p = some v

theorem readsAt_of_rank {p : Binary64} (hn : n ≤ 2 ^ 53) (hk : k ≤ n)
    (h : percentileRank n p = ofNat k) : ReadsAt p n k := by
  intro values hlen _ _
  obtain ⟨v, hv⟩ : ∃ v, values[k]? = some v := ⟨_, List.getElem?_eq_getElem (by omega)⟩
  refine ⟨v, hv, ?_⟩
  rw [percentile_eq_valueAt (List.ne_nil_of_length_eq_add_one hlen), hlen, Nat.add_sub_cancel, h,
    valueAt_ofNat values (hk.trans hn), hv]

/-- A one that follows zeros is read with its weight. -/
theorem place_interpolate_zero_one {w : Binary64} {W : Nat} (h : w.Weighs W) :
    (interpolate zero (ofNat 1) w).place = w.rank := by
  have hfinite := isFinite_iff.1 h.isWeight.isFinite
  have hone : (ofNat 1).scaled = (unit : Nat) := congrArg Nat.cast magnitude_one
  have hproduct : weighedMagnitude W unit = w.magnitude := by
    rw [weighedMagnitude, ← h.magnitude_eq, magnitude, nearestRank_unit_mul hfinite]
  rw [place_interpolate rfl (isFinite_ofNat (by decide)) h, hone]
  change nearestPlace (weighed (unit - W) (0 : Nat) + weighed W unit) = _
  rw [weighed_natCast, weighed_natCast, weighedMagnitude_zero, hproduct, ← Int.natCast_add,
    Nat.zero_add, nearestPlace_natCast, magnitude, nearestRank_of_magnitudeAt hfinite]

theorem not_readsAt_of_between {p : Binary64} (hk : k < n) (h : (percentileRank n p).Between k)
    (hg : grain ∣ (percentileRank n p).magnitude) : ¬ReadsAt p n k := by
  intro hreads
  have hlen := length_stepAfter (Nat.le_of_lt hk)
  obtain ⟨v, hv, hvalue⟩ := hreads _ hlen pairwise_stepAfter isFinite_stepAfter
  have hweighs := h.weighs hg
  have hplace := place_interpolate_zero_one hweighs
  rw [getElem?_stepAfter] at hv
  rw [percentile_eq_valueAt (List.ne_nil_of_length_eq_add_one hlen), hlen, Nat.add_sub_cancel,
    valueAt_of_between h getElem?_stepAfter (getElem?_stepAfter_succ hk), ← hv] at hvalue
  rw [Option.some.inj hvalue] at hplace
  have hrank : (percentileRank n p - ofNat k).rank = 0 := (Int.ofNat.inj hplace).symm
  have hmagnitude := hweighs.magnitude_eq
  rw [magnitude, hrank, magnitudeAt_zero] at hmagnitude
  have := h.lt_magnitude
  omega

end

/-! The ranks of the thresholds. -/

theorem percentileRank_of_near {p : Binary64} {n k a b : Nat} (hp : (p / ofNat 100).isFinite)
    (hs : (p / ofNat 100).negative = false)
    (hnear : Near (b * (p / ofNat 100).magnitude) (a * unit)) (hb : 0 < b) (hn : n ≤ 2 ^ 53)
    (hk : k ≤ 2 ^ 53) (h : a * n = b * k) : percentileRank n p = ofNat k := by
  have hrank : nearestRank ((p / ofNat 100).magnitude * n) 1 = nearestRank (k * unit) 1 := by
    rcases Nat.eq_zero_or_pos n with rfl | hpos
    · have hzero : k = 0 := by
        rw [Nat.mul_zero] at h
        exact (Nat.mul_eq_zero.1 h.symm).resolve_left hb.ne'
      rw [hzero, Nat.mul_zero, Nat.zero_mul]
    · refine nearestRank_of_near (rank_ofNat_lt hk) ?_
      change Near _ (ofNat k).magnitude
      rw [magnitude_ofNat hk]
      refine Near.of_mul (c := b) ?_
      have hscaled := hnear.mul hpos
      have hexact : n * (a * unit) = b * (k * unit) := by
        rw [← Nat.mul_assoc, Nat.mul_comm n, h, Nat.mul_assoc]
      rwa [hexact, Nat.mul_left_comm, Nat.mul_comm n] at hscaled
  rw [percentileRank_eq_ofRatio hp hs hn]
  simp only [ofRatio, hrank]
  rfl

theorem quotient_near {tenths : Nat} (h : tenths ∈ [500, 750, 900, 950, 990]) :
    (ofDecimal false tenths (-1) / ofNat 100).isFinite ∧
      (ofDecimal false tenths (-1) / ofNat 100).negative = false ∧
        Near (1000 * (ofDecimal false tenths (-1) / ofNat 100).magnitude) (tenths * unit) := by
  have hall : ∀ tenths ∈ [500, 750, 900, 950, 990],
      (ofDecimal false tenths (-1) / ofNat 100).isFinite ∧
        (ofDecimal false tenths (-1) / ofNat 100).negative = false ∧
          Near (1000 * (ofDecimal false tenths (-1) / ofNat 100).magnitude) (tenths * unit) := by
    decide +kernel
  exact hall tenths h

/-- By far the worst of the quotients. -/
theorem quotient_of_nines :
    (ofDecimal false 999 (-1) / ofNat 100).isFinite ∧
      (ofDecimal false 999 (-1) / ofNat 100).negative = false ∧
        1000 * (ofDecimal false 999 (-1) / ofNat 100).magnitude = 999 * unit + 992 * grain := by
  decide +kernel

section
variable {m : Nat}

theorem percentileRank_of_nines (h : m < 2 ^ 40) :
    percentileRank (1000 * m) (ofDecimal false 999 (-1)) =
      ofRatio false (999 * m * unit + 992 * m * grain) 1 := by
  obtain ⟨hfinite, hs, hmagnitude⟩ := quotient_of_nines
  have hexact : (ofDecimal false 999 (-1) / ofNat 100).magnitude * (1000 * m) =
      999 * m * unit + 992 * m * grain := by
    rw [← Nat.mul_assoc, Nat.mul_comm _ 1000, hmagnitude]
    ring
  rw [percentileRank_eq_ofRatio hfinite hs (by omega), hexact]

/-- The error is at most half a step if and only if a power of two stands right below the whole
number. On the middle it never is, for the factor 31. -/
theorem nearestRank_of_nines_le_iff {j : Nat} (hlow : 2 ^ j ≤ 999 * m)
    (hhigh : 999 * m < 2 ^ (j + 1)) (h : m < 2 ^ 40) :
    nearestRank (999 * m * unit + 992 * m * grain) 1 ≤ (ofNat (999 * m)).rank ↔
      992 * m < 2 ^ j := by
  have hk : 999 * m ≤ 2 ^ 53 := by omega
  have hpos := isGrid_grain.pos
  have hmagnitude : magnitudeAt (ofNat (999 * m)).rank = 999 * m * unit := magnitude_ofNat hk
  have hmiddle : 992 * m ≠ 2 ^ j := by
    intro heq
    have hdvd : 31 ∣ 2 ^ j := ⟨32 * m, by omega⟩
    exact absurd (Nat.Coprime.eq_one_of_dvd (Nat.Coprime.pow_right j (by decide)) hdvd) (by decide)
  have hfinite := rank_ofNat_lt hk
  rw [nearestRank_le_iff Nat.one_pos hfinite, mul_middle, hmagnitude,
    two_pow_exponentAt_ofNat hlow hhigh hk, Nat.pow_succ]
  constructor
  · intro hle
    have hmul : 992 * m * grain ≤ 2 ^ j * grain := by
      rw [Nat.mul_right_comm (2 ^ j)] at hle
      omega
    exact Nat.lt_of_le_of_ne (Nat.le_of_mul_le_mul_right hmul hpos) hmiddle
  · intro hlt
    have hmul := Nat.mul_lt_mul_of_pos_right hlt hpos
    left
    rw [Nat.mul_right_comm (2 ^ j)]
    omega

/-- Beyond the middle the rank is read between the whole number and the next. -/
theorem between_of_nines (h : m < 2 ^ 40)
    (hlt : (ofNat (999 * m)).rank < nearestRank (999 * m * unit + 992 * m * grain) 1) :
    (percentileRank (1000 * m) (ofDecimal false 999 (-1))).Between (999 * m) ∧
      grain ∣ (percentileRank (1000 * m) (ofDecimal false 999 (-1))).magnitude := by
  have hk : 999 * m ≤ 2 ^ 53 := by omega
  have hgrain : grain ∣ 999 * m * unit + 992 * m * grain :=
    Nat.dvd_add (grain_dvd_unit.mul_left _) (Nat.dvd_mul_left _ _)
  have hquarter := quarter_eq_grain
  -- the number in the middle of the two whole ones has few enough bits
  have hbits : 4 * (999 * m) + 2 ≤ 2 ^ 53 := by omega
  have hr := isGrid_quarter.magnitudeAt_nearestRank hbits
  have hfinite := isGrid_quarter.nearestRank_lt hbits
  generalize nearestRank ((4 * (999 * m) + 2) * quarter) 1 = r at hr hfinite
  have hrank : nearestRank (999 * m * unit + 992 * m * grain) 1 ≤ r := by
    refine nearestRank_le_of_le Nat.one_pos hfinite ?_
    have hpart : 992 * m * grain ≤ 2 ^ 52 * grain := Nat.mul_le_mul_right _ (by omega)
    have hwhole : 4 * (999 * m) * quarter = 999 * m * unit := by
      rw [unit_eq_quarter]
      ring
    rw [Nat.one_mul, hr, Nat.add_mul, hwhole]
    omega
  rw [percentileRank_of_nines h]
  refine ⟨⟨isFinite_iff.2 (Nat.lt_of_le_of_lt hrank hfinite), rfl, by omega, ?_, ?_⟩,
    isGrid_grain.dvd_magnitudeAt_nearestRank hgrain⟩
  · have hbelow := magnitudeAt_lt_iff.2 hlt
    have hwhole : magnitudeAt (ofNat (999 * m)).rank = 999 * m * unit := magnitude_ofNat hk
    rw [hwhole] at hbelow
    exact hbelow
  · have habove := magnitudeAt_le_iff.2 hrank
    have hnext : magnitudeAt r < (999 * m + 1) * unit := by
      rw [hr, unit_eq_quarter, ← Nat.mul_assoc (999 * m + 1)]
      exact Nat.mul_lt_mul_of_pos_right (by omega) isGrid_quarter.pos
    exact Nat.lt_of_le_of_lt habove hnext

theorem readsAt_of_nines_iff (hpos : 0 < m) (h : m < 2 ^ 40) :
    ReadsAt (ofDecimal false 999 (-1)) (1000 * m) (999 * m) ↔
      ∃ j, 2 ^ j ≤ 999 * m ∧ 992 * m < 2 ^ j := by
  have hne : 999 * m ≠ 0 := by omega
  have hlow := Nat.log2_self_le hne
  have hhigh := Nat.lt_log2_self (n := 999 * m)
  have hiff := nearestRank_of_nines_le_iff hlow hhigh h
  have hk : 999 * m ≤ 2 ^ 53 := by omega
  constructor
  · intro hreads
    refine ⟨_, hlow, hiff.1 (Nat.le_of_not_lt fun hlt => ?_)⟩
    obtain ⟨hbetween, hgrain⟩ := between_of_nines h hlt
    exact not_readsAt_of_between (by omega) hbetween hgrain hreads
  · rintro ⟨j, hj, hlt⟩
    have hpow : 2 ^ j ≤ 2 ^ (999 * m).log2 := by
      refine Nat.pow_le_pow_right (by decide) (Nat.le_of_lt_succ ?_)
      exact (Nat.pow_lt_pow_iff_right (by decide)).1 (Nat.lt_of_le_of_lt hj hhigh)
    have hfinite := rank_ofNat_lt hk
    have hrank : nearestRank (999 * m * unit + 992 * m * grain) 1 = nearestRank (999 * m * unit) 1 :=
      Nat.le_antisymm (hiff.2 (Nat.lt_of_lt_of_le hlt hpow))
        (nearestRank_mono Nat.one_pos Nat.one_pos (Nat.mul_le_mul_right 1 (Nat.le_add_right _ _)))
    refine readsAt_of_rank (by omega) (by omega) ?_
    rw [percentileRank_of_nines h]
    simp only [ofRatio, hrank]
    rfl

end

theorem readsAt_of_mem {tenths n k : Nat} (ht : tenths ∈ [500, 750, 900, 950, 990])
    (hn : n ≤ 2 ^ 53) (hk : tenths * n = 1000 * k) :
    ReadsAt (ofDecimal false tenths (-1)) n k := by
  obtain ⟨hfinite, hs, hnear⟩ := quotient_near ht
  have hall : ∀ tenths ∈ [500, 750, 900, 950, 990], tenths ≤ 1000 := by decide
  have hle : k ≤ n := by
    have := Nat.mul_le_mul_right n (hall tenths ht)
    omega
  exact readsAt_of_rank hn hle
    (percentileRank_of_near hfinite hs hnear (by decide) hn (hle.trans hn) hk)

/-- What is read at a threshold, in tenths of a percent, where the exact rank is a whole number. The
last one reads that value only if a power of two stands between the rank and what the error of the
quotient is worth there. -/
theorem readsAt_threshold_iff {tenths n k : Nat} (ht : tenths ∈ [500, 750, 900, 950, 990, 999])
    (hn : n < 2 ^ 40) (hk : tenths * n = 1000 * k) :
    Sweep.thresholds = [500, 750, 900, 950, 990, 999].map (ofDecimal false · (-1)) ∧
      (ReadsAt (ofDecimal false tenths (-1)) n k ↔
        tenths ≠ 999 ∨ k = 0 ∨ ∃ j, 2 ^ j ≤ k ∧ 992 * k < 999 * 2 ^ j) := by
  refine ⟨by decide +kernel, ?_⟩
  by_cases hnines : tenths = 999
  · subst hnines
    obtain ⟨m, rfl, rfl⟩ : ∃ m, n = 1000 * m ∧ k = 999 * m := ⟨n / 1000, by omega, by omega⟩
    rcases Nat.eq_zero_or_pos m with rfl | hpos
    · refine iff_of_true (readsAt_of_rank (Nat.zero_le _) (Nat.le_refl _) ?_) (.inr (.inl rfl))
      decide +kernel
    · rw [readsAt_of_nines_iff hpos (by omega)]
      simp only [ne_eq, not_true_eq_false, false_or, show 999 * m ≠ 0 by omega]
      refine exists_congr fun j => and_congr_right fun _ => ?_
      omega
  · have hall : ∀ tenths ∈ [500, 750, 900, 950, 990, 999],
        tenths ≠ 999 → tenths ∈ [500, 750, 900, 950, 990] := by decide
    exact iff_of_true (readsAt_of_mem (hall tenths ht hnines) (by omega) hk) (.inl hnines)

/-- A number of values with a power of two in the right place. -/
theorem readsAt_threshold_of_power :
    999 ∈ [500, 750, 900, 950, 990, 999] ∧ 132000 < 2 ^ 40 ∧ 999 * 132000 = 1000 * 131868 ∧
      Sweep.thresholds = [500, 750, 900, 950, 990, 999].map (ofDecimal false · (-1)) ∧
      ReadsAt (ofDecimal false 999 (-1)) 132000 131868 := by
  obtain ⟨hthresholds, hiff⟩ :=
    readsAt_threshold_iff (show 999 ∈ [500, 750, 900, 950, 990, 999] by decide)
      (show 132000 < 2 ^ 40 by decide) (show 999 * 132000 = 1000 * 131868 by decide)
  exact ⟨by decide, by decide, by decide, hthresholds,
    hiff.2 (.inr (.inr ⟨17, by decide, by decide⟩))⟩

/-- Of a thousand zeros and a one the exact rank at the last threshold is that of the last zero, and
yet a part of the one is read. -/
theorem not_readsAt_thousand :
    999 * 1000 = 1000 * 999 ∧ (stepAfter 999 1000).length = 1001 ∧
      ((stepAfter 999 1000).Pairwise fun x y => x.totalLE y) ∧
      (∀ v ∈ stepAfter 999 1000, v.isFinite) ∧ (stepAfter 999 1000)[999]? = some zero ∧
      percentile (stepAfter 999 1000) (ofDecimal false 999 (-1)) =
        some (ofNat 1 / ofNat (2 ^ 43)) ∧
      ¬ReadsAt (ofDecimal false 999 (-1)) 1000 999 := by
  have hlen : (stepAfter 999 1000).length = 1001 := length_stepAfter (by decide)
  have hvalue : percentile (stepAfter 999 1000) (ofDecimal false 999 (-1)) =
      some (ofNat 1 / ofNat (2 ^ 43)) := by decide +kernel
  refine ⟨rfl, hlen, pairwise_stepAfter, isFinite_stepAfter, getElem?_stepAfter, hvalue, ?_⟩
  intro hreads
  obtain ⟨v, hv, hread⟩ := hreads _ hlen pairwise_stepAfter isFinite_stepAfter
  rw [hvalue] at hread
  rw [getElem?_stepAfter, ← hread] at hv
  exact absurd hv (by decide +kernel)

end LatencyDigest
