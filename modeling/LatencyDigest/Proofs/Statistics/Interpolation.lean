import LatencyDigest.Proofs.Binary64.Bounds
import LatencyDigest.Proofs.Statistics.Percentile

/-! Interpolation between two neighbours. The weight is the part of the rank beyond a whole number,
which is exact, so both weights lie between zero and one. -/

namespace LatencyDigest

namespace Binary64

/-- At least zero and at most one. -/
structure IsWeight (w : Binary64) : Prop where
  isFinite : w.isFinite
  negative : w.negative = false
  magnitude_le : w.magnitude ≤ unit

/-- A rank between two whole numbers that are indices. -/
structure Between (x : Binary64) (lower : Nat) : Prop where
  isFinite : x.isFinite
  negative : x.negative = false
  lower_lt : lower < 2 ^ 53
  lt_magnitude : lower * unit < x.magnitude
  magnitude_lt : x.magnitude < (lower + 1) * unit

theorem isWeight_sub_of_lt {x y : Binary64} (hx : x.isFinite) (hy : y.isFinite)
    (hnx : x.negative = false) (hny : y.negative = false) (h : y.magnitude ≤ x.magnitude)
    (hunit : x.magnitude ≤ y.magnitude + unit) : (x - y).IsWeight := by
  have hone : magnitudeAt (ofNat 1).rank = unit := magnitude_one
  have hfinite : (ofNat 1).rank < infinityRank := rank_ofNat_lt (by decide)
  have hrank : nearestRank (x.magnitude - y.magnitude) 1 ≤ (ofNat 1).rank := by
    refine nearestRank_le_of_le Nat.one_pos hfinite ?_
    omega
  rw [sub_eq_ofRatio hx hy hnx hny h]
  refine ⟨isFinite_iff.2 (Nat.lt_of_le_of_lt hrank hfinite), rfl, ?_⟩
  exact hone ▸ magnitudeAt_le_iff.2 hrank

/-- Beyond `2 ^ 53` all numbers are whole. -/
theorem magnitude_lt_of_mod_ne_zero {x : Binary64} (h : x.magnitude % unit ≠ 0) :
    x.magnitude < 2 ^ 53 * unit := by
  have hlow : 2 ^ exponentAt x.rank < unit := by
    refine Nat.lt_of_not_le fun hle => h ?_
    obtain ⟨k, hk⟩ := unit_eq
    rw [hk] at hle ⊢
    rw [Nat.pow_le_pow_iff_right (by decide)] at hle
    rw [magnitude, magnitudeAt_eq]
    exact Nat.mod_eq_zero_of_dvd (Dvd.dvd.mul_left (Nat.pow_dvd_pow 2 hle) _)
  calc x.magnitude < 2 ^ 53 * 2 ^ exponentAt x.rank := magnitudeAt_lt_mul x.rank
    _ ≤ 2 ^ 53 * unit := Nat.mul_le_mul_left _ (Nat.le_of_lt hlow)

theorem between_of_ne {x : Binary64} (h : x.floorIndex ≠ x.ceilIndex) :
    x.Between x.floorIndex := by
  rw [floorIndex, ceilIndex] at h
  rw [floorIndex]
  split at h
  · exact absurd rfl h
  · next hsign =>
    split at h
    · exact absurd rfl h
    · next hinfinite =>
      simp only [Bool.or_eq_true, not_or, Bool.not_eq_true] at hsign
      have hfinite : x.isFinite := by
        rw [isFinite_iff]
        have hnan := of_decide_eq_false hsign.1
        have hne := of_decide_eq_false (Bool.not_eq_true _ ▸ hinfinite)
        omega
      rw [if_neg (by simp [hsign]), if_neg hinfinite]
      have hpos := unit_pos
      have hmod := Nat.div_add_mod x.magnitude unit
      have hlt := Nat.mod_lt x.magnitude hpos
      have hfraction : x.magnitude % unit ≠ 0 := by
        intro hzero
        have hdvd := Nat.dvd_of_mod_eq_zero hzero
        obtain ⟨q, hq⟩ := hdvd
        refine h ?_
        rw [hq, Nat.mul_div_cancel_left q hpos, Nat.add_sub_assoc hpos,
          Nat.mul_add_div hpos, Nat.div_eq_of_lt (by omega), Nat.add_zero]
      have hsmall : x.magnitude / unit < 2 ^ 53 :=
        (Nat.div_lt_iff_lt_mul hpos).2 (magnitude_lt_of_mod_ne_zero hfraction)
      have hmin : min (x.magnitude / unit) maxIndex = x.magnitude / unit := by
        refine Nat.min_eq_left (Nat.le_trans (Nat.le_of_lt hsmall) ?_)
        decide
      rw [hmin]
      refine ⟨hfinite, hsign.2, hsmall, ?_, ?_⟩
      · rw [Nat.mul_comm]
        omega
      · rw [Nat.succ_mul, Nat.mul_comm]
        omega

theorem Between.isWeight {x : Binary64} {lower : Nat} (h : x.Between lower) :
    (x - ofNat lower).IsWeight := by
  have hmagnitude := magnitude_ofNat (Nat.le_of_lt h.lower_lt)
  have hfinite := isFinite_ofNat_of_le (Nat.le_of_lt h.lower_lt)
  have hlow := h.lt_magnitude
  have hhigh := h.magnitude_lt
  rw [Nat.succ_mul] at hhigh
  exact isWeight_sub_of_lt h.isFinite hfinite h.negative rfl (by omega) (by omega)

theorem IsWeight.complement {w : Binary64} (h : w.IsWeight) : (ofNat 1 - w).IsWeight := by
  have hone := magnitude_one
  have hle := h.magnitude_le
  exact isWeight_sub_of_lt (isFinite_ofNat (by decide)) h.isFinite rfl h.negative (by omega)
    (by omega)

end Binary64

open Binary64

section
variable {values : List Binary64} {rank v : Binary64} {k : Nat}

/-- The two ways in which a value is read at a rank. -/
theorem valueAt_cases (h : valueAt values rank = some v) :
    v ∈ values ∨ ∃ low ∈ values, ∃ high ∈ values, ∃ w : Binary64, w.IsWeight ∧
      (ofNat 1 - w).IsWeight ∧ v = low * (ofNat 1 - w) + high * w := by
  rw [valueAt] at h
  split at h
  · exact .inl (List.mem_of_getElem? h)
  · next hne =>
    have hweight := (between_of_ne hne).isWeight
    simp only [Option.bind_eq_bind, Option.bind_eq_some_iff] at h
    obtain ⟨low, hlow, high, hhigh, h⟩ := h
    exact .inr ⟨low, List.mem_of_getElem? hlow, high, List.mem_of_getElem? hhigh, _, hweight,
      hweight.complement, (Option.some.inj h).symm⟩

theorem rank_mul_weight_le {x w : Binary64} (hx : x.rank ≤ powerRank k) (hk : k < 2046)
    (hw : w.IsWeight) : (x * w).rank ≤ powerRank k :=
  Nat.le_trans (rank_mul_le_left (isFinite_of_rank_le hx hk) hw.isFinite hw.magnitude_le) hx

theorem rank_valueAt_le (h : valueAt values rank = some v)
    (hr : ∀ x ∈ values, x.rank ≤ powerRank k) (hk : k + 54 < 2046) :
    v.rank ≤ powerRank (k + 54) := by
  have hmono : powerRank k ≤ powerRank (k + 54) := powerRank_mono (Nat.le_add_right k 54)
  rcases valueAt_cases h with hv | ⟨low, hlow, high, hhigh, w, hw, hw', rfl⟩
  · exact Nat.le_trans (hr v hv) hmono
  · refine rank_add_le_of_rank_le (Nat.le_trans ?_ hmono) ?_ (Nat.le_refl _) hk
    · exact rank_mul_weight_le (hr low hlow) (by omega) hw'
    · exact rank_mul_weight_le (hr high hhigh) (by omega) hw

theorem negative_valueAt (h : valueAt values rank = some v)
    (hr : ∀ x ∈ values, x.rank ≤ powerRank k) (hn : ∀ x ∈ values, x.negative = false)
    (hk : k + 54 < 2046) : v.negative = false := by
  rcases valueAt_cases h with hv | ⟨low, hlow, high, hhigh, w, hw, hw', rfl⟩
  · exact hn v hv
  · have hfinite : ∀ x ∈ values, x.isFinite := fun x hx =>
      isFinite_of_rank_le (hr x hx) (by omega)
    have hproduct : ∀ x ∈ values, ∀ u : Binary64, u.IsWeight →
        (x * u).isFinite ∧ (x * u).negative = false := fun x hx u hu =>
      ⟨isFinite_of_rank_le (rank_mul_weight_le (hr x hx) (by omega) hu) (by omega),
        negative_mul (hfinite x hx) hu.isFinite ((hn x hx).trans hu.negative.symm)⟩
    obtain ⟨hl, hnl⟩ := hproduct low hlow _ hw'
    obtain ⟨hh, hnh⟩ := hproduct high hhigh _ hw
    exact negative_add_of_not_negative hl hh hnl hnh

end

end LatencyDigest
