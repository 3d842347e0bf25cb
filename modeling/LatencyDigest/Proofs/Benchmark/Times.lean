import LatencyDigest.Proofs.Benchmark.Soundness
import LatencyDigest.Proofs.Chart

/-! A literal stands for a finite number or for none: what is out of reach is refused, and not read
as an infinity. -/

namespace LatencyDigest

namespace Binary64

variable {x y : Binary64}

theorem ofDecimal_eq_ofNat {j : Nat} (h : j ≤ 308) : ofDecimal false 1 j = ofNat (10 ^ j) := by
  rw [ofDecimal, if_neg Nat.one_ne_zero, if_neg (by omega), if_neg (by omega),
    if_pos (Int.natCast_nonneg j), Int.toNat_natCast, Nat.one_mul]
  rfl

/-- The largest power of ten that a number is multiplied by. -/
theorem isFinite_ten_pow {j : Nat} (h : j ≤ 308) : (ofNat (10 ^ j)).isFinite := by
  obtain ⟨k, hk, hmax⟩ : ∃ k, j ≤ k ∧ (ofNat (10 ^ k)).rank < infinityRank :=
    ⟨308, h, by decide +kernel⟩
  have hle : 10 ^ j ≤ 10 ^ k := Nat.pow_le_pow_right (by decide) hk
  exact isFinite_iff.2 (Nat.lt_of_le_of_lt (rank_ofNat_mono hle) hmax)

theorem isFinite_mul (hx : x.isFinite) (hy : y.isFinite) (h : (x * y).isInfinite = false) :
    (x * y).isFinite := by
  rw [mul_eq_ofRatio hx hy] at h ⊢
  exact isFinite_iff.2 (Nat.lt_of_le_of_ne (nearestRank_le _ _) (of_decide_eq_false h))

theorem isFinite_div_ofNat {n : Nat} (hx : x.isFinite) (hn : 0 < n) : (x / ofNat n).isFinite :=
  isFinite_iff.2 (Nat.lt_of_le_of_lt (div_ofNat hx hn).1 (isFinite_iff.1 hx))

end Binary64

namespace Json.Literal

open Binary64

variable {l : Literal} {x y : Binary64}

theorem isFinite_div_power (hx : x.isFinite) {j : Nat} (hj : j ≤ 308) :
    (x / .ofDecimal false 1 j).isFinite := by
  rw [ofDecimal_eq_ofNat hj]
  exact isFinite_div_ofNat hx (Nat.pow_pos (by decide))

theorem isFinite_of_scale {e : Int} (hx : x.isFinite) (h : scale x e = some y) : y.isFinite := by
  fun_induction scale x e with
  | case1 x e he hzero =>
    cases h
    exact hx
  | case2 => cases h
  | case3 => cases h
  | case4 x e he hzero hle z hz =>
    obtain rfl : y = z := (Option.some.inj h).symm
    -- the power is finite, so the product is no NaN, and an infinite one has been refused
    obtain ⟨j, rfl⟩ := Int.eq_ofNat_of_zero_le he
    have hj : j ≤ 308 := by omega
    have hz : (x * .ofDecimal false 1 j).isInfinite = false := Bool.eq_false_iff.2 hz
    change (x * .ofDecimal false 1 j).isFinite
    rw [ofDecimal_eq_ofNat hj] at hz ⊢
    exact isFinite_mul hx (isFinite_ten_pow hj) hz
  | case5 x e he hle =>
    cases h
    obtain ⟨j, hj⟩ := Int.eq_ofNat_of_zero_le (show 0 ≤ -e by omega)
    rw [hj]
    exact isFinite_div_power hx (by omega)
  | case6 =>
    cases h
    exact hx
  | case7 x e _ _ _ ih => exact ih (isFinite_div_power hx (Nat.le_refl 308)) h

theorem isFinite_of_float (h : l.float = some x) : x.isFinite := by
  obtain ⟨y, hy, h⟩ := Option.bind_eq_some_iff.1 h
  have hlimit : wordLimit = 2 ^ 64 := rfl
  have hwhole := fit_lt (show 0 < wordLimit by decide) l.whole
  have hall := fit_lt hwhole l.places
  have hfinite := isFinite_of_scale (isFinite_ofNat (Nat.le_of_lt (hlimit ▸ hall))) hy
  cases h
  split
  · exact isFinite_neg hfinite
  · exact hfinite

theorem isFinite_of_seconds (h : l.seconds? = some x) : x.isFinite := by
  obtain ⟨v, hv, rfl⟩ := Option.map_eq_some_iff.1 h
  have hlimit : wordLimit = 2 ^ 64 := rfl
  have hwhole := fit_lt (show 0 < wordLimit by decide) l.whole
  rw [number] at hv
  generalize fit wordLimit 0 l.whole = found at hv hwhole
  obtain ⟨n, zeros⟩ := found
  dsimp only at hv hwhole
  split at hv
  · have hn : (ofNat n).isFinite := isFinite_ofNat (by omega)
    split at hv
    · cases hv
      rw [isFinite_iff] at hn ⊢
      rwa [rank_ofInt, Int.natAbs_neg, Int.natAbs_natCast]
    · cases hv
      exact hn
  · obtain ⟨x, hx, rfl⟩ := Option.map_eq_some_iff.1 hv
    exact isFinite_of_float hx

end Json.Literal

namespace Benchmark

open Json (Literal)

variable {b : Benchmark} {text : List UInt8}

theorem Written.isFinite (h : Written text b) : ∀ t ∈ b.times, t.isFinite := by
  obtain ⟨lit, -, hstands, -, -⟩ := h
  intro t ht
  rcases List.mem_append.1 ht with ht | ht
  · obtain ⟨l, -, hl⟩ := Aligned.exists_left_of_mem hstands.baseline ht
    exact Literal.isFinite_of_seconds hl
  · obtain ⟨l, -, hl⟩ := Aligned.exists_left_of_mem hstands.optimized ht
    exact Literal.isFinite_of_seconds hl

end Benchmark

end LatencyDigest
