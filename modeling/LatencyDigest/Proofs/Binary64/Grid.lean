import LatencyDigest.Proofs.Binary64.Bounds

/-! Grids, whose numbers are the multiples of a power of two: rounding gives a multiple again, and
up to 53 bits of them are exact. The whole numbers are such a grid, and so are the quarters and the
numbers right below one. -/

namespace LatencyDigest.Binary64

theorem eq_of_magnitude {x y : Binary64} (hs : x.negative = y.negative)
    (h : x.magnitude = y.magnitude) : x = y := by
  obtain ⟨s, r, hr⟩ := x
  obtain ⟨t, q, hq⟩ := y
  cases hs
  cases magnitudeAt_strictMono.injective h
  rfl

theorem nearestRank_magnitudeAt {r : Nat} (h : r ≤ infinityRank) :
    nearestRank (magnitudeAt r) 1 = r := by
  rcases Nat.lt_or_eq_of_le h with hlt | rfl
  · exact nearestRank_of_magnitudeAt hlt
  · exact Nat.le_antisymm (nearestRank_le _ _)
      (le_nearestRank_of_le Nat.one_pos (Nat.le_refl _) (Nat.one_mul _).le)

section
variable {k m r : Nat}

theorem pow_dvd_magnitudeAt (h : 2 ^ (52 + k) ≤ magnitudeAt r) : 2 ^ k ∣ magnitudeAt r := by
  have hlt : magnitudeAt r < 2 ^ (53 + exponentAt r) := by
    rw [Nat.pow_add]
    exact magnitudeAt_lt_mul r
  have hexponent : 52 + k < 53 + exponentAt r :=
    (Nat.pow_lt_pow_iff_right (by decide)).1 (Nat.lt_of_le_of_lt h hlt)
  rw [magnitudeAt_eq]
  exact Dvd.dvd.mul_left (Nat.pow_dvd_pow 2 (by omega)) _

theorem magnitudeAt_nearestRank (hm : m ≤ 2 ^ 53) (h : m * 2 ^ k ≤ magnitudeAt infinityRank) :
    magnitudeAt (nearestRank (m * 2 ^ k) 1) = m * 2 ^ k := by
  obtain ⟨r, hr⟩ := exists_magnitudeAt k hm
  rw [← hr] at h ⊢
  rw [nearestRank_magnitudeAt (magnitudeAt_le_iff.1 h)]

end

/-- A distance for a grid, far below the largest finite number. -/
def IsGrid (g : Nat) : Prop := ∃ k < 2045, g = 2 ^ k

namespace IsGrid

variable {g m n : Nat}

theorem pos (hg : IsGrid g) : 0 < g := by
  obtain ⟨k, -, rfl⟩ := hg
  exact Nat.two_pow_pos k

theorem mul_lt (hg : IsGrid g) (hm : m ≤ 2 ^ 53) : m * g < magnitudeAt infinityRank := by
  obtain ⟨k, hk, rfl⟩ := hg
  calc m * 2 ^ k ≤ 2 ^ 53 * 2 ^ k := Nat.mul_le_mul_right _ hm
    _ = magnitudeAt (powerRank (k + 1)) := by
        rw [magnitudeAt_powerRank, ← Nat.pow_add]
        congr 1
        omega
    _ < magnitudeAt infinityRank := magnitudeAt_lt_iff.2 (powerRank_lt (Nat.succ_lt_succ hk))

theorem magnitudeAt_nearestRank (hg : IsGrid g) (hm : m ≤ 2 ^ 53) :
    magnitudeAt (nearestRank (m * g) 1) = m * g := by
  have hle := Nat.le_of_lt (hg.mul_lt hm)
  obtain ⟨k, -, rfl⟩ := hg
  exact Binary64.magnitudeAt_nearestRank hm hle

theorem nearestRank_lt (hg : IsGrid g) (hm : m ≤ 2 ^ 53) : nearestRank (m * g) 1 < infinityRank := by
  rw [← magnitudeAt_lt_iff, hg.magnitudeAt_nearestRank hm]
  exact hg.mul_lt hm

theorem dvd_magnitudeAt_nearestRank (hg : IsGrid g) (h : g ∣ n) :
    g ∣ magnitudeAt (nearestRank n 1) := by
  obtain ⟨m, rfl⟩ := h
  rw [Nat.mul_comm]
  rcases Nat.le_total m (2 ^ 53) with hm | hm
  · rw [hg.magnitudeAt_nearestRank hm]
    exact Nat.dvd_mul_left _ _
  · have hmono : nearestRank (2 ^ 53 * g) 1 ≤ nearestRank (m * g) 1 :=
      nearestRank_mono Nat.one_pos Nat.one_pos
        (Nat.mul_le_mul_right 1 (Nat.mul_le_mul_right g hm))
    have hmagnitude := magnitudeAt_le_iff.2 hmono
    rw [hg.magnitudeAt_nearestRank (Nat.le_refl _)] at hmagnitude
    obtain ⟨k, -, rfl⟩ := hg
    refine pow_dvd_magnitudeAt (Nat.le_trans ?_ hmagnitude)
    rw [Nat.pow_add]
    exact Nat.mul_le_mul_right _ (by decide)

end IsGrid

theorem unit_eq_pow : unit = 2 ^ 1074 := by
  unfold unit
  generalize 1074 = k
  rfl

section
variable {a b : Nat}

theorem unit_eq_mul (h : a + b = 1074) : unit = 2 ^ a * 2 ^ b := by
  rw [← Nat.pow_add, h, unit_eq_pow]

theorem unit_div (h : a + b = 1074) : unit / 2 ^ a = 2 ^ b := by
  rw [unit_eq_mul h, Nat.mul_div_cancel_left _ (Nat.two_pow_pos a)]

theorem isGrid_unit_div (h : a + b = 1074) : IsGrid (unit / 2 ^ a) :=
  ⟨b, by omega, unit_div h⟩

theorem unit_eq_mul_div (h : a + b = 1074) : unit = 2 ^ a * (unit / 2 ^ a) := by
  rw [unit_div h]
  exact unit_eq_mul h

end

theorem isGrid_unit : IsGrid unit := ⟨1074, by decide, unit_eq_pow⟩

/-- The step between the numbers right below one. -/
def grain : Nat := unit / 2 ^ 53

theorem isGrid_grain : IsGrid grain := isGrid_unit_div (b := 1021) rfl

theorem unit_eq_grain : unit = 2 ^ 53 * grain := by
  rw [grain]
  exact unit_eq_mul_div (b := 1021) rfl

theorem grain_dvd_unit : grain ∣ unit := ⟨2 ^ 53, unit_eq_grain.trans (Nat.mul_comm _ _)⟩

theorem magnitudeAt_nearestRank_of_grain_dvd {n : Nat} (h : grain ∣ n) (hn : n ≤ unit) :
    magnitudeAt (nearestRank n 1) = n := by
  obtain ⟨m, hm⟩ := h
  rw [Nat.mul_comm] at hm
  have hle : m ≤ 2 ^ 53 :=
    Nat.le_of_mul_le_mul_right (hm.ge.trans (hn.trans unit_eq_grain.le)) isGrid_grain.pos
  rw [hm]
  exact isGrid_grain.magnitudeAt_nearestRank hle

def quarter : Nat := unit / 2 ^ 2

theorem isGrid_quarter : IsGrid quarter := isGrid_unit_div (b := 1072) rfl

theorem unit_eq_quarter : unit = 4 * quarter := by
  have hfour : 4 = 2 ^ 2 := rfl
  rw [quarter, hfour]
  exact unit_eq_mul_div (b := 1072) rfl

theorem quarter_eq_grain : quarter = 2 ^ 51 * grain := by
  have hquarter : 4 * quarter = 4 * (2 ^ 51 * grain) := by
    rw [← unit_eq_quarter, unit_eq_grain]
    ring
  exact Nat.eq_of_mul_eq_mul_left (by decide) hquarter

theorem grain_dvd_quarter : grain ∣ quarter :=
  ⟨2 ^ 51, quarter_eq_grain.trans (Nat.mul_comm _ _)⟩

end LatencyDigest.Binary64
