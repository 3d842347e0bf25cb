import LatencyDigest.Binary64.Order
import LatencyDigest.Proofs.Binary64.Magnitude

/-! The total order of bit patterns by its clauses: the numbers in their order with `-0` before `0`,
the NaNs with a sign below them and the others above them, and the NaNs of one sign by their
payloads. -/

namespace LatencyDigest.Binary64

variable {x y : Binary64}

/-- A NaN that signals has this bit clear. -/
def isQuiet (x : Binary64) : Bool := 2 ^ 51 ≤ x.rank % 2 ^ 52

def payload (x : Binary64) : Nat := x.rank % 2 ^ 51

/-- The order of the NaNs without a sign: those that signal first, and then by the payload. -/
inductive Carries (x y : Binary64) : Prop where
  | signals (hx : x.isQuiet = false) (hy : y.isQuiet = true)
  | alike (hq : x.isQuiet = y.isQuiet) (hp : x.payload ≤ y.payload)

inductive Precedes (x y : Binary64) : Prop where
  | less (h : x < y)
  | equal (h : x.Equal y) (hs : y.negative → x.negative)
  | below (hx : x.isNaN = true) (sx : x.negative = true) (hy : y.isNaN = false)
  | above (hx : x.isNaN = false) (hy : y.isNaN = true) (sy : y.negative = false)
  | across (hx : x.isNaN = true) (hy : y.isNaN = true) (sx : x.negative = true)
      (sy : y.negative = false)
  | positive (hx : x.isNaN = true) (hy : y.isNaN = true) (sx : x.negative = false)
      (sy : y.negative = false) (h : Carries x y)
  | negative (hx : x.isNaN = true) (hy : y.isNaN = true) (sx : x.negative = true)
      (sy : y.negative = true) (h : Carries y x)

theorem isNaN_iff : x.isNaN = true ↔ infinityRank < x.rank := decide_eq_true_iff

theorem isNaN_eq_false_iff : x.isNaN = false ↔ x.rank ≤ infinityRank := by
  rw [← Bool.not_eq_true, isNaN_iff, Nat.not_lt]

/-- What stands behind the exponent of a NaN is its quiet bit and then its payload. -/
theorem carries_iff (hx : x.isNaN = true) (hy : y.isNaN = true) :
    Carries x y ↔ x.rank ≤ y.rank := by
  have hinfinity : infinityRank = 2047 * 2 ^ 52 := rfl
  have hxr : x.rank < 2048 * 2 ^ 52 := x.rank_lt
  have hyr : y.rank < 2048 * 2 ^ 52 := y.rank_lt
  rw [isNaN_iff, hinfinity] at hx hy
  constructor
  · rintro (⟨hqx, hqy⟩ | ⟨hq, hp⟩)
    · simp only [isQuiet, decide_eq_false_iff_not, decide_eq_true_iff] at hqx hqy
      omega
    · simp only [isQuiet, decide_eq_decide] at hq
      simp only [payload] at hp
      omega
  · intro h
    by_cases hq : x.isQuiet = y.isQuiet
    · refine .alike hq ?_
      simp only [isQuiet, decide_eq_decide] at hq
      simp only [payload]
      omega
    · simp only [isQuiet, decide_eq_decide] at hq
      refine .signals (decide_eq_false ?_) (decide_eq_true ?_) <;> omega

theorem totalLE_iff : x.totalLE y ↔ x.key ≤ y.key := decide_eq_true_iff

theorem place_le_of_totalLE (h : x.totalLE y) : x.place ≤ y.place := by
  rw [totalLE_iff] at h
  simp only [key, place] at h ⊢
  split at h <;> split at h <;> simp_all <;> omega

theorem totalLE_of_place_lt (h : x.place < y.place) : x.totalLE y := by
  refine (Bool.or_eq_true_iff.1 (totalLE_total x y)).resolve_right fun hyx => ?_
  exact Int.not_lt.2 (place_le_of_totalLE hyx) h

theorem key_of_negative (h : x.negative = true) : x.key = -((x.rank : Int) + 1) := if_pos h

theorem key_of_not_negative (h : x.negative = false) : x.key = x.rank := by
  rw [key, if_neg (by simp [h])]

/-- Below zero the order of the ranks is turned round. -/
theorem totalLE_of_rank (hn : y.negative = true → x.negative = true ∧ y.rank ≤ x.rank)
    (hp : x.negative = false → x.rank ≤ y.rank) : x.totalLE y := by
  rw [totalLE_iff]
  cases sx : x.negative with
  | true =>
    rw [key_of_negative sx]
    cases sy : y.negative with
    | true =>
      rw [key_of_negative sy]
      have := (hn sy).2
      omega
    | false =>
      rw [key_of_not_negative sy]
      omega
  | false =>
    have sy : y.negative = false := by
      rw [← Bool.not_eq_true]
      exact fun h => by simp [(hn h).1] at sx
    rw [key_of_not_negative sx, key_of_not_negative sy]
    exact Int.ofNat_le.2 (hp sx)

/-- The sign decides between numbers at one place, which are the zeros. -/
theorem totalLE_iff_of_place_eq (h : x.place = y.place) :
    x.totalLE y ↔ (y.negative → x.negative) := by
  rw [totalLE_iff]
  simp only [key, place] at h ⊢
  cases hx : x.negative <;> cases hy : y.negative <;> simp [hx, hy] at h ⊢ <;> omega

theorem totalLE_of_precedes (h : Precedes x y) : x.totalLE y := by
  cases h with
  | less h => exact totalLE_of_place_lt h.2.2
  | equal h hs => exact (totalLE_iff_of_place_eq (Int.le_antisymm h.1.2.2 h.2.2.2)).2 hs
  | below hx sx hy =>
    rw [isNaN_iff] at hx
    rw [isNaN_eq_false_iff] at hy
    rw [totalLE_iff, key_of_negative sx, key]
    split <;> omega
  | above hx hy sy =>
    rw [isNaN_eq_false_iff] at hx
    rw [isNaN_iff] at hy
    rw [totalLE_iff, key_of_not_negative sy, key]
    split <;> omega
  | across _ _ sx sy =>
    rw [totalLE_iff, key_of_negative sx, key_of_not_negative sy]
    omega
  | positive hx hy sx sy h =>
    rw [carries_iff hx hy] at h
    rw [totalLE_iff, key_of_not_negative sx, key_of_not_negative sy]
    omega
  | negative hx hy sx sy h =>
    rw [carries_iff hy hx] at h
    rw [totalLE_iff, key_of_negative sx, key_of_negative sy]
    omega

theorem precedes_of_numbers (hx : x.isNaN = false) (hy : y.isNaN = false) (h : x.totalLE y) :
    Precedes x y := by
  rcases Int.lt_or_eq_of_le (place_le_of_totalLE h) with hlt | heq
  · exact .less ⟨hx, hy, hlt⟩
  · exact .equal ⟨⟨hx, hy, Int.le_of_eq heq⟩, hy, hx, Int.le_of_eq heq.symm⟩ ((totalLE_iff_of_place_eq heq).1 h)

theorem precedes_of_nans (hx : x.isNaN = true) (hy : y.isNaN = true) (h : x.totalLE y) :
    Precedes x y := by
  rw [totalLE_iff] at h
  cases sx : x.negative with
  | false =>
    rw [key_of_not_negative sx] at h
    cases sy : y.negative with
    | false =>
      rw [key_of_not_negative sy] at h
      exact .positive hx hy sx sy ((carries_iff hx hy).2 (by omega))
    | true =>
      rw [key_of_negative sy] at h
      omega
  | true =>
    rw [key_of_negative sx] at h
    cases sy : y.negative with
    | false => exact .across hx hy sx sy
    | true =>
      rw [key_of_negative sy] at h
      exact .negative hx hy sx sy ((carries_iff hy hx).2 (by omega))

theorem precedes_iff : Precedes x y ↔ x.totalLE y := by
  refine ⟨totalLE_of_precedes, fun h => ?_⟩
  -- the other way round only equal patterns would be in order
  have hback (hyx : Precedes y x) : x = y := totalLE_antisymm h (totalLE_of_precedes hyx)
  cases hx : x.isNaN with
  | false =>
    cases hy : y.isNaN with
    | false => exact precedes_of_numbers hx hy h
    | true =>
      cases sy : y.negative with
      | false => exact .above hx hy sy
      | true => simp [hback (.below hy sy hx), hy] at hx
  | true =>
    cases hy : y.isNaN with
    | false =>
      cases sx : x.negative with
      | true => exact .below hx sx hy
      | false => simp [hback (.above hy hx sx), hy] at hx
    | true => exact precedes_of_nans hx hy h

end LatencyDigest.Binary64
