import LatencyDigest.Binary64.Basic
import Mathlib.Tactic.Ring

/-! The magnitudes of the ranks: each is a significand of at most 53 bits at an exponent, and they
stand in the order of the ranks. -/

namespace LatencyDigest.Binary64

def exponentAt (r : Nat) : Nat := r / 2 ^ 52 - 1

def significandAt (r : Nat) : Nat := r - exponentAt r * 2 ^ 52

theorem rank_eq (r : Nat) : r = exponentAt r * 2 ^ 52 + significandAt r := by
  simp only [significandAt, exponentAt]
  omega

theorem significandAt_lt (r : Nat) : significandAt r < 2 ^ 53 := by
  simp only [significandAt, exponentAt]
  omega

/-- Only the lowest exponent has significands of fewer than 53 bits. -/
theorem exponentAt_eq_zero_or (r : Nat) : exponentAt r = 0 ∨ 2 ^ 52 ≤ significandAt r := by
  simp only [significandAt, exponentAt]
  omega

theorem exponentAt_mono {r r' : Nat} (h : r ≤ r') : exponentAt r ≤ exponentAt r' := by
  simp only [exponentAt]
  omega

/-- A carry out of the significand is a step of the exponent. -/
theorem magnitudeAt_add {e s : Nat} (h : e = 0 ∨ 2 ^ 52 ≤ s) (hs : s ≤ 2 ^ 53) :
    magnitudeAt (e * 2 ^ 52 + s) = s * 2 ^ e := by
  rw [magnitudeAt]
  change (if _ < 2 ^ 52 then _ else (2 ^ 52 + (e * 2 ^ 52 + s) % 2 ^ 52) *
    2 ^ ((e * 2 ^ 52 + s) / 2 ^ 52 - 1)) = _
  split
  · next hlt =>
    have he : e = 0 := by omega
    simp [he]
  · next hge =>
    rcases Nat.lt_or_ge s (2 ^ 53) with hlt | hge'
    · have hm : 2 ^ 52 + (e * 2 ^ 52 + s) % 2 ^ 52 = s := by omega
      have hd : (e * 2 ^ 52 + s) / 2 ^ 52 - 1 = e := by omega
      rw [hm, hd]
    · have hm : 2 ^ 52 + (e * 2 ^ 52 + s) % 2 ^ 52 = 2 ^ 52 := by omega
      have hd : (e * 2 ^ 52 + s) / 2 ^ 52 - 1 = e + 1 := by omega
      have hs' : s = 2 ^ 52 * 2 := by omega
      rw [hm, hd, hs', Nat.mul_assoc, ← Nat.pow_succ' (n := e)]

theorem magnitudeAt_eq (r : Nat) : magnitudeAt r = significandAt r * 2 ^ exponentAt r := by
  conv => lhs; rw [rank_eq r]
  exact magnitudeAt_add (exponentAt_eq_zero_or r) (Nat.le_of_lt (significandAt_lt r))

theorem magnitudeAt_succ (r : Nat) :
    magnitudeAt (r + 1) = (significandAt r + 1) * 2 ^ exponentAt r := by
  conv => lhs; rw [rank_eq r, Nat.add_assoc]
  refine magnitudeAt_add ?_ (significandAt_lt r)
  exact (exponentAt_eq_zero_or r).imp_right Nat.le_succ_of_le

theorem magnitudeAt_succ_eq_add (r : Nat) :
    magnitudeAt (r + 1) = magnitudeAt r + 2 ^ exponentAt r := by
  rw [magnitudeAt_succ, magnitudeAt_eq, Nat.succ_mul]

theorem magnitudeAt_lt_succ (r : Nat) : magnitudeAt r < magnitudeAt (r + 1) := by
  rw [magnitudeAt_succ_eq_add]
  exact Nat.lt_add_of_pos_right (Nat.two_pow_pos _)

theorem magnitudeAt_succ_le_mul (r : Nat) : magnitudeAt (r + 1) ≤ 2 ^ 53 * 2 ^ exponentAt r := by
  rw [magnitudeAt_succ]
  exact Nat.mul_le_mul_right _ (significandAt_lt r)

theorem magnitudeAt_lt_mul (r : Nat) : magnitudeAt r < 2 ^ 53 * 2 ^ exponentAt r :=
  Nat.lt_of_lt_of_le (magnitudeAt_lt_succ r) (magnitudeAt_succ_le_mul r)

theorem magnitudeAt_strictMono : StrictMono magnitudeAt :=
  strictMono_nat_of_lt_succ magnitudeAt_lt_succ

theorem magnitudeAt_le_iff {r r' : Nat} : magnitudeAt r ≤ magnitudeAt r' ↔ r ≤ r' :=
  magnitudeAt_strictMono.le_iff_le

theorem magnitudeAt_lt_iff {r r' : Nat} : magnitudeAt r < magnitudeAt r' ↔ r < r' :=
  magnitudeAt_strictMono.lt_iff_lt

theorem magnitudeAt_succ_le {r r' : Nat} (h : r < r') : magnitudeAt (r + 1) ≤ magnitudeAt r' :=
  magnitudeAt_le_iff.2 h

@[simp] theorem magnitudeAt_zero : magnitudeAt 0 = 0 := rfl

/-- A step between normal ranks is small against what it starts from. -/
theorem magnitudeAt_succ_mul_le {r : Nat} (h : 2 ^ 52 ≤ r) :
    magnitudeAt (r + 1) * 2 ^ 52 ≤ magnitudeAt r * (2 ^ 52 + 1) := by
  have hs : 2 ^ 52 ≤ significandAt r := by
    simp only [significandAt, exponentAt]
    omega
  rw [magnitudeAt_succ_eq_add, magnitudeAt_eq, Nat.add_mul, Nat.mul_add, Nat.mul_one,
    Nat.add_le_add_iff_left, Nat.mul_comm]
  exact Nat.mul_le_mul_right _ hs

/-- Each number of at most 53 bits has a rank, wherever its lowest bit stands. -/
theorem exists_magnitudeAt {m : Nat} (k : Nat) (h : m ≤ 2 ^ 53) :
    ∃ r, magnitudeAt r = m * 2 ^ k := by
  induction k generalizing m with
  | zero => exact ⟨0 * 2 ^ 52 + m, magnitudeAt_add (.inl rfl) h⟩
  | succ k ih =>
    rcases Nat.lt_or_ge m (2 ^ 52) with hlt | hge
    · obtain ⟨r, hr⟩ := ih (m := m * 2) (by omega)
      exact ⟨r, by rw [hr, Nat.pow_succ', Nat.mul_assoc]⟩
    · exact ⟨(k + 1) * 2 ^ 52 + m, magnitudeAt_add (.inr hge) h⟩

end LatencyDigest.Binary64
