import LatencyDigest.Proofs.Binary64.Blend
import LatencyDigest.Proofs.Binary64.Grid

/-! Blends at a quarter, a half and three quarters. A quarter and a half of a number are exact, so
of the two products at most one is rounded. That is little enough for a number blended with itself
to come out unchanged, and for the three blends to be in order unless the numbers are neighbours. -/

namespace LatencyDigest.Binary64

/-- A magnitude with a quarter that is a magnitude too. -/
def Fourfold (r : Nat) : Prop := r = 0 ∨ 2 ≤ exponentAt r

theorem Fourfold.exists_eq {r : Nat} (h : Fourfold r) :
    ∃ s f, s < 2 ^ 53 ∧ magnitudeAt r = 4 * (s * 2 ^ f) ∧
      (r ≠ 0 → exponentAt r = f + 2 ∧ significandAt r = s ∧ 2 ^ 52 ≤ s) := by
  rcases h with rfl | h
  · exact ⟨0, 0, by decide, rfl, fun h => absurd rfl h⟩
  · obtain ⟨f, hf⟩ := Nat.exists_eq_add_of_le' h
    refine ⟨significandAt r, f, significandAt_lt r, ?_, fun _ => ⟨hf, rfl, ?_⟩⟩
    · rw [magnitudeAt_eq, hf]
      ring
    · exact (exponentAt_eq_zero_or r).resolve_left (by omega)

/-- A multiple of a quarter of a number, rounded. -/
theorem weighedMagnitude_quarters (k n : Nat) :
    weighedMagnitude (k * quarter) (4 * n) = magnitudeAt (nearestRank (k * n) 1) := by
  rw [weighedMagnitude, nearestRank_congr unit_pos Nat.one_pos]
  rw [unit_eq_quarter]
  ring

section
variable {r s f : Nat}

theorem magnitudeAt_nearestRank_part {c : Nat} (hr : r < infinityRank) (hs : s < 2 ^ 53)
    (h : magnitudeAt r = 4 * (s * 2 ^ f)) (hc : c = 1 ∨ c = 2) :
    magnitudeAt (nearestRank (c * (s * 2 ^ f)) 1) = c * (s * 2 ^ f) := by
  have hle := Nat.le_of_lt (magnitudeAt_lt_iff.2 hr)
  rcases hc with rfl | rfl
  · rw [Nat.one_mul]
    exact magnitudeAt_nearestRank (Nat.le_of_lt hs) (by omega)
  · have hdouble : 2 * (s * 2 ^ f) = s * 2 ^ (f + 1) := by ring
    rw [hdouble]
    exact magnitudeAt_nearestRank (Nat.le_of_lt hs) (by omega)

/-- Three quarters of a number stand on the grid of half its step. -/
theorem pow_dvd_three_quarters (hr : r < infinityRank) (h : magnitudeAt r = 4 * (s * 2 ^ f))
    (he : exponentAt r = f + 2) (hs : 2 ^ 52 ≤ s) :
    2 ^ (f + 1) ∣ magnitudeAt (nearestRank (3 * (s * 2 ^ f)) 1) := by
  refine pow_dvd_magnitudeAt ?_
  have hlow := two_mul_le_magnitudeAt_nearestRank Nat.one_pos hr (n := 3 * (s * 2 ^ f))
    (by have := magnitudeAt_lt_succ r; omega)
  have hscaled : 2 ^ 52 * 2 ^ f ≤ s * 2 ^ f := Nat.mul_le_mul_right _ hs
  have hpow : 2 ^ (52 + (f + 1)) = 2 * (2 ^ 52 * 2 ^ f) := by ring
  have hstep : 2 ^ exponentAt r = 4 * 2 ^ f := by
    rw [he]
    ring
  have := Nat.two_pow_pos f
  omega

/-- Three quarters of a number are rounded by half a step at most, and by so much only if the number
is even. -/
theorem nearestRank_three_quarters_add (hr : r < infinityRank)
    (h : magnitudeAt r = 4 * (s * 2 ^ f))
    (hparts : r ≠ 0 → exponentAt r = f + 2 ∧ significandAt r = s ∧ 2 ^ 52 ≤ s) :
    nearestRank (magnitudeAt (nearestRank (3 * (s * 2 ^ f)) 1) + s * 2 ^ f) 1 = r := by
  cases r with
  | zero =>
    have hzero : s * 2 ^ f = 0 := by
      rw [magnitudeAt_zero] at h
      omega
    rw [hzero, Nat.mul_zero, nearestRank_zero Nat.one_pos, magnitudeAt_zero,
      nearestRank_zero Nat.one_pos]
  | succ b =>
    obtain ⟨he, hsig, hs⟩ := hparts b.succ_ne_zero
    obtain ⟨t, ht⟩ := pow_dvd_three_quarters hr h he hs
    have hpos := Nat.two_pow_pos f
    have hparity := rank_eq (b + 1)
    have hup := two_mul_magnitudeAt_nearestRank_le Nat.one_pos hr (n := 3 * (s * 2 ^ f))
      (by have := magnitudeAt_lt_succ (b + 1); omega)
    have hlow := two_mul_le_magnitudeAt_nearestRank Nat.one_pos (Nat.lt_of_succ_lt hr)
      (n := 3 * (s * 2 ^ f)) (by have := Nat.mul_pos (Nat.lt_of_lt_of_le (by decide) hs) hpos; omega)
    have hstep : 2 ^ exponentAt (b + 1) = 4 * 2 ^ f := by
      rw [he]
      ring
    have hgrid : 2 ^ (f + 1) * t = 2 * (t * 2 ^ f) := by ring
    rw [ht, hgrid] at hup hlow ⊢
    refine Nat.le_antisymm ?_ ?_
    · rw [nearestRank_le_iff Nat.one_pos hr, mul_middle, hstep, h]
      refine (Nat.lt_or_eq_of_le (by omega)).imp_right fun htie => ⟨htie, ?_⟩
      have hodd : 4 * t = 6 * s + 4 := by
        refine Nat.eq_of_mul_eq_mul_right hpos ?_
        rw [Nat.add_mul, Nat.mul_assoc, Nat.mul_assoc]
        omega
      omega
    · refine Nat.lt_of_not_le fun hle => ?_
      rw [nearestRank_le_iff Nat.one_pos (Nat.lt_of_succ_lt hr), mul_middle] at hle
      have hnext := magnitudeAt_succ_eq_add b
      have hsplit := rank_eq b
      have hbound := significandAt_lt b
      have hexponent : exponentAt b = f + 2 ∨ exponentAt b = f + 1 ∧ s = 2 ^ 52 := by
        simp only [exponentAt, significandAt] at he hsig ⊢
        omega
      -- on the middle the number would be odd, or the lowest of its exponent
      rcases hexponent with he' | ⟨he', hlowest⟩
      · have hstep' : 2 ^ exponentAt b = 4 * 2 ^ f := by
          rw [he']
          ring
        have heven : 4 * t + 4 = 6 * s := by
          refine Nat.eq_of_mul_eq_mul_right hpos ?_
          rw [Nat.add_mul, Nat.mul_assoc, Nat.mul_assoc]
          omega
        omega
      · have hstep' : 2 ^ exponentAt b = 2 * 2 ^ f := by
          rw [he']
          ring
        have hodd : 4 * t + 2 = 6 * s := by
          refine Nat.eq_of_mul_eq_mul_right hpos ?_
          rw [Nat.add_mul, Nat.mul_assoc, Nat.mul_assoc]
          omega
        omega

end

theorem quarters_le_unit {k : Nat} (h : k ≤ 4) : k * quarter ≤ unit := by
  rw [unit_eq_quarter]
  exact Nat.mul_le_mul_right _ h

theorem unit_sub_quarters (k : Nat) : unit - k * quarter = (4 - k) * quarter := by
  rw [unit_eq_quarter, Nat.sub_mul]

theorem blend_quarters (m n k : Nat) : blend (4 * m : Nat) (4 * n : Nat) (k * quarter) =
    nearestRank (magnitudeAt (nearestRank ((4 - k) * m) 1) + magnitudeAt (nearestRank (k * n) 1))
      1 := by
  rw [blend_natCast, unit_sub_quarters, weighedMagnitude_quarters, weighedMagnitude_quarters]

theorem blend_magnitudeAt_self_quarters {r k : Nat} (hr : r < infinityRank) (h : Fourfold r)
    (hk : k ∈ [1, 2, 3]) : blend (magnitudeAt r) (magnitudeAt r) (k * quarter) = r := by
  obtain ⟨s, f, hs, hmagnitude, hparts⟩ := h.exists_eq
  have hthree := nearestRank_three_quarters_add hr hmagnitude hparts
  have hone := magnitudeAt_nearestRank_part hr hs hmagnitude (.inl rfl)
  have htwo := magnitudeAt_nearestRank_part hr hs hmagnitude (.inr rfl)
  have hwhole := nearestRank_of_magnitudeAt hr
  rw [hmagnitude] at hwhole
  rw [hmagnitude, blend_quarters]
  simp only [List.mem_cons, List.not_mem_nil, or_false] at hk
  obtain rfl | rfl | rfl := hk
  · rw [hone, Nat.one_mul, hthree]
  · rw [htwo, ← Nat.add_mul, hwhole]
  · rw [hone, Nat.one_mul, Nat.add_comm, hthree]

section
variable {a b A B : Nat}

/-- Two ranks further on the magnitude is larger by two of the steps at the lower one. -/
theorem magnitudeAt_add_two_le (hab : a + 2 ≤ b) :
    magnitudeAt a + 2 * 2 ^ exponentAt a ≤ magnitudeAt b := by
  have hstep : 2 ^ exponentAt a ≤ 2 ^ exponentAt (a + 1) :=
    Nat.pow_le_pow_right (by decide) (exponentAt_mono a.le_succ)
  have hfirst := magnitudeAt_succ_eq_add a
  have hsecond : magnitudeAt (a + 2) = magnitudeAt (a + 1) + 2 ^ exponentAt (a + 1) :=
    magnitudeAt_succ_eq_add (a + 1)
  have := magnitudeAt_le_iff.2 hab
  omega

theorem three_quarters_low_le (ha : a < infinityRank) (hab : a + 2 ≤ b)
    (hA : magnitudeAt a = 4 * A) (hB : magnitudeAt b = 4 * B) :
    magnitudeAt (nearestRank (3 * A) 1) ≤ 2 * A + B := by
  have herror := two_mul_magnitudeAt_nearestRank_le Nat.one_pos ha (n := 3 * A)
    (by have := magnitudeAt_lt_succ a; omega)
  have := magnitudeAt_add_two_le hab
  omega

theorem le_three_quarters_high (hb : b < infinityRank) (hab : a + 2 ≤ b)
    (he : 2 ≤ exponentAt b) (hA : magnitudeAt a = 4 * A) (hB : magnitudeAt b = 4 * B) :
    A + 2 * B ≤ magnitudeAt (nearestRank (3 * B) 1) := by
  obtain ⟨c, rfl⟩ := Nat.exists_eq_add_of_le' (Nat.le_of_add_left_le hab)
  -- three quarters of a number lie below the one before it
  have hbelow : 3 * B < magnitudeAt (c + 1) := by
    have hsig : 2 ^ 52 ≤ significandAt (c + 1) := by
      simp only [significandAt, exponentAt] at he ⊢
      omega
    have hpos := Nat.two_pow_pos (exponentAt (c + 1))
    have hmul : 4 * 2 ^ exponentAt (c + 1) ≤ significandAt (c + 1) * 2 ^ exponentAt (c + 1) :=
      Nat.mul_le_mul_right _ (Nat.le_trans (by decide) hsig)
    have hnext : magnitudeAt (c + 2) = magnitudeAt (c + 1) + 2 ^ exponentAt (c + 1) :=
      magnitudeAt_succ_eq_add (c + 1)
    rw [← magnitudeAt_eq] at hmul
    omega
  have herror := two_mul_le_magnitudeAt_nearestRank Nat.one_pos
    (Nat.lt_of_le_of_lt (Nat.le_add_right c 2) hb) (n := 3 * B) (by omega)
  have := magnitudeAt_add_two_le (Nat.le_refl (c + 2))
  have := magnitudeAt_le_iff.2 (show a ≤ c by omega)
  omega

theorem blend_magnitudeAt_quarters_le (hb : b < infinityRank) (hab : a + 2 ≤ b) (ha : Fourfold a)
    (hfour : Fourfold b) :
    blend (magnitudeAt a) (magnitudeAt b) (1 * quarter) ≤
        blend (magnitudeAt a) (magnitudeAt b) (2 * quarter) ∧
      blend (magnitudeAt a) (magnitudeAt b) (2 * quarter) ≤
        blend (magnitudeAt a) (magnitudeAt b) (3 * quarter) := by
  have hlt : a < infinityRank := by omega
  obtain ⟨s, f, hs, hA, -⟩ := ha.exists_eq
  obtain ⟨t, g, ht, hB, -⟩ := hfour.exists_eq
  have hlow := three_quarters_low_le hlt hab hA hB
  have hhigh := le_three_quarters_high hb hab (hfour.resolve_left (by omega)) hA hB
  have hone := magnitudeAt_nearestRank_part hlt hs hA (.inl rfl)
  have htwo := magnitudeAt_nearestRank_part hlt hs hA (.inr rfl)
  have hone' := magnitudeAt_nearestRank_part hb ht hB (.inl rfl)
  have htwo' := magnitudeAt_nearestRank_part hb ht hB (.inr rfl)
  have hquarter := blend_quarters (s * 2 ^ f) (t * 2 ^ g) 1
  have hhalf := blend_quarters (s * 2 ^ f) (t * 2 ^ g) 2
  have hrest := blend_quarters (s * 2 ^ f) (t * 2 ^ g) 3
  simp only [Nat.reduceSub] at hquarter hhalf hrest
  rw [hA, hB, hquarter, hhalf, hrest, hone, hone', htwo, htwo']
  constructor
  · exact Int.ofNat_le.2 (nearestWhole_mono (by omega))
  · exact Int.ofNat_le.2 (nearestWhole_mono (by omega))

end

section
variable {i j : Int}

theorem blend_self_quarters {k : Nat} (hi : i.natAbs < infinityRank) (h : Fourfold i.natAbs)
    (hk : k ∈ [1, 2, 3]) : blend (unitsAt i) (unitsAt i) (k * quarter) = i := by
  obtain ⟨r, rfl | rfl⟩ := Int.eq_nat_or_neg i
  · rw [unitsAt_natCast]
    exact blend_magnitudeAt_self_quarters hi h hk
  · rw [Int.natAbs_neg, Int.natAbs_natCast] at hi h
    rw [unitsAt_neg, blend_neg, unitsAt_natCast, blend_magnitudeAt_self_quarters hi h hk]

theorem blend_quarters_mono {k l m n : Nat} (hij : i ≤ j) (hkl : k ≤ l) (hk : k + m = 4)
    (hl : l + n = 4)
    (hup : ∀ r q : Nat, i = r → j = q → blend (magnitudeAt r) (magnitudeAt q) (k * quarter) ≤
      blend (magnitudeAt r) (magnitudeAt q) (l * quarter))
    (hdown : ∀ r q : Nat, i = -r → j = -q →
      blend (magnitudeAt q) (magnitudeAt r) (n * quarter) ≤
        blend (magnitudeAt q) (magnitudeAt r) (m * quarter)) :
    blend (unitsAt i) (unitsAt j) (k * quarter) ≤ blend (unitsAt i) (unitsAt j) (l * quarter) := by
  have hquarters : k * quarter ≤ l * quarter := Nat.mul_le_mul_right _ hkl
  have hunit := quarters_le_unit (Nat.le_of_add_right_le hl.le)
  obtain rfl : m = 4 - k := by omega
  obtain rfl : n = 4 - l := by omega
  rw [← unit_sub_quarters, ← unit_sub_quarters] at hdown
  generalize k * quarter = V at *
  generalize l * quarter = W at *
  have hle := blend_le_add (e := 0) hij hquarters hunit
    (fun r q hr hq => by simpa using hup r q hr hq)
    (fun r q hr hq => by simpa using hdown r q hr hq)
  simpa using hle

/-- Numbers that are not neighbours have their blends at the quarters in order. -/
theorem blend_quarters_le (hij : i + 2 ≤ j) (hi : i.natAbs < infinityRank)
    (hj : j.natAbs < infinityRank) (hfi : Fourfold i.natAbs) (hfj : Fourfold j.natAbs) :
    blend (unitsAt i) (unitsAt j) (1 * quarter) ≤ blend (unitsAt i) (unitsAt j) (2 * quarter) ∧
      blend (unitsAt i) (unitsAt j) (2 * quarter) ≤ blend (unitsAt i) (unitsAt j) (3 * quarter) := by
  have hup (r q : Nat) (hr : i = r) (hq : j = q) := by
    rw [hr, Int.natAbs_natCast] at hfi
    rw [hq, Int.natAbs_natCast] at hj hfj
    exact blend_magnitudeAt_quarters_le hj (a := r) (by omega) hfi hfj
  have hdown (r q : Nat) (hr : i = -r) (hq : j = -q) := by
    rw [hr, Int.natAbs_neg, Int.natAbs_natCast] at hi hfi
    rw [hq, Int.natAbs_neg, Int.natAbs_natCast] at hfj
    exact blend_magnitudeAt_quarters_le hi (a := q) (by omega) hfj hfi
  have hle : i ≤ j := by omega
  exact ⟨blend_quarters_mono (k := 1) (l := 2) (m := 3) (n := 2) hle (by decide) rfl rfl
      (fun r q hr hq => (hup r q hr hq).1) (fun r q hr hq => (hdown r q hr hq).2),
    blend_quarters_mono (k := 2) (l := 3) (m := 2) (n := 1) hle (by decide) rfl rfl
      (fun r q hr hq => (hup r q hr hq).2) (fun r q hr hq => (hdown r q hr hq).1)⟩

end

end LatencyDigest.Binary64
