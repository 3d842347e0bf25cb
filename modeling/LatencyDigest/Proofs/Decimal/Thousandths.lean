import LatencyDigest.Proofs.Binary64.Operations
import LatencyDigest.Proofs.Decimal.Numeral

/-! Decimals with at most three places. Each is read as its number of thousandths by a thousand,
rounded once. -/

namespace LatencyDigest

def Binary64.ofThousandths (k : Nat) : Binary64 := ofRatio false (k * unit) 1000

/-- A decimal of `k` thousandths. The point may stand first or last, and zeros may be added. -/
inductive Thousandths (k : Nat) : List Char → Prop
  | whole : s ≠ [] → s.all Char.isDigit → Nat.ofDigitChars 10 s 0 * 1000 = k → Thousandths k s
  | point : whole ≠ [] ∨ places ≠ [] → whole.all Char.isDigit → places.all Char.isDigit →
      places.length ≤ 3 → Nat.ofDigitChars 10 (whole ++ places) 0 * 10 ^ (3 - places.length) = k →
      Thousandths k (whole ++ '.' :: places)

namespace Thousandths

variable {k : Nat} {s : List Char}

theorem ne_nil (h : Thousandths k s) : s ≠ [] := by
  cases h with
  | whole h => exact h
  | point => simp

theorem isDigit_or_eq (h : Thousandths k s) : ∀ c ∈ s, c.isDigit ∨ c = '.' := by
  intro c hc
  cases h with
  | whole _ hd => exact .inl (List.all_eq_true.1 hd c hc)
  | point _ hw hp =>
    rcases List.mem_append.1 hc with hc | hc
    · exact .inl (List.all_eq_true.1 hw c hc)
    · rcases List.mem_cons.1 hc with rfl | hc
      · exact .inr rfl
      · exact .inl (List.all_eq_true.1 hp c hc)

theorem toNat_mem (h : Thousandths k s) {c : Char} (hc : c ∈ s) : 46 ≤ c.toNat ∧ c.toNat ≤ 57 := by
  rcases h.isDigit_or_eq c hc with hd | rfl
  · have := Text.toNat_of_isDigit hd
    omega
  · decide

theorem not_mem {c : Char} (h : Thousandths k s) (hc : c.toNat < 46 ∨ 57 < c.toNat) : c ∉ s := by
  intro hm
  have := h.toNat_mem hm
  omega

theorem isBlank_eq_false (h : Thousandths k s) {c : Char} (hc : c ∈ s) :
    Text.isBlank c = false := by
  have := h.toNat_mem hc
  exact Text.isBlank_of_toNat (by omega)

theorem trim_eq (h : Thousandths k s) : Text.trim s = s :=
  Text.trim_eq_self (fun _ hc => h.isBlank_eq_false (List.mem_of_mem_head? hc))
    fun _ hc => h.isBlank_eq_false (List.mem_of_mem_getLast? hc)

/-- What has neither a sign nor a letter can only be a number. -/
theorem ofChars?_eq_map (h : Thousandths k s) : Binary64.ofChars? s =
    (Decimal.unsigned? s).map fun p => Binary64.ofDecimal false p.1 p.2 := by
  obtain ⟨c, r, rfl⟩ := List.exists_cons_of_ne_nil h.ne_nil
  have hc := h.toNat_mem List.mem_cons_self
  exact Binary64.ofChars?_of_sign (takeSign_of_toNat hc.1 r) hc

theorem exists_unsigned? (h : Thousandths k s) : ∃ c j : Nat, j ≤ 3 ∧ c * 10 ^ (3 - j) = k ∧
    Decimal.unsigned? s = some (c, -(j : Int)) := by
  cases h with
  | whole hs hd hk => exact ⟨_, 0, by decide, hk, Decimal.unsigned?_whole hs hd⟩
  | point hne hw hp hl hk => exact ⟨_, _, hl, hk, Decimal.unsigned?_point hne hw hp⟩

end Thousandths

theorem Binary64.ofDecimal_eq_ofThousandths (c : Nat) {j : Nat} (h : j ≤ 3) :
    ofDecimal false c (-(j : Int)) = ofThousandths (c * 10 ^ (3 - j)) := by
  have hplaces : 3 ≤ Decimal.places := by decide
  have hpow : 10 ^ (Decimal.places - j) * 1000 = 10 ^ (3 - j) * (unit * Decimal.least) := by
    have hthousand : 1000 = 10 ^ 3 := rfl
    rw [← Decimal.unit_eq, Decimal.unit_eq_pow, hthousand, ← Nat.pow_add, ← Nat.pow_add]
    congr 1
    omega
  rw [ofDecimal_eq_ofRatio false c (Nat.le_trans h hplaces)]
  refine ofRatio_congr _ Decimal.least_pos (by decide) ?_
  rw [Nat.mul_assoc, hpow]
  ring

theorem Thousandths.ofChars?_eq {k : Nat} {s : List Char} (h : Thousandths k s) :
    Binary64.ofChars? s = some (.ofThousandths k) := by
  obtain ⟨c, j, hj, rfl, hu⟩ := h.exists_unsigned?
  rw [h.ofChars?_eq_map, hu, Option.map_some, Binary64.ofDecimal_eq_ofThousandths c hj]

end LatencyDigest
