import LatencyDigest.Binary64.Basic

/-!
Two orders: the comparison of numbers, in which the zeros are equal and a NaN stands beside nothing,
and the total order of bit patterns, in which only equal patterns are equal.
-/

namespace LatencyDigest.Binary64

/-- Where a number stands among the numbers; both zeros stand at `0`. -/
def place (x : Binary64) : Int := if x.negative then -x.rank else x.rank

instance : LT Binary64 := ⟨fun x y => x.isNaN = false ∧ y.isNaN = false ∧ x.place < y.place⟩

instance : LE Binary64 := ⟨fun x y => x.isNaN = false ∧ y.isNaN = false ∧ x.place ≤ y.place⟩

instance (x y : Binary64) : Decidable (x < y) :=
  inferInstanceAs (Decidable (_ ∧ _ ∧ _))

instance (x y : Binary64) : Decidable (x ≤ y) :=
  inferInstanceAs (Decidable (_ ∧ _ ∧ _))

/-- Equality of numbers: `-0` equals `0`, and a NaN equals nothing. -/
def Equal (x y : Binary64) : Prop := x ≤ y ∧ y ≤ x

instance (x y : Binary64) : Decidable (Equal x y) :=
  inferInstanceAs (Decidable (_ ∧ _))

/-- Where a bit pattern stands among all of them, from the negative NaNs to the positive ones. -/
def key (x : Binary64) : Int := if x.negative then -(x.rank + 1) else x.rank

def totalLE (x y : Binary64) : Bool := x.key ≤ y.key

theorem key_injective {x y : Binary64} (h : x.key = y.key) : x = y := by
  obtain ⟨s, n, hn⟩ := x
  obtain ⟨t, m, hm⟩ := y
  cases s <;> cases t <;> simp [key] at h ⊢ <;> omega

theorem totalLE_trans (x y z : Binary64) (h : x.totalLE y) (k : y.totalLE z) : x.totalLE z := by
  simp only [totalLE, decide_eq_true_eq] at *
  omega

theorem totalLE_total (x y : Binary64) : x.totalLE y || y.totalLE x := by
  simp only [totalLE, Bool.or_eq_true, decide_eq_true_eq]
  omega

theorem totalLE_antisymm {x y : Binary64} (h : x.totalLE y) (k : y.totalLE x) : x = y := by
  simp only [totalLE, decide_eq_true_eq] at h k
  exact key_injective (by omega)

end LatencyDigest.Binary64
