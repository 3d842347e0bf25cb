import LatencyDigest.Proofs.Binary64.Grid
import LatencyDigest.Proofs.Binary64.TotalOrder

/-! What it is to be the nearest number to a quotient, without a word on how it is found, and the
whole numbers up to `2 ^ 53` in sums and quotients: a sum of them is exact, and a quotient of two of
them is rounded once. -/

namespace LatencyDigest.Binary64

/-- How far `z` is from `n / q`, in parts of size `1 / q`. -/
def gap (z n : Int) (q : Nat) : Nat := (z * q - n).natAbs

theorem gap_neg (z n : Int) (q : Nat) : gap (-z) (-n) q = gap z n q := by
  simp only [gap, Int.neg_mul]
  omega

/-- No finite number lies closer to `p / q`, and if another lies as close then the last bit of this
one is clear. A zero has the sign of the quotient. -/
structure IsRounded (x : Binary64) (p : Int) (q : Nat) : Prop where
  isFinite : x.isFinite
  nearest : ∀ y : Binary64, y.isFinite → gap x.scaled (p * unit) q ≤ gap y.scaled (p * unit) q
  even : ∀ y : Binary64, y.isFinite → y.scaled ≠ x.scaled →
    gap y.scaled (p * unit) q = gap x.scaled (p * unit) q → x.rank % 2 = 0
  negative_eq : x.negative = decide (p < 0)

section
variable {n q r k : Nat}

/-- The two middles beside the nearest rank keep every other rank away. -/
theorem gap_lt_or (hq : 0 < q) (hr : r < infinityRank) (hrank : nearestRank n q = r)
    (hk : k ≠ r) : gap (magnitudeAt r) n q < gap (magnitudeAt k) n q ∨
      gap (magnitudeAt r) n q = gap (magnitudeAt k) n q ∧ r % 2 = 0 := by
  have hcast (j : Nat) : (magnitudeAt j : Int) * q = (q * magnitudeAt j : Nat) := by
    rw [Int.natCast_mul, Int.mul_comm]
  simp only [gap, hcast]
  rcases Nat.lt_or_gt_of_ne hk with hlt | hgt
  · obtain ⟨b, rfl⟩ : ∃ b, r = b + 1 := ⟨r - 1, by omega⟩
    have habove := (nearestRank_le_iff (n := n) hq (Nat.lt_of_succ_lt hr)).not.1 (by omega)
    have hle := Nat.mul_le_mul_left q (magnitudeAt_le_iff.2 (Nat.le_of_lt_succ hlt))
    have hstep := Nat.mul_lt_mul_of_pos_left (magnitudeAt_lt_succ b) hq
    rw [middle, Nat.mul_add] at habove
    omega
  · have hbelow := (nearestRank_le_iff hq hr).1 (Nat.le_of_eq hrank)
    have hle := Nat.mul_le_mul_left q (magnitudeAt_succ_le hgt)
    have hstep := Nat.mul_lt_mul_of_pos_left (magnitudeAt_lt_succ r) hq
    rw [middle, Nat.mul_add] at hbelow
    omega

/-- A number on the other side of zero is no closer than zero is. -/
theorem gap_lt_or_of_ne {z : Int} (hq : 0 < q) (hr : r < infinityRank)
    (hrank : nearestRank n q = r) (hz : z.natAbs = magnitudeAt k) (hne : z ≠ magnitudeAt r) :
    gap (magnitudeAt r) n q < gap z n q ∨
      gap (magnitudeAt r) n q = gap z n q ∧ r % 2 = 0 := by
  by_cases hpos : z = magnitudeAt k
  · subst hpos
    exact gap_lt_or hq hr hrank fun h => hne (h ▸ rfl)
  · have hneg : z * q = -(magnitudeAt k * q : Nat) := by
      rw [show z = -(magnitudeAt k : Int) by omega, Int.neg_mul, Int.natCast_mul]
    have hk : 0 < magnitudeAt k * q := Nat.mul_pos (by omega) hq
    have hn : n = 0 → r = 0 := by
      rintro rfl
      rw [← hrank, nearestRank_zero hq]
    by_cases h : k = r
    · subst h
      simp only [gap, hneg, ← Int.natCast_mul]
      have : n ≠ 0 := fun h => by simp [hn h] at hk
      omega
    · have hnearest := gap_lt_or hq hr hrank h
      simp only [gap, hneg, ← Int.natCast_mul] at hnearest ⊢
      omega

end

theorem isRounded_ofRatio {p : Int} {q : Nat} (hq : 0 < q)
    (h : (ofRatio (p < 0) (p.natAbs * unit) q).isFinite) :
    IsRounded (ofRatio (p < 0) (p.natAbs * unit) q) p q := by
  generalize hx : ofRatio (p < 0) (p.natAbs * unit) q = x at h ⊢
  have hnegative : x.negative = decide (p < 0) := hx ▸ rfl
  have hrank : nearestRank (p.natAbs * unit) q = x.rank := hx ▸ rfl
  have hother (y : Binary64) (hne : y.scaled ≠ x.scaled) :
      gap x.scaled (p * unit) q < gap y.scaled (p * unit) q ∨
        gap x.scaled (p * unit) q = gap y.scaled (p * unit) q ∧ x.rank % 2 = 0 := by
    have hcast : (p.natAbs * unit : Nat) = (p.natAbs : Int) * unit := Int.natCast_mul _ _
    rcases Int.lt_or_le p 0 with hp | hp
    · -- both with their signs taken off
      have hscaled : x.scaled = -x.magnitude := by
        rw [scaled_of_negative (hnegative.trans (decide_eq_true hp))]
      have hunit : p * unit = -(p.natAbs * unit : Nat) := by
        rw [hcast, ← Int.neg_mul, Int.ofNat_natAbs_of_nonpos (Int.le_of_lt hp), Int.neg_neg]
      rw [hunit, hscaled, gap_neg, ← Int.neg_neg y.scaled, gap_neg]
      rw [hscaled] at hne
      exact gap_lt_or_of_ne hq (isFinite_iff.1 h) hrank ((Int.natAbs_neg _).trans (natAbs_scaled y))
        fun heq => hne (by rw [← Int.neg_neg y.scaled, heq]; rfl)
    · have hscaled : x.scaled = x.magnitude :=
        scaled_of_not_negative (hnegative.trans (decide_eq_false (Int.not_lt.2 hp)))
      have hunit : p * unit = (p.natAbs * unit : Nat) := by
        rw [hcast, Int.natAbs_of_nonneg hp]
      rw [hunit, hscaled]
      rw [hscaled] at hne
      exact gap_lt_or_of_ne hq (isFinite_iff.1 h) hrank (natAbs_scaled y) hne
  refine ⟨h, fun y _ => ?_, fun y _ hne heq => ?_, hnegative⟩
  · by_cases hne : y.scaled = x.scaled
    · rw [hne]
    · exact (hother y hne).elim Nat.le_of_lt fun heq => Nat.le_of_eq heq.1
  · exact ((hother y hne).resolve_left fun hlt => Nat.ne_of_gt hlt heq).2

section
variable {x y : Binary64} {p : Int} {q : Nat}

/-- The gaps of the numbers of one sign are gaps of their magnitudes. -/
theorem exists_gap_eq (s : Bool) (n : Int) (q : Nat) :
    ∃ m : Int, ∀ w : Binary64, w.negative = s → gap w.scaled n q = gap w.magnitude m q := by
  cases s with
  | true =>
    refine ⟨-n, fun w hw => ?_⟩
    rw [scaled_of_negative hw, ← gap_neg, Int.neg_neg]
  | false =>
    refine ⟨n, fun w hw => ?_⟩
    rw [scaled_of_not_negative hw]

/-- Between two numbers whose last bits are clear lies a third, closer to what is in their middle. -/
theorem IsRounded.rank_le (hq : 0 < q) (hx : IsRounded x p q) (hy : IsRounded y p q) :
    y.rank ≤ x.rank := by
  refine Nat.le_of_not_lt fun hlt => ?_
  have hs : y.negative = x.negative := hy.negative_eq.trans hx.negative_eq.symm
  have hmagnitude : x.magnitude < y.magnitude := magnitudeAt_lt_iff.2 hlt
  have hne : y.scaled ≠ x.scaled := fun h => by
    rw [← natAbs_scaled x, ← natAbs_scaled y, h] at hmagnitude
    exact Nat.lt_irrefl _ hmagnitude
  have hgap : gap x.scaled (p * unit) q = gap y.scaled (p * unit) q :=
    Nat.le_antisymm (hx.nearest y hy.isFinite) (hy.nearest x hx.isFinite)
  have hevenx := hx.even y hy.isFinite hne hgap.symm
  have heveny := hy.even x hx.isFinite hne.symm hgap
  have hfinite := isFinite_iff.1 hy.isFinite
  let z : Binary64 := ⟨x.negative, x.rank + 1, by have := y.rank_lt; omega⟩
  have hz := hx.nearest z (isFinite_iff.2 (Nat.lt_of_le_of_lt hlt hfinite))
  obtain ⟨m, hm⟩ := exists_gap_eq x.negative (p * unit) q
  rw [hm x rfl, hm z rfl] at hz
  rw [hm x rfl, hm y hs] at hgap
  have hmul {a b : Nat} (h : a < b) : (a * q : Int) < b * q :=
    Int.mul_lt_mul_of_pos_right (Int.ofNat_lt.2 h) (Int.natCast_pos.2 hq)
  have hxz : (x.magnitude * q : Int) < z.magnitude * q := hmul (magnitudeAt_lt_succ x.rank)
  have hzy : (z.magnitude * q : Int) < y.magnitude * q := by
    refine hmul (magnitudeAt_lt_iff.2 ?_)
    change x.rank + 1 < y.rank
    omega
  simp only [gap] at hz hgap
  omega

theorem IsRounded.unique (hq : 0 < q) (hx : IsRounded x p q) (hy : IsRounded y p q) : x = y :=
  eq_of_magnitude (hx.negative_eq.trans hy.negative_eq.symm)
    (congrArg magnitudeAt (Nat.le_antisymm (hy.rank_le hq hx) (hx.rank_le hq hy)))

end

/-! Sums and quotients of whole numbers. -/

section
variable {x : Binary64} {a v : Int} {vs : List Int}

theorem isFinite_ofInt (h : v.natAbs ≤ 2 ^ 53) : (ofInt v).isFinite :=
  isFinite_iff.2 (rank_ofNat_lt h)

theorem magnitude_ofInt (h : v.natAbs ≤ 2 ^ 53) : (ofInt v).magnitude = v.natAbs * unit :=
  magnitude_ofNat h

theorem scaled_ofInt (h : v.natAbs ≤ 2 ^ 53) : (ofInt v).scaled = v * unit := by
  rcases Int.lt_or_le v 0 with hv | hv
  · rw [scaled_of_negative (decide_eq_true hv), magnitude_ofInt h, Int.natCast_mul, ← Int.neg_mul,
      Int.ofNat_natAbs_of_nonpos (Int.le_of_lt hv), Int.neg_neg]
  · rw [scaled_of_not_negative (decide_eq_false (Int.not_lt.2 hv)), magnitude_ofInt h,
      Int.natCast_mul, Int.natAbs_of_nonneg hv]

theorem mul_natCast_neg_iff {n : Nat} (hn : 0 < n) : a * n < 0 ↔ a < 0 := by
  have hiff := Int.mul_lt_mul_right (b := a) (c := 0) (Int.natCast_pos.2 hn)
  rwa [Int.zero_mul] at hiff

theorem nonpos_of_negative (hx : x.negative = true) (hxa : x.scaled = a * unit) : a ≤ 0 := by
  rw [scaled_of_negative hx] at hxa
  have hunit : (0 : Int) < unit := Int.natCast_pos.2 unit_pos
  exact Int.le_of_mul_le_mul_right (by omega) hunit

/-- The exact sum has so few bits that it is not rounded, and no negative whole number is a zero. -/
theorem add_ofInt (hx : x.isFinite) (hxa : x.scaled = a * unit) (hv : v.natAbs ≤ 2 ^ 53) :
    x + ofInt v = ofInt (a + v) := by
  have hunit : (0 : Int) < unit := Int.natCast_pos.2 unit_pos
  have hsum : x.scaled + (ofInt v).scaled = (a + v) * unit := by
    rw [hxa, scaled_ofInt hv, Int.add_mul]
  rw [add_eq_ofRatio hx (isFinite_ofInt hv), hsum, Int.natAbs_mul, Int.natAbs_natCast, ofInt]
  congr 1
  split
  · next hzero =>
    have hzero := (Int.mul_eq_zero.1 hzero).resolve_right (by omega)
    rw [hzero, Bool.and_eq_false_iff.2]
    · rfl
    · rw [← Bool.not_eq_true, ← Bool.not_eq_true, ← not_and_or]
      rintro ⟨hnx, hnv⟩
      have ha := nonpos_of_negative hnx hxa
      have hv := of_decide_eq_true hnv
      omega
  · exact decide_eq_decide.2 (mul_natCast_neg_iff unit_pos)

theorem foldl_ofInt (h : a.natAbs + (vs.map Int.natAbs).sum ≤ 2 ^ 53) :
    (vs.map ofInt).foldl (· + ·) (ofInt a) = ofInt (a + vs.sum) := by
  induction vs generalizing a with
  | nil => simp
  | cons v vs ih =>
    rw [List.map_cons, List.sum_cons] at h
    have hstep := Int.natAbs_add_le a v
    rw [List.map_cons, List.foldl_cons,
      add_ofInt (isFinite_ofInt (by omega)) (scaled_ofInt (by omega)) (by omega),
      ih (by omega), List.sum_cons, Int.add_assoc]

theorem sum_ofInt (hne : vs ≠ []) (h : (vs.map Int.natAbs).sum ≤ 2 ^ 53) :
    sum (vs.map ofInt) = ofInt vs.sum := by
  cases vs with
  | nil => exact absurd rfl hne
  | cons v vs =>
    rw [List.map_cons, List.sum_cons] at h
    have hstart : (-zero).scaled = 0 * unit := by rw [Int.zero_mul]; rfl
    rw [sum, List.map_cons, List.foldl_cons, add_ofInt rfl hstart (by omega), Int.zero_add,
      foldl_ofInt h, List.sum_cons]

theorem ofInt_div_ofNat {n : Nat} (hv : v.natAbs ≤ 2 ^ 53) (hn : 0 < n) (hn' : n ≤ 2 ^ 53) :
    ofInt v / ofNat n = ofRatio (v < 0) (v.natAbs * unit) n := by
  rw [div_eq_ofRatio (isFinite_ofInt hv) (isFinite_ofNat_of_le hn') (rank_ofNat_ne_zero hn),
    magnitude_ofInt hv, magnitude_ofNat hn']
  change ofRatio (decide (v < 0) != false) _ _ = _
  rw [Bool.bne_false]
  refine ofRatio_congr _ (Nat.mul_pos hn unit_pos) hn ?_
  ring

theorem ofRatio_mul_self {n : Nat} (hn : 0 < n) :
    ofRatio (v * n < 0) ((v * n).natAbs * unit) n = ofInt v := by
  rw [ofInt, decide_eq_decide.2 (mul_natCast_neg_iff hn), Int.natAbs_mul, Int.natAbs_natCast]
  refine ofRatio_congr _ hn Nat.one_pos ?_
  ring

/-- Rounding does not turn the order of two quotients round. -/
theorem totalLE_ofRatio {p p' : Int} {q q' : Nat} (hq : 0 < q) (hq' : 0 < q')
    (h : p * q' ≤ p' * q) : (ofRatio (p < 0) (p.natAbs * unit) q).totalLE
      (ofRatio (p' < 0) (p'.natAbs * unit) q') := by
  have hleft := mul_natCast_neg_iff (a := p) hq'
  have hright := mul_natCast_neg_iff (a := p') hq
  have hproduct (a : Int) (n : Nat) : a.natAbs * unit * n = (a * n).natAbs * unit := by
    rw [Int.natAbs_mul, Int.natAbs_natCast, Nat.mul_right_comm]
  refine totalLE_of_rank (fun hn => ?_) fun hp => ?_
  · have hn := of_decide_eq_true hn
    refine ⟨decide_eq_true (by omega), nearestRank_mono hq' hq ?_⟩
    rw [hproduct, hproduct]
    exact Nat.mul_le_mul_right _ (by omega)
  · have hp := of_decide_eq_false hp
    refine nearestRank_mono hq hq' ?_
    rw [hproduct, hproduct]
    exact Nat.mul_le_mul_right _ (by omega)

end

end LatencyDigest.Binary64
