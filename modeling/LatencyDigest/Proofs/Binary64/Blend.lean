import LatencyDigest.Proofs.Binary64.Bounds
import LatencyDigest.Proofs.Binary64.DoubleRounding

/-! Two numbers blended at a weight, in whole numbers of units: each product is rounded, and so is
their sum. A blend keeps the order of the numbers, and it is at most one place away from the exact
number at the weight, rounded once. -/

namespace LatencyDigest.Binary64

/-- A function of magnitudes, with the sign put back on. -/
def signed (g : Nat → Nat) (a : Int) : Int := a.sign * g a.natAbs

section
variable {g : Nat → Nat}

theorem signed_natCast (h : g 0 = 0) (n : Nat) : signed g n = g n := by
  rcases Nat.eq_zero_or_pos n with rfl | hn
  · simp [signed, h]
  · rw [signed, Int.sign_eq_one_of_pos (Int.natCast_pos.2 hn), Int.one_mul, Int.natAbs_natCast]

theorem signed_neg (g : Nat → Nat) (a : Int) : signed g (-a) = -signed g a := by
  rw [signed, signed, Int.sign_neg, Int.natAbs_neg, Int.neg_mul]

theorem signed_mono (h : g 0 = 0) (hg : Monotone g) {a b : Int} (hab : a ≤ b) :
    signed g a ≤ signed g b := by
  rcases Int.eq_nat_or_neg a with ⟨m, rfl | rfl⟩ <;> rcases Int.eq_nat_or_neg b with ⟨n, rfl | rfl⟩
  all_goals simp only [signed_neg, signed_natCast h]
  · have := hg (show m ≤ n by omega)
    omega
  · obtain ⟨rfl, rfl⟩ : m = 0 ∧ n = 0 := by omega
    omega
  · omega
  · have := hg (show n ≤ m by omega)
    omega

end

def nearestWhole (n : Nat) : Nat := nearestRank n 1

/-- A magnitude times a weight in units, to the nearest that has a rank. -/
def weighedMagnitude (W n : Nat) : Nat := magnitudeAt (nearestRank (n * W) unit)

theorem nearestWhole_zero : nearestWhole 0 = 0 := nearestRank_zero Nat.one_pos

theorem nearestWhole_mono : Monotone nearestWhole := fun _ _ h =>
  nearestRank_mono Nat.one_pos Nat.one_pos (Nat.mul_le_mul_right 1 h)

theorem weighedMagnitude_zero (W : Nat) : weighedMagnitude W 0 = 0 := by
  rw [weighedMagnitude, Nat.zero_mul, nearestRank_zero unit_pos, magnitudeAt_zero]

theorem weighedMagnitude_le {V W m n : Nat} (hw : V ≤ W) (hn : m ≤ n) :
    weighedMagnitude V m ≤ weighedMagnitude W n := by
  refine magnitudeAt_le_iff.2 (nearestRank_mono unit_pos unit_pos ?_)
  exact Nat.mul_le_mul_right _ (Nat.mul_le_mul hn hw)

/-- The place that is nearest to a number of units. -/
def nearestPlace (a : Int) : Int := signed nearestWhole a

def weighed (W : Nat) (a : Int) : Int := signed (weighedMagnitude W) a

/-- The place of the number at a weight between two numbers of units: two products and a sum, each
of them rounded. -/
def blend (a b : Int) (W : Nat) : Int := nearestPlace (weighed (unit - W) a + weighed W b)

theorem nearestPlace_mono {a b : Int} (h : a ≤ b) : nearestPlace a ≤ nearestPlace b :=
  signed_mono nearestWhole_zero nearestWhole_mono h

theorem nearestPlace_natCast (n : Nat) : nearestPlace n = nearestRank n 1 :=
  signed_natCast nearestWhole_zero n

theorem nearestPlace_neg (a : Int) : nearestPlace (-a) = -nearestPlace a := signed_neg _ a

theorem weighed_natCast (W n : Nat) : weighed W n = weighedMagnitude W n :=
  signed_natCast (weighedMagnitude_zero W) n

theorem weighed_neg (W : Nat) (a : Int) : weighed W (-a) = -weighed W a := signed_neg _ a

theorem weighed_mono (W : Nat) {a b : Int} (h : a ≤ b) : weighed W a ≤ weighed W b :=
  signed_mono (weighedMagnitude_zero W) (fun _ _ h => weighedMagnitude_le (Nat.le_refl W) h) h

theorem blend_mono {a a' b b' : Int} (W : Nat) (ha : a ≤ a') (hb : b ≤ b') :
    blend a b W ≤ blend a' b' W :=
  nearestPlace_mono (Int.add_le_add (weighed_mono _ ha) (weighed_mono _ hb))

theorem blend_neg (a b : Int) (W : Nat) : blend (-a) (-b) W = -blend a b W := by
  rw [blend, weighed_neg, weighed_neg, ← Int.neg_add, nearestPlace_neg, blend]

theorem blend_comm (a b : Int) {W : Nat} (h : W ≤ unit) : blend a b W = blend b a (unit - W) := by
  rw [blend, blend, Nat.sub_sub_self h, Int.add_comm]

/-- Between numbers on either side of zero both products grow with the weight. -/
theorem blend_le_of_le {m n V W : Nat} (h : V ≤ W) : blend (-m) n V ≤ blend (-m) n W := by
  refine nearestPlace_mono (Int.add_le_add ?_ ?_)
  · rw [weighed_neg, weighed_neg, weighed_natCast, weighed_natCast]
    exact Int.neg_le_neg (Int.ofNat_le.2 (weighedMagnitude_le (by omega) (Nat.le_refl m)))
  · rw [weighed_natCast, weighed_natCast]
    exact Int.ofNat_le.2 (weighedMagnitude_le h (Nat.le_refl n))

/-- The number of units at a place. -/
def unitsAt (i : Int) : Int := signed magnitudeAt i

theorem unitsAt_natCast (r : Nat) : unitsAt r = magnitudeAt r := signed_natCast magnitudeAt_zero r

theorem unitsAt_neg (i : Int) : unitsAt (-i) = -unitsAt i := signed_neg _ i

theorem unitsAt_mono {i j : Int} (h : i ≤ j) : unitsAt i ≤ unitsAt j :=
  signed_mono magnitudeAt_zero magnitudeAt_strictMono.monotone h

/-! The places of products and sums of numbers. -/

section
variable {x y : Binary64}

theorem place_of_negative (h : x.negative = true) : x.place = -(x.rank : Int) := if_pos h

theorem place_of_not_negative (h : x.negative = false) : x.place = x.rank := by
  rw [place, h]
  rfl

theorem scaled_eq_unitsAt (x : Binary64) : x.scaled = unitsAt x.place := by
  cases hs : x.negative with
  | true =>
    rw [place_of_negative hs, unitsAt_neg, unitsAt_natCast]
    exact if_pos hs
  | false =>
    rw [place_of_not_negative hs, unitsAt_natCast]
    exact scaled_of_not_negative hs

/-- The sign that a number is given does not show where it is zero. -/
theorem place_ofRatio_one {a : Int} {s : Bool} (h : a ≠ 0 → s = decide (a < 0)) :
    (ofRatio s a.natAbs 1).place = nearestPlace a := by
  rcases Int.lt_trichotomy a 0 with ha | rfl | ha
  · obtain ⟨n, rfl⟩ : ∃ n : Nat, a = -n := ⟨a.natAbs, by omega⟩
    rw [h (by omega), decide_eq_true ha, place_of_negative rfl, nearestPlace_neg,
      nearestPlace_natCast, Int.natAbs_neg, Int.natAbs_natCast]
    rfl
  · have hrank : (ofRatio s (0 : Int).natAbs 1).rank = 0 := nearestRank_zero Nat.one_pos
    rw [place, hrank]
    split <;> rfl
  · obtain ⟨n, rfl⟩ : ∃ n : Nat, a = n := ⟨a.natAbs, by omega⟩
    rw [h (by omega), decide_eq_false (by omega), place_of_not_negative rfl, nearestPlace_natCast,
      Int.natAbs_natCast]
    rfl

theorem place_add (hx : x.isFinite) (hy : y.isFinite) :
    (x + y).place = nearestPlace (x.scaled + y.scaled) := by
  rw [add_eq_ofRatio hx hy]
  exact place_ofRatio_one fun h => if_neg h

theorem scaled_mul (hx : x.isFinite) (hy : y.isFinite) (hs : y.negative = false) :
    (x * y).scaled = weighed y.magnitude x.scaled := by
  rw [mul_eq_ofRatio hx hy, hs]
  cases hn : x.negative with
  | true =>
    rw [scaled_of_negative rfl, scaled_of_negative hn, weighed_neg, weighed_natCast]
    rfl
  | false =>
    rw [scaled_of_not_negative rfl, scaled_of_not_negative hn, weighed_natCast]
    rfl

end

/-! A blend against the exact number at the weight, rounded once. -/

theorem blend_natCast (m n W : Nat) : blend m n W =
    nearestRank (weighedMagnitude (unit - W) m + weighedMagnitude W n) 1 := by
  rw [blend, weighed_natCast, weighed_natCast, ← Int.natCast_add, nearestPlace_natCast]

theorem blend_near {m n W : Nat}
    (hr : nearestRank (m * (unit - W) + n * W) unit + 1 < infinityRank) :
    blend m n W ≤ nearestRank (m * (unit - W) + n * W) unit + 1 ∧
      nearestRank (m * (unit - W) + n * W) unit ≤ blend m n W + 1 := by
  rw [blend_natCast]
  exact ⟨Int.ofNat_le.2 (nearestRank_add_le_succ unit_pos hr),
    Int.ofNat_le.2 (nearestRank_le_add_succ unit_pos (Nat.lt_of_succ_lt hr))⟩

theorem exact_mono {m n V W : Nat} (hmn : m ≤ n) (h : V ≤ W) (hW : W ≤ unit) :
    m * (unit - V) + n * V ≤ m * (unit - W) + n * W := by
  obtain ⟨t, rfl⟩ := Nat.exists_eq_add_of_le h
  have hsplit : unit - V = unit - (V + t) + t := by omega
  have := Nat.mul_le_mul_right t hmn
  rw [hsplit, Nat.mul_add, Nat.mul_add]
  omega

/-! Blends of the numbers at two places. -/

theorem blend_magnitudeAt_self {r W : Nat} (hr : r + 1 < infinityRank) (hW : W ≤ unit) :
    blend (magnitudeAt r) (magnitudeAt r) W ≤ r + 1 ∧
      r ≤ blend (magnitudeAt r) (magnitudeAt r) W + 1 := by
  have hexact : magnitudeAt r * (unit - W) + magnitudeAt r * W = unit * magnitudeAt r := by
    rw [← Nat.mul_add, Nat.sub_add_cancel hW, Nat.mul_comm]
  have hrank := nearestRank_unit_mul (Nat.lt_of_succ_lt hr)
  rw [← hexact] at hrank
  have hfinite : nearestRank (magnitudeAt r * (unit - W) + magnitudeAt r * W) unit + 1 <
      infinityRank := by
    rw [hrank]
    exact hr
  have hnear := blend_near hfinite
  rw [hrank] at hnear
  exact hnear

theorem blend_magnitudeAt_le {r q V W : Nat} (hrq : r ≤ q) (hq : q + 1 < infinityRank) (h : V ≤ W)
    (hW : W ≤ unit) : blend (magnitudeAt r) (magnitudeAt q) V ≤
      blend (magnitudeAt r) (magnitudeAt q) W + 2 := by
  have hmn := magnitudeAt_le_iff.2 hrq
  have hexact := exact_mono hmn h hW
  have hrank := nearestRank_mono unit_pos unit_pos (Nat.mul_le_mul_right unit hexact)
  have hbound : nearestRank (magnitudeAt r * (unit - W) + magnitudeAt q * W) unit ≤ q := by
    refine nearestRank_le_of_le unit_pos (Nat.lt_of_succ_lt hq) ?_
    calc magnitudeAt r * (unit - W) + magnitudeAt q * W
        ≤ magnitudeAt q * (unit - W) + magnitudeAt q * W :=
          Nat.add_le_add_right (Nat.mul_le_mul_right _ hmn) _
      _ = unit * magnitudeAt q := by rw [← Nat.mul_add, Nat.sub_add_cancel hW, Nat.mul_comm]
  have hlow := (blend_near (W := V) (Nat.lt_of_le_of_lt (Nat.succ_le_succ (hrank.trans hbound))
    hq)).1
  have hhigh := (blend_near (W := W) (Nat.lt_of_le_of_lt (Nat.succ_le_succ hbound) hq)).2
  have := Int.ofNat_le.2 hrank
  omega

section
variable {i j : Int} {V W : Nat}

/-- A number blended with itself is moved by one place at most. -/
theorem blend_self_near (hi : i.natAbs + 1 < infinityRank) (hW : W ≤ unit) :
    blend (unitsAt i) (unitsAt i) W ≤ i + 1 ∧ i ≤ blend (unitsAt i) (unitsAt i) W + 1 := by
  obtain ⟨r, rfl | rfl⟩ := Int.eq_nat_or_neg i
  · rw [unitsAt_natCast]
    exact blend_magnitudeAt_self hi hW
  · rw [Int.natAbs_neg, Int.natAbs_natCast] at hi
    have := blend_magnitudeAt_self hi hW
    rw [unitsAt_neg, blend_neg, unitsAt_natCast]
    omega

/-- Across zero a blend grows with the weight, and on one side of zero the magnitudes decide, at the
weights or at what they leave. -/
theorem blend_le_add {e : Nat} (hij : i ≤ j) (h : V ≤ W) (hW : W ≤ unit)
    (hup : ∀ r q : Nat, i = r → j = q →
      blend (magnitudeAt r) (magnitudeAt q) V ≤ blend (magnitudeAt r) (magnitudeAt q) W + e)
    (hdown : ∀ r q : Nat, i = -r → j = -q →
      blend (magnitudeAt q) (magnitudeAt r) (unit - W) ≤
        blend (magnitudeAt q) (magnitudeAt r) (unit - V) + e) :
    blend (unitsAt i) (unitsAt j) V ≤ blend (unitsAt i) (unitsAt j) W + e := by
  rcases Int.lt_or_le i 0 with hlow | hlow
  · obtain ⟨r, rfl⟩ : ∃ r : Nat, i = -r := ⟨i.natAbs, by omega⟩
    rcases Int.lt_or_le 0 j with hhigh | hhigh
    · obtain ⟨q, rfl⟩ : ∃ q : Nat, j = q := ⟨j.natAbs, by omega⟩
      rw [unitsAt_neg, unitsAt_natCast, unitsAt_natCast]
      have := blend_le_of_le (m := magnitudeAt r) (n := magnitudeAt q) h
      omega
    · obtain ⟨q, rfl⟩ : ∃ q : Nat, j = -q := ⟨j.natAbs, by omega⟩
      have hle := hdown r q rfl rfl
      rw [← blend_comm _ _ hW, ← blend_comm _ _ (h.trans hW)] at hle
      rw [unitsAt_neg, unitsAt_neg, unitsAt_natCast, unitsAt_natCast, blend_neg, blend_neg]
      omega
  · obtain ⟨r, rfl⟩ : ∃ r : Nat, i = r := ⟨i.natAbs, by omega⟩
    obtain ⟨q, rfl⟩ : ∃ q : Nat, j = q := ⟨j.natAbs, by omega⟩
    rw [unitsAt_natCast, unitsAt_natCast]
    exact hup r q rfl rfl

/-- As the weight of the larger number grows the blend falls by two places at most. -/
theorem blend_le_add_two (hij : i ≤ j) (hi : i.natAbs + 1 < infinityRank)
    (hj : j.natAbs + 1 < infinityRank) (h : V ≤ W) (hW : W ≤ unit) :
    blend (unitsAt i) (unitsAt j) V ≤ blend (unitsAt i) (unitsAt j) W + 2 := by
  refine blend_le_add hij h hW (fun r q hr hq => ?_) (fun r q hr hq => ?_)
  · exact blend_magnitudeAt_le (by omega) (by omega) h hW
  · exact blend_magnitudeAt_le (by omega) (by omega) (Nat.sub_le_sub_left h unit)
      (Nat.sub_le unit V)

end

end LatencyDigest.Binary64
