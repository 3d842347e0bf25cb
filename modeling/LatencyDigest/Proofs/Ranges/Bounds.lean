import LatencyDigest.Proofs.Aligned
import LatencyDigest.Proofs.Binary64.Operations
import LatencyDigest.Proofs.Outcome
import LatencyDigest.Proofs.Ranges.Buckets
import Mathlib.Data.List.Chain

/-! Which bounds are accepted. Each bound is compared with the one before it, and to be accepted it
must not be found too small. A NaN is found neither too small nor too large, so it parts the bounds:
those on one side of it are never compared with those on the other. -/

namespace LatencyDigest

namespace Ranges

open Binary64

theorem ascending_iff_isChain {bs : List Binary64} :
    ascending bs ↔ bs.IsChain fun a b => ¬b ≤ a := by
  induction bs with
  | nil => simp [ascending]
  | cons a bs ih =>
    cases bs with
    | nil => simp [ascending]
    | cons b bs => rw [ascending, List.isChain_cons_cons, ← ih]; simp

theorem isChain_iff_pairwise_of_isNaN {bs : List Binary64} (h : ∀ b ∈ bs, b.isNaN = false) :
    (bs.IsChain fun a b => ¬b ≤ a) ↔ bs.Pairwise fun a b => a < b := by
  rw [← List.isChain_iff_pairwise]
  constructor
  · exact List.IsChain.imp_of_mem_imp fun a b ha hb => (not_le_iff (h a ha) (h b hb)).1
  · exact List.IsChain.imp_of_mem_imp fun a b ha hb => (not_le_iff (h a ha) (h b hb)).2

/-- Every stretch of bounds without a NaN is in ascending order. -/
def RisesInStretches (bs : List Binary64) : Prop :=
  ∀ stretch, stretch <:+: bs → (∀ b ∈ stretch, b.isNaN = false) →
    stretch.Pairwise fun a b => a < b

theorem ascending_iff {bs : List Binary64} : ascending bs ↔ RisesInStretches bs := by
  rw [ascending_iff_isChain]
  constructor
  · intro h stretch hs hn
    refine (isChain_iff_pairwise_of_isNaN hn).1 ?_
    exact List.IsChain.infix h hs
  · intro h
    rw [List.isChain_iff_forall_rel_of_append_cons_cons]
    rintro a b before after rfl
    by_cases hn : a.isNaN = true ∨ b.isNaN = true
    · exact not_le_of_isNaN hn
    · simp only [not_or, Bool.not_eq_true] at hn
      have hpair : [a, b] <:+: before ++ a :: b :: after := ⟨before, after, by simp⟩
      have hlt := h [a, b] hpair (by simp [hn])
      exact (not_le_iff hn.1 hn.2).2 (List.rel_of_pairwise_cons hlt List.mem_cons_self)

theorem risesInStretches_iff {bs : List Binary64} (h : ∀ b ∈ bs, b.isNaN = false) :
    RisesInStretches bs ↔ bs.Pairwise fun a b => a < b := by
  rw [← ascending_iff, ascending_iff_isChain, isChain_iff_pairwise_of_isNaN h]

/-- Bounds as the search for a bucket and the labels take them to be. -/
structure Sorted (r : Ranges) : Prop where
  ne_nil : r.bounds ≠ []
  isNaN : ∀ b ∈ r.bounds, b.isNaN = false
  increasing : r.bounds.Pairwise fun a b => a < b
  parted : ∀ v, Parted (fun b => decide (b < v)) r.bounds

theorem parted_of_increasing {bs : List Binary64} (h : bs.Pairwise fun a b => a < b)
    (v : Binary64) : Parted (fun b => decide (b < v)) bs := by
  refine h.imp fun hab hb => ?_
  exact decide_eq_true (lt_trans hab (of_decide_eq_true hb))

theorem Accepted.risesInStretches {r : Ranges} (h : Accepted r) : RisesInStretches r.bounds := by
  rw [← ascending_iff]
  cases h with
  | ofBounds h =>
    obtain ⟨-, ha, hb⟩ := ofBounds_eq_ok_iff.1 h
    rwa [hb]
  | parse h =>
    obtain ⟨bs, -, hb⟩ := Outcome.bind_eq_ok_iff.1 h
    obtain ⟨-, ha, hb⟩ := ofBounds_eq_ok_iff.1 hb
    rwa [hb]
  | standard => decide +kernel

theorem Accepted.sorted_iff {r : Ranges} (h : Accepted r) :
    r.Sorted ↔ ∀ b ∈ r.bounds, b.isNaN = false := by
  refine ⟨Sorted.isNaN, fun hn => ?_⟩
  have hincreasing := (risesInStretches_iff hn).1 h.risesInStretches
  exact ⟨h.bounds_ne_nil, hn, hincreasing, parted_of_increasing hincreasing⟩

/-- The piece is a number for a bound. -/
def Admits (piece : List Char) (x : Binary64) : Prop :=
  Binary64.ofChars? (Text.trim piece) = some x ∧ Binary64.zero ≤ x

theorem bound_eq_ok_iff {piece : List Char} {x : Binary64} :
    bound piece = .ok x ↔ Admits piece x := by
  rw [bound, Admits]
  split
  · next h => simp [h]
  · next y h =>
    rw [h, Option.some_inj]
    split
    · next hy =>
      rw [Except.ok.injEq]
      exact (and_iff_left_of_imp fun h => h ▸ hy).symm
    · next hy =>
      refine iff_of_false (by simp) ?_
      rintro ⟨rfl, hx⟩
      exact hy hx

theorem isNaN_of_admits {pieces : List (List Char)} {xs : List Binary64}
    (h : List.Forall₂ Admits pieces xs) : ∀ b ∈ xs, b.isNaN = false := by
  intro b hb
  obtain ⟨p, -, -, hp⟩ := Aligned.exists_left_of_mem h hb
  exact Binary64.isNaN_of_zero_le hp

theorem isNaN_of_parse {s : String} {r : Ranges} (h : parse s = .ok r) :
    ∀ b ∈ r.bounds, b.isNaN = false := by
  obtain ⟨bs, hbs, hr⟩ := Outcome.bind_eq_ok_iff.1 h
  obtain ⟨-, -, rfl⟩ := ofBounds_eq_ok_iff.1 hr
  exact isNaN_of_admits ((Outcome.mapM_eq_ok_iff.1 hbs).imp fun _ _ => bound_eq_ok_iff.1)

/-- The bounds that are accepted are not the ascending ones alone, unless none of them is a NaN. -/
theorem accepted_bounds (bs : List Binary64) (r : Ranges) :
    (ofBounds bs = .ok r ↔ bs ≠ [] ∧ RisesInStretches bs ∧ r.bounds = bs) ∧
    (((∃ r, ofBounds bs = .ok r) ↔
        bs ≠ [] ∧ (∀ b ∈ bs, b.isNaN = false) ∧ bs.Pairwise fun a b => a < b) ↔
      (∀ b ∈ bs, b.isNaN = false) ∨ ¬RisesInStretches bs) ∧
    (Accepted r → (r.Sorted ↔ ∀ b ∈ r.bounds, b.isNaN = false)) ∧
    ((∃ s, parse s = .ok r) ∨ r = standard → r.Sorted) := by
  have hok (r : Ranges) : ofBounds bs = .ok r ↔ bs ≠ [] ∧ RisesInStretches bs ∧ r.bounds = bs := by
    rw [ofBounds_eq_ok_iff, ascending_iff]
  have haccepted : (∃ r, ofBounds bs = .ok r) ↔ bs ≠ [] ∧ RisesInStretches bs := by
    constructor
    · rintro ⟨r, hr⟩
      obtain ⟨hne, hrises, -⟩ := (hok r).1 hr
      exact ⟨hne, hrises⟩
    · rintro ⟨hne, hrises⟩
      exact ⟨⟨bs⟩, (hok ⟨bs⟩).2 ⟨hne, hrises, rfl⟩⟩
  refine ⟨hok r, ?_, Accepted.sorted_iff, ?_⟩
  · rw [haccepted]
    by_cases hn : ∀ b ∈ bs, b.isNaN = false
    · rw [risesInStretches_iff hn, and_iff_right hn]
      exact iff_of_true Iff.rfl (.inl hn)
    · have hne : bs ≠ [] := by
        rintro rfl
        exact hn (by simp)
      simp only [hne, hn, ne_eq, not_false_eq_true, true_and, false_and, false_or, iff_false]
  · rintro (⟨s, hs⟩ | rfl)
    · exact (Accepted.parse hs).sorted_iff.2 (isNaN_of_parse hs)
    · exact Accepted.standard.sorted_iff.2 (by decide +kernel)

/-- Both infinities, a zero and the number after it. -/
theorem accepted_bounds_extremes :
    let bs := [-infinity, -zero, ofBits 1, infinity]
    (∀ b ∈ bs, b.isNaN = false) ∧ ofBounds bs = .ok ⟨bs⟩ ∧ Sorted ⟨bs⟩ ∧
      ofBounds (bs ++ [nan]) = .ok ⟨bs ++ [nan]⟩ ∧ ¬Sorted ⟨bs ++ [nan]⟩ ∧ standard.Sorted := by
  intro bs
  have hn : ∀ b ∈ bs, b.isNaN = false := by decide
  obtain ⟨hok, -, hsorted, -⟩ := accepted_bounds bs ⟨bs⟩
  have hbs := hok.2 ⟨by decide, (risesInStretches_iff hn).2 (by decide), rfl⟩
  have hnan : ofBounds (bs ++ [nan]) = .ok ⟨bs ++ [nan]⟩ := by decide
  obtain ⟨-, -, hunsorted, -⟩ := accepted_bounds (bs ++ [nan]) ⟨bs ++ [nan]⟩
  refine ⟨hn, hbs, (hsorted (.ofBounds hbs)).2 hn, hnan, ?_,
    (accepted_bounds bs standard).2.2.2 (.inr rfl)⟩
  rw [hunsorted (.ofBounds hnan)]
  decide

/-- Falling bounds are accepted with a NaN between them. -/
theorem not_ascending_of_accepted : ¬∀ bs : List Binary64, (∃ r, ofBounds bs = .ok r) ↔
    bs ≠ [] ∧ (∀ b ∈ bs, b.isNaN = false) ∧ bs.Pairwise fun a b => a < b := by
  intro h
  have haccepted : ofBounds [ofNat 2, nan, ofNat 1] = .ok ⟨[ofNat 2, nan, ofNat 1]⟩ := by
    decide +kernel
  obtain ⟨-, -, hlt⟩ := (h _).1 ⟨_, haccepted⟩
  exact absurd hlt (by decide +kernel)

end Ranges

end LatencyDigest
