import Mathlib.Data.List.Forall2

/-! Two lists whose elements are related one by one. -/

namespace LatencyDigest.Aligned

variable {R : α → β → Prop} {xs : List α} {ys : List β}

theorem exists_left_of_mem (h : List.Forall₂ R xs ys) {y : β} (hy : y ∈ ys) : ∃ x ∈ xs, R x y := by
  induction h with
  | nil => simp at hy
  | @cons a b xs ys hab _ ih =>
    rcases List.mem_cons.1 hy with rfl | hy
    · exact ⟨a, List.mem_cons_self, hab⟩
    · obtain ⟨x, hx, hr⟩ := ih hy
      exact ⟨x, List.mem_cons_of_mem a hx, hr⟩

theorem exists_right_of_mem (h : List.Forall₂ R xs ys) {x : α} (hx : x ∈ xs) :
    ∃ y ∈ ys, R x y := exists_left_of_mem h.flip hx

theorem zip (names : List γ) (h : List.Forall₂ R xs ys) :
    List.Forall₂ (fun p q => p.1 = q.1 ∧ R p.2 q.2) (names.zip xs) (names.zip ys) := by
  induction h generalizing names with
  | nil => simp
  | cons hab _ ih =>
    cases names with
    | nil => simp
    | cons n names => exact .cons ⟨rfl, hab⟩ (ih names)

theorem exists_of_append {before after : List β} {y : β}
    (h : List.Forall₂ R xs (before ++ y :: after)) :
    ∃ before' x after', xs = before' ++ x :: after' ∧ List.Forall₂ R before' before ∧ R x y := by
  induction before generalizing xs with
  | nil =>
    obtain ⟨x, l, hx, -, rfl⟩ := List.forall₂_cons_right_iff.1 h
    exact ⟨[], x, l, rfl, .nil, hx⟩
  | cons b before ih =>
    obtain ⟨x, l, hx, hl, rfl⟩ := List.forall₂_cons_right_iff.1 h
    obtain ⟨before', z, after', rfl, hb, hz⟩ := ih hl
    exact ⟨x :: before', z, after', rfl, .cons hx hb, hz⟩

theorem exists_append {before after : List β} (h : List.Forall₂ R xs (before ++ after)) :
    ∃ before' after', xs = before' ++ after' ∧ List.Forall₂ R before' before ∧
      List.Forall₂ R after' after :=
  ⟨xs.take before.length, xs.drop before.length, (List.take_append_drop _ xs).symm,
    List.forall₂_take_append xs before after h, List.forall₂_drop_append xs before after h⟩

theorem exists_between {x y : β} {inner : List β}
    (h : List.Forall₂ R xs (x :: (inner ++ [y]))) :
    ∃ a inner' b, xs = a :: (inner' ++ [b]) ∧ R a x ∧ List.Forall₂ R inner' inner ∧ R b y := by
  obtain ⟨a, _, ha, hrest, rfl⟩ := List.forall₂_cons_right_iff.1 h
  obtain ⟨inner', _, rfl, hinner, hlast⟩ := exists_append hrest
  obtain ⟨b, _, hb, hnil, rfl⟩ := List.forall₂_cons_right_iff.1 hlast
  cases hnil
  exact ⟨a, inner', b, rfl, ha, hinner, hb⟩

/-- Two lists that are related to a third are related to each other. -/
theorem join {S : α → γ → Prop} {T : β → γ → Prop} {zs : List γ}
    (hy : List.Forall₂ R xs ys) (hz : List.Forall₂ S xs zs)
    (hT : ∀ {x y z}, R x y → S x z → T y z) : List.Forall₂ T ys zs := by
  induction hy generalizing zs with
  | nil =>
    cases hz
    exact .nil
  | cons hab _ ih =>
    cases hz with
    | cons hac hz => exact .cons (hT hab hac) (ih hz)

theorem count_eq [DecidableEq β] {f : α → β} {c : β} (h : List.Forall₂ R xs ys)
    (hc : ∀ {x y}, R x y → (y = c ↔ f x = c)) : ys.count c = (xs.map f).count c := by
  induction h with
  | nil => rfl
  | cons hab _ ih =>
    rw [List.map_cons, List.count_cons, List.count_cons, ih]
    simp [hc hab]

end LatencyDigest.Aligned
