import LatencyDigest.Outcome
import Mathlib.Data.List.Forall2

/-! A chain of steps over a list: it succeeds when each step does, and else the first step that
fails decides. -/

namespace LatencyDigest.Outcome

variable {f : α → Except ε β}

theorem mapM_cons (x : α) (xs : List α) :
    (x :: xs).mapM f = f x >>= fun y => xs.mapM f >>= fun ys => .ok (y :: ys) := by
  rw [List.mapM_cons]
  rfl

theorem mapM_eq_ok_iff {xs : List α} {ys : List β} :
    xs.mapM f = .ok ys ↔ List.Forall₂ (fun x y => f x = .ok y) xs ys := by
  induction xs generalizing ys with
  | nil =>
    rw [List.mapM_nil, List.forall₂_nil_left_iff]
    constructor
    · intro h
      cases h
      rfl
    · rintro rfl
      rfl
  | cons x xs ih =>
    simp only [mapM_cons, bind_eq_ok_iff, List.forall₂_cons_left_iff, ih]
    constructor
    · rintro ⟨y, hy, zs, hzs, h⟩
      cases h
      exact ⟨y, zs, hy, hzs, rfl⟩
    · rintro ⟨y, zs, hy, hzs, rfl⟩
      exact ⟨y, hy, zs, hzs, rfl⟩

theorem exists_of_mem_mapM {xs : List α} {ys : List β} {y : β} (h : xs.mapM f = .ok ys)
    (hy : y ∈ ys) : ∃ x ∈ xs, f x = .ok y := by
  have hall := mapM_eq_ok_iff.1 h
  clear h
  induction hall with
  | nil => simp at hy
  | cons hx _ ih =>
    rcases List.mem_cons.1 hy with rfl | hy
    · exact ⟨_, List.mem_cons_self, hx⟩
    · obtain ⟨x, hm, hx⟩ := ih hy
      exact ⟨x, List.mem_cons_of_mem _ hm, hx⟩

theorem exists_of_mapM_eq_error {xs : List α} {e : ε} (h : xs.mapM f = .error e) :
    ∃ before x after, xs = before ++ x :: after ∧ (∀ y ∈ before, ∃ z, f y = .ok z) ∧
      f x = .error e := by
  induction xs with
  | nil => cases h
  | cons x xs ih =>
    rw [mapM_cons] at h
    cases hx : f x with
    | error d =>
      rw [hx] at h
      cases h
      exact ⟨[], x, xs, rfl, by simp, hx⟩
    | ok y =>
      cases hs : xs.mapM f with
      | ok ys =>
        rw [hx, hs] at h
        cases h
      | error d =>
        rw [hx, hs] at h
        cases h
        obtain ⟨before, z, after, rfl, hb, hz⟩ := ih hs
        refine ⟨x :: before, z, after, rfl, ?_, hz⟩
        intro w hw
        rcases List.mem_cons.1 hw with rfl | hw
        · exact ⟨y, hx⟩
        · exact hb w hw

theorem mapM_eq_error {before after : List α} {x : α} {e : ε}
    (hb : ∀ y ∈ before, ∃ z, f y = .ok z) (hx : f x = .error e) :
    (before ++ x :: after).mapM f = .error e := by
  induction before with
  | nil =>
    rw [List.nil_append, mapM_cons, hx]
    rfl
  | cons y before ih =>
    obtain ⟨z, hz⟩ := hb y List.mem_cons_self
    rw [List.cons_append, mapM_cons, hz, ih fun w hw => hb w (List.mem_cons_of_mem y hw)]
    rfl

theorem mapM_eq_some_map {g : α → Option β} {k : α → β} {xs : List α}
    (h : ∀ x ∈ xs, g x = some (k x)) : xs.mapM g = some (xs.map k) := by
  induction xs with
  | nil => rfl
  | cons x xs ih =>
    rw [List.mapM_cons, h x List.mem_cons_self,
      ih fun y hy => h y (List.mem_cons_of_mem x hy)]
    rfl

theorem exists_of_mapM_eq_some {g : α → Option β} {xs : List α} {ys : List β}
    (h : xs.mapM g = some ys) : ∀ x ∈ xs, ∃ y, g x = some y := by
  induction xs generalizing ys with
  | nil => simp
  | cons x xs ih =>
    rw [List.mapM_cons] at h
    obtain ⟨y, hy, h⟩ := Option.bind_eq_some_iff.1 h
    obtain ⟨zs, hzs, -⟩ := Option.bind_eq_some_iff.1 h
    exact List.forall_mem_cons.2 ⟨⟨y, hy⟩, ih hzs⟩

theorem mapError_eq_ok_iff {m : Except ε α} {g : ε → δ} {x : α} :
    m.mapError g = .ok x ↔ m = .ok x := by
  cases m <;> simp [Except.mapError]

theorem mapError_eq_error_iff {m : Except ε α} {g : ε → δ} {d : δ} :
    m.mapError g = .error d ↔ ∃ e, m = .error e ∧ g e = d := by
  cases m <;> simp [Except.mapError]

end LatencyDigest.Outcome
