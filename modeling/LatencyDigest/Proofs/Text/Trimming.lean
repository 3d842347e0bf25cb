import LatencyDigest.Text.Blank
import Mathlib.Data.List.DropRight

/-! What trimming takes away stands at the two ends, and what is left neither begins nor ends with
an element to trim. -/

namespace LatencyDigest.Text

variable {p : α → Bool} {s before after : List α}

theorem trimBy_append_left (h : ∀ x ∈ before, p x) : trimBy p (before ++ s) = trimBy p s := by
  simp only [trimBy]
  rw [List.dropWhile_append_of_pos h]

theorem trimBy_append_right (h : ∀ x ∈ after, p x) : trimBy p (s ++ after) = trimBy p s := by
  simp only [trimBy]
  rw [List.dropWhile_append]
  split
  · next hs =>
    have hn : after.dropWhile p = [] := by simpa using h
    rw [hn, List.isEmpty_iff.1 hs]
  · rw [List.reverse_append, List.dropWhile_append_of_pos]
    intro x hx
    exact h x (List.mem_reverse.1 hx)

theorem trimBy_append (hb : ∀ x ∈ before, p x) (ha : ∀ x ∈ after, p x) :
    trimBy p (before ++ s ++ after) = trimBy p s := by
  rw [trimBy_append_right ha, trimBy_append_left hb]

theorem trimBy_eq_self (hh : ∀ x ∈ s.head?, p x = false) (hl : ∀ x ∈ s.getLast?, p x = false) :
    trimBy p s = s := by
  have hd : s.dropWhile p = s := by
    cases s with
    | nil => rfl
    | cons x r => exact List.dropWhile_cons_of_neg (by simp [hh x rfl])
  have hr : s.rdropWhile p = s := by
    rw [List.rdropWhile_eq_self_iff]
    intro hn
    simp [hl _ (List.getLast?_eq_getLast_of_ne_nil hn)]
  rw [trimBy, hd]
  exact hr

theorem exists_trimBy (p : α → Bool) (s : List α) :
    ∃ before after, s = before ++ trimBy p s ++ after ∧
      (∀ x ∈ before, p x) ∧ ∀ x ∈ after, p x := by
  refine ⟨s.takeWhile p, (s.dropWhile p).rtakeWhile p, ?_, ?_, ?_⟩
  · rw [List.append_assoc]
    change s = s.takeWhile p ++ ((s.dropWhile p).rdropWhile p ++ (s.dropWhile p).rtakeWhile p)
    rw [List.rdropWhile_append_rtakeWhile, List.takeWhile_append_dropWhile]
  · intro x hx
    exact List.mem_takeWhile_imp hx
  · intro x hx
    exact List.mem_rtakeWhile_imp hx

theorem head_trimBy : ∀ x ∈ (trimBy p s).head?, p x = false := by
  intro x hx
  obtain ⟨t, ht⟩ : trimBy p s <+: s.dropWhile p := List.rdropWhile_prefix p _
  obtain ⟨r, hr⟩ := List.head?_eq_some_iff.1 hx
  have hd := List.head?_dropWhile_not p s
  rwa [← ht, hr] at hd

theorem head_trimBy_of_not {x : α} (h : p x = false) : (trimBy p (x :: s)).head? = some x := by
  obtain ⟨before, after, hs, hb, ha⟩ := exists_trimBy p (x :: s)
  cases before with
  | nil =>
    cases ht : trimBy p (x :: s) with
    | nil =>
      rw [ht, List.append_nil, List.nil_append] at hs
      have hx : p x := ha x (hs ▸ List.mem_cons_self)
      simp [hx] at h
    | cons y t =>
      rw [ht] at hs
      rw [List.head?_cons, (List.cons.inj hs).1]
  | cons y before =>
    have hy : p x := by
      rw [(List.cons.inj hs).1]
      exact hb y List.mem_cons_self
    simp [hy] at h

theorem getLast_trimBy : ∀ x ∈ (trimBy p s).getLast?, p x = false := by
  intro x hx
  obtain ⟨hn, rfl⟩ := List.mem_getLast?_eq_getLast hx
  change p (((s.dropWhile p).rdropWhile p).getLast hn) = false
  simpa using List.rdropWhile_last_not p _ hn

/-- Trimming less before trimming changes nothing. -/
theorem trimBy_trimBy {q : α → Bool} (h : ∀ x, q x → p x) : trimBy p (trimBy q s) = trimBy p s := by
  obtain ⟨before, after, hs, hb, ha⟩ := exists_trimBy q s
  conv => rhs; rw [hs]
  rw [trimBy_append (fun x hx => h x (hb x hx)) fun x hx => h x (ha x hx)]

theorem toNat_of_isDigit {c : Char} (h : c.isDigit) : 48 ≤ c.toNat ∧ c.toNat ≤ 57 := by
  simpa [Char.isDigit, UInt32.le_iff_toNat_le] using h

theorem isBlank_of_toNat {c : Char} (h : 33 ≤ c.toNat ∧ c.toNat ≤ 126) : isBlank c = false := by
  simp only [isBlank, Bool.or_eq_false_iff, Bool.and_eq_false_iff, decide_eq_false_iff_not]
  omega

theorem trim_eq_self {s : List Char} (hh : ∀ c ∈ s.head?, isBlank c = false)
    (hl : ∀ c ∈ s.getLast?, isBlank c = false) : trim s = s := trimBy_eq_self hh hl

theorem trim_append {before s after : List Char} (hb : ∀ c ∈ before, isBlank c)
    (ha : ∀ c ∈ after, isBlank c) : trim (before ++ s ++ after) = trim s := trimBy_append hb ha

end LatencyDigest.Text
