/-!
Cutting a text at a separator. A text with `n` separators has `n + 1` pieces, and joining the pieces
gives the text back.
-/

namespace LatencyDigest.Text

def split (sep : Char) : List Char → List (List Char)
  | [] => [[]]
  | c :: r =>
    if c = sep then [] :: split sep r
    else match split sep r with
      | [] => [[c]]
      | p :: ps => (c :: p) :: ps

def join (sep : Char) : List (List Char) → List Char
  | [] => []
  | [p] => p
  | p :: ps => p ++ sep :: join sep ps

theorem split_ne_nil (sep : Char) (s : List Char) : split sep s ≠ [] := by
  cases s with
  | nil => simp [split]
  | cons c r =>
    simp only [split]
    split
    · simp
    · split <;> simp

theorem join_split (sep : Char) (s : List Char) : join sep (split sep s) = s := by
  induction s with
  | nil => rfl
  | cons c r ih =>
    simp only [split]
    split
    · next h =>
      cases hs : split sep r with
      | nil => exact absurd hs (split_ne_nil sep r)
      | cons p ps => rw [hs] at ih; simp [join, ih, h]
    · cases hs : split sep r with
      | nil => exact absurd hs (split_ne_nil sep r)
      | cons p ps =>
        rw [hs] at ih
        cases ps <;> simp [join, ← ih]

theorem split_eq_singleton {sep : Char} {p : List Char} (h : sep ∉ p) : split sep p = [p] := by
  induction p with
  | nil => rfl
  | cons c r ih =>
    rw [List.mem_cons, not_or] at h
    rw [split, if_neg (Ne.symm h.1), ih h.2]

theorem split_append {sep : Char} {p : List Char} (h : sep ∉ p) (s : List Char) :
    split sep (p ++ sep :: s) = p :: split sep s := by
  induction p with
  | nil => rw [List.nil_append, split, if_pos rfl]
  | cons c r ih =>
    rw [List.mem_cons, not_or] at h
    rw [List.cons_append, split, if_neg (Ne.symm h.1), ih h.2]

theorem split_join {sep : Char} {ps : List (List Char)} (hne : ps ≠ [])
    (h : ∀ p ∈ ps, sep ∉ p) : split sep (join sep ps) = ps := by
  induction ps with
  | nil => exact absurd rfl hne
  | cons p ps ih =>
    have hp := h p List.mem_cons_self
    cases ps with
    | nil => exact split_eq_singleton hp
    | cons q ps =>
      rw [join, split_append hp]
      · rw [ih (by simp) fun r hr => h r (List.mem_cons_of_mem _ hr)]
      · simp

end LatencyDigest.Text
