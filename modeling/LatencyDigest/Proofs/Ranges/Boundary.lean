import LatencyDigest.Ranges

/-! The search by halving. Whatever it tests, it ends within the list; in a list whose elements that
pass stand before the others it finds where they end. -/

namespace LatencyDigest.Ranges

variable {p : α → Bool} {xs : List α}

theorem boundary_of_two_le (h : 2 ≤ xs.length) : boundary p xs =
    if p xs[xs.length / 2] then xs.length / 2 + boundary p (xs.drop (xs.length / 2))
    else boundary p (xs.take (xs.length - xs.length / 2)) := by
  match xs with
  | a :: b :: r =>
    have hlt : (r.length + 2) / 2 < (a :: b :: r).length := by
      rw [List.length_cons, List.length_cons]
      omega
    rw [boundary, List.head?_drop, List.getElem?_eq_getElem hlt]
    rfl

theorem boundary_le_length (p : α → Bool) (xs : List α) : boundary p xs ≤ xs.length := by
  induction hn : xs.length using Nat.strongRecOn generalizing xs with
  | ind n ih =>
    rcases Nat.lt_or_ge xs.length 2 with hlt | hge
    · match xs with
      | [] => simp [boundary]
      | [a] =>
        rw [boundary, ← hn]
        split <;> simp
    · rw [boundary_of_two_le hge]
      split
      · have hup := ih _ (by rw [List.length_drop]; omega) (xs.drop (xs.length / 2)) rfl
        rw [List.length_drop] at hup
        omega
      · have hlow := ih _ (by rw [List.length_take]; omega)
          (xs.take (xs.length - xs.length / 2)) rfl
        rw [List.length_take] at hlow
        omega

/-- What passes stands before what does not. -/
def Parted (p : α → Bool) (xs : List α) : Prop := xs.Pairwise fun a b => p b → p a

theorem Parted.of_le (h : Parted p xs) {i j : Nat} (hij : i ≤ j) (hj : j < xs.length)
    (hp : p xs[j]) : p xs[i] := by
  rcases Nat.lt_or_eq_of_le hij with hlt | rfl
  · exact List.pairwise_iff_getElem.1 h i j _ hj hlt hp
  · exact hp

theorem lt_boundary_iff (h : Parted p xs) {j : Nat} (hj : j < xs.length) :
    j < boundary p xs ↔ p xs[j] := by
  induction hn : xs.length using Nat.strongRecOn generalizing xs j with
  | ind n ih =>
    rcases Nat.lt_or_ge xs.length 2 with hlt | hge
    · match xs with
      | [a] =>
        obtain rfl : j = 0 := by simpa using hj
        rw [boundary]
        split <;> simp [*]
    · rw [boundary_of_two_le hge]
      split
      · next hmid =>
        rcases Nat.lt_or_ge j (xs.length / 2) with hjlt | hjge
        · exact iff_of_true (by omega) (h.of_le (Nat.le_of_lt hjlt) (by omega) hmid)
        · obtain ⟨i, rfl⟩ := Nat.exists_eq_add_of_le hjge
          have hi : i < (xs.drop (xs.length / 2)).length := by
            rw [List.length_drop]
            omega
          rw [Nat.add_lt_add_iff_left, ← List.getElem_drop (h := hi)]
          exact ih _ (by rw [List.length_drop]; omega) (h.sublist (List.drop_sublist _ _)) _ rfl
      · next hmid =>
        rcases Nat.lt_or_ge j (xs.length - xs.length / 2) with hjlt | hjge
        · have hj' : j < (xs.take (xs.length - xs.length / 2)).length := by
            rw [List.length_take]
            omega
          rw [← List.getElem_take (h := hj')]
          exact ih _ (by rw [List.length_take]; omega) (h.sublist (List.take_sublist _ _)) _ rfl
        · have hlow := boundary_le_length p (xs.take (xs.length - xs.length / 2))
          rw [List.length_take] at hlow
          exact iff_of_false (by omega) fun hp => hmid (h.of_le (by omega) hj hp)

end LatencyDigest.Ranges
