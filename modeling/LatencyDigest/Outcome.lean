/-!
When a chain of steps that may fail succeeds: all of its steps do.
-/

namespace LatencyDigest.Outcome

theorem bind_eq_ok_iff {m : Except ε α} {k : α → Except ε β} {y : β} :
    (m >>= k) = .ok y ↔ ∃ x, m = .ok x ∧ k x = .ok y := by
  cases m <;> simp [bind, Except.bind]

theorem map_eq_ok_iff {m : Except ε α} {f : α → β} {y : β} :
    m.map f = .ok y ↔ ∃ x, m = .ok x ∧ f x = y := by
  cases m <;> simp [Except.map]

end LatencyDigest.Outcome
