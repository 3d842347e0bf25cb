import LatencyDigest.Proofs.Report.Build

/-! A report says nothing of the order of the rows: each column can be put into another order of its
own. Only an error tells two such pairs of tables apart, by the name of the table without rows. -/

namespace LatencyDigest

/-- Both pairs of tables hold the column of a metric, with the same values in some order. -/
def Metric.Reordered (packets responses packets' responses' : Table) (m : Metric) : Prop :=
  ∃ xs ys, (m.table packets responses).floats m.column = .ok xs ∧
    (m.table packets' responses').floats m.column = .ok ys ∧ xs.Perm ys

variable {packets responses packets' responses' : Table}

theorem Metric.Reordered.rows_eq {m : Metric}
    (h : m.Reordered packets responses packets' responses') :
    (m.table packets' responses').rows = (m.table packets responses).rows := by
  obtain ⟨xs, ys, hx, hy, hperm⟩ := h
  rw [← Table.length_of_floats hx, ← Table.length_of_floats hy, hperm.length_eq]

namespace Report

theorem build_of_reordered
    (h : ∀ m : Metric, m.Reordered packets responses packets' responses') (ranges : Ranges) :
    ((∃ r, build packets responses ranges = .ok r ∧ build packets' responses' ranges = .ok r) ∨
      ∃ m : Metric,
        build packets responses ranges =
          .error (.noValues (m.table packets responses).name m.column) ∧
        build packets' responses' ranges =
          .error (.noValues (m.table packets' responses').name m.column)) ∧
    (packets.name = packets'.name → responses.name = responses'.name →
      build packets responses ranges = build packets' responses' ranges) := by
  have hpackets : packets'.rows = packets.rows := (h .arrival).rows_eq
  have hresponses : responses'.rows = responses.rows := (h .response).rows_eq
  choose xs ys hx hy hperm using h
  have hsample : (fun m => Sample.ofValues (ys m)) = fun m => Sample.ofValues (xs m) :=
    funext fun m => (Sample.ofValues_eq_of_perm (hperm m)).symm
  -- beside the names, samples and numbers of rows are all that is left of the tables
  rw [build_of_values hx, build_of_values hy, hpackets, hresponses, hsample]
  refine ⟨?_, fun hp hr => by rw [hp, hr]⟩
  by_cases hp : packets.rows = 0
  · simp only [if_pos hp]
    exact .inr ⟨.arrival, rfl, rfl⟩
  · by_cases hr : responses.rows = 0
    · simp only [if_neg hp, if_pos hr]
      exact .inr ⟨.response, rfl, rfl⟩
    · simp only [if_neg hp, if_neg hr]
      exact .inl ⟨_, rfl, rfl⟩

/-- Zeros of both signs, a NaN and an infinity, in two orders. -/
theorem build_of_reordered_zeros :
    let packets := Table.ofMeasures .packet "first" fun _ => #v[.neg .zero, .zero, .nan]
    let responses := Table.ofMeasures .response "first" fun _ => #v[.infinity, .ofNat 1]
    let packets' := Table.ofMeasures .packet "second" fun m =>
      if m = LogKind.queue then #v[.nan, .neg .zero, .zero] else #v[.zero, .neg .zero, .nan]
    let responses' := Table.ofMeasures .response "second" fun _ => #v[.ofNat 1, .infinity]
    (∀ m : Metric, m.Reordered packets responses packets' responses') ∧
    ((∃ r, build packets responses .standard = .ok r ∧
        build packets' responses' .standard = .ok r) ∨
      ∃ m : Metric,
        build packets responses .standard =
          .error (.noValues (m.table packets responses).name m.column) ∧
        build packets' responses' .standard =
          .error (.noValues (m.table packets' responses').name m.column)) ∧
    (packets.name = packets'.name → responses.name = responses'.name →
      build packets responses .standard = build packets' responses' .standard) := by
  intro packets responses packets' responses'
  have h : ∀ m : Metric, m.Reordered packets responses packets' responses' := by
    intro m
    refine ⟨_, _, m.floats_ofMeasures .., m.floats_ofMeasures .., ?_⟩
    cases m <;> decide +kernel
  exact ⟨h, build_of_reordered h .standard⟩

/-- A table of a kind of log, with its columns and no rows. -/
def withoutRows (k : LogKind) (name : String) : Table := .ofMeasures k name fun _ => #v[]

/-- The error for a table without rows names the table. -/
theorem not_build_eq_of_reordered :
    ¬∀ (packets responses packets' responses' : Table) (ranges : Ranges),
      (∀ m : Metric, m.Reordered packets responses packets' responses') →
        build packets responses ranges = build packets' responses' ranges := by
  intro h
  have hbuild (name : String) :
      build (withoutRows .packet name) (withoutRows .response "TCP response") .standard =
        .error (.noValues name Metric.arrival.column) :=
    (build_of_values (fun m => m.floats_ofMeasures ..) .standard).trans (if_pos rfl)
  have heq := h (withoutRows .packet "first") (withoutRows .response "TCP response")
    (withoutRows .packet "second") (withoutRows .response "TCP response") .standard fun m =>
      ⟨_, _, m.floats_ofMeasures .., m.floats_ofMeasures .., .refl _⟩
  rw [hbuild, hbuild] at heq
  injection heq with heq
  injection heq with hname
  exact absurd hname (by decide)

end Report

end LatencyDigest
