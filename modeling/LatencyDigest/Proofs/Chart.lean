import LatencyDigest.Command.Plot
import LatencyDigest.Proofs.Binary64.Bounds
import LatencyDigest.Proofs.Session

/-! Which benchmarks have a chart. A point is refused if one of its coordinates is found not to be
above zero, and a NaN is not found so. What is refused leaves no trace. -/

namespace LatencyDigest

namespace Binary64

theorem ofNat_le_zero_iff {n : Nat} : ofNat n ≤ zero ↔ n = 0 := by
  have hrank : ofNat n ≤ zero ↔ (ofNat n).rank ≤ 0 := le_iff_rank_le (isNaN_ofNat n) rfl rfl rfl
  rw [hrank, Nat.le_zero, rank_ofNat]
  constructor
  · exact fun h => Nat.eq_zero_of_not_pos fun hn => rank_ofNat_ne_zero hn h
  · rintro rfl
    rw [Nat.zero_mul, nearestRank_zero Nat.one_pos]

theorem not_le_zero_iff {x : Binary64} : ¬x ≤ zero ↔ zero < x ∨ x.isNaN := by
  simp [not_le_iff_lt_or, show zero.isNaN = false from rfl]

end Binary64

namespace Benchmark

def times (b : Benchmark) : List Binary64 := b.baseline ++ b.optimized

/-- The series are of one length, and that is not zero. -/
structure Complete (b : Benchmark) : Prop where
  baseline : b.baseline.length = b.sizes.length
  optimized : b.optimized.length = b.sizes.length
  ne_nil : b.sizes ≠ []

variable {b : Benchmark}

theorem validate_of_complete (h : b.Complete) : b.validate = .ok () := by
  rw [validate, if_neg, if_neg h.ne_nil]
  rintro (hl | hl)
  · exact hl h.baseline.symm
  · exact hl h.optimized.symm

theorem validate_of_lengths (h : b.baseline.length ≠ b.sizes.length ∨
    b.optimized.length ≠ b.sizes.length) : b.validate =
      .error (.unequalSeries b.sizes.length b.baseline.length b.optimized.length) := by
  rw [validate, if_pos]
  exact h.imp Ne.symm Ne.symm

theorem validate_of_nil (hs : b.sizes = []) (hb : b.baseline = []) (ho : b.optimized = []) :
    b.validate = .error (.noValues "benchmark results" "order_sizes") := by
  simp [validate, hs, hb, ho]

/-- Each series is a coordinate of the points, with nothing cut off. -/
theorem Complete.map_points (h : b.Complete) : b.points.map (fun p => p.1) = b.sizes ∧
    b.points.map (fun p => p.2.1) = b.baseline ∧ b.points.map (fun p => p.2.2) = b.optimized := by
  obtain ⟨hb, ho, -⟩ := h
  have hpairs : (b.baseline.zip b.optimized).length = b.sizes.length := by
    rw [List.length_zip, hb, ho, Nat.min_self]
  have hrest : b.points.map Prod.snd = b.baseline.zip b.optimized :=
    List.map_snd_zip hpairs.le
  refine ⟨List.map_fst_zip hpairs.ge, ?_, ?_⟩
  · rw [← List.map_fst_zip (hb.trans ho.symm).le, ← hrest, List.map_map]
    rfl
  · rw [← List.map_snd_zip (ho.trans hb.symm).le, ← hrest, List.map_map]
    rfl

end Benchmark

namespace Chart

open Benchmark

/-- Every coordinate has a place on a logarithmic axis. -/
structure Drawable (b : Benchmark) : Prop where
  complete : b.Complete
  sizes : ∀ n ∈ b.sizes, 1 ≤ n
  times : ∀ t ∈ b.times, Binary64.zero < t

/-- No coordinate is found to be at most zero. -/
structure Passes (b : Benchmark) : Prop where
  complete : b.Complete
  sizes : ∀ n ∈ b.sizes, 1 ≤ n
  times : ∀ t ∈ b.times, Binary64.zero < t ∨ t.isNaN

/-- A size or a time is found to be at most zero. -/
def Low (b : Benchmark) : Prop := 0 ∈ b.sizes ∨ ∃ t ∈ b.times, t ≤ Binary64.zero

inductive Refused (b : Benchmark) : Failure → Prop
  | unequalSeries : b.baseline.length ≠ b.sizes.length ∨ b.optimized.length ≠ b.sizes.length →
      Refused b (.unequalSeries b.sizes.length b.baseline.length b.optimized.length)
  | noValues : b.sizes = [] → b.baseline = [] → b.optimized = [] →
      Refused b (.noValues "benchmark results" "order_sizes")
  | notPositive : b.Complete → Low b → Refused b .notPositive

variable {b : Benchmark}

theorem Drawable.passes (h : Drawable b) : Passes b :=
  ⟨h.complete, h.sizes, fun t ht => .inl (h.times t ht)⟩

/-- What sets the two apart is a NaN. -/
theorem Passes.drawable_iff (h : Passes b) : Drawable b ↔ ∀ t ∈ b.times, t.isNaN = false := by
  constructor
  · exact fun hb t ht => (hb.times t ht).2.1
  · refine fun hn => ⟨h.complete, h.sizes, fun t ht => ?_⟩
    exact (h.times t ht).resolve_right (by simp [hn t ht])

theorem not_low_iff : ¬Low b ↔
    (∀ n ∈ b.sizes, 1 ≤ n) ∧ ∀ t ∈ b.times, Binary64.zero < t ∨ t.isNaN := by
  have hsizes : 0 ∉ b.sizes ↔ ∀ n ∈ b.sizes, 1 ≤ n := by
    have hone : ∀ n : UInt64, 1 ≤ n ↔ n ≠ 0 := by
      intro n
      rw [UInt64.le_iff_toNat_le, ne_eq, ← UInt64.toNat_inj]
      exact Nat.pos_iff_ne_zero
    simp only [hone]
    exact ⟨fun h n hn he => h (he ▸ hn), fun h hz => h 0 hz rfl⟩
  simp only [Low, not_or, hsizes, not_exists, not_and, Binary64.not_le_zero_iff]

theorem passes_iff : Passes b ↔ b.Complete ∧ ¬Low b := by
  rw [not_low_iff]
  exact ⟨fun h => ⟨h.complete, h.sizes, h.times⟩, fun h => ⟨h.1, h.2.1, h.2.2⟩⟩

theorem passes_or_refused (b : Benchmark) : Passes b ∨ ∃ e, Refused b e := by
  by_cases hb : b.baseline.length = b.sizes.length
  · by_cases ho : b.optimized.length = b.sizes.length
    · by_cases hs : b.sizes = []
      · rw [hs] at hb ho
        exact .inr ⟨_, .noValues hs (List.length_eq_zero_iff.1 hb) (List.length_eq_zero_iff.1 ho)⟩
      · by_cases hlow : Low b
        · exact .inr ⟨_, .notPositive ⟨hb, ho, hs⟩ hlow⟩
        · exact .inl (passes_iff.2 ⟨⟨hb, ho, hs⟩, hlow⟩)
    · exact .inr ⟨_, .unequalSeries (.inr ho)⟩
  · exact .inr ⟨_, .unequalSeries (.inl hb)⟩

/-- A test of both coordinates finds what it finds in the sizes and in the two series of times. -/
theorem any_coordinates (f : UInt64 → Binary64) (low : Binary64 → Bool)
    (ps : List (UInt64 × Binary64 × Binary64)) :
    (ps.map (fun p => (f p.1, p.2.1)) ++ ps.map fun p => (f p.1, p.2.2)).any
        (fun p => low p.1 || low p.2) ↔
      (∃ n ∈ ps.map (fun p => p.1), low (f n)) ∨
        ∃ t ∈ ps.map (fun p => p.2.1) ++ ps.map (fun p => p.2.2), low t := by
  simp only [List.any_append, List.any_map, Bool.or_eq_true, List.any_eq_true,
    Function.comp_apply, List.mem_append, List.mem_map]
  constructor
  · rintro (⟨p, hp, hx | hy⟩ | ⟨p, hp, hx | hy⟩)
    · exact .inl ⟨p.1, ⟨p, hp, rfl⟩, hx⟩
    · exact .inr ⟨p.2.1, .inl ⟨p, hp, rfl⟩, hy⟩
    · exact .inl ⟨p.1, ⟨p, hp, rfl⟩, hx⟩
    · exact .inr ⟨p.2.2, .inr ⟨p, hp, rfl⟩, hy⟩
  · rintro (⟨_, ⟨p, hp, rfl⟩, hx⟩ | ⟨_, ⟨p, hp, rfl⟩ | ⟨p, hp, rfl⟩, hy⟩)
    · exact .inl ⟨p, hp, .inl hx⟩
    · exact .inl ⟨p, hp, .inr hy⟩
    · exact .inr ⟨p, hp, .inr hy⟩

open Classical in
theorem ofBenchmark_of_complete (h : b.Complete) :
    ∃ c, ofBenchmark b = if Low b then .error .notPositive else .ok c := by
  obtain ⟨hs, hb, ho⟩ := h.map_points
  let c : Chart :=
    { baseline := b.points.map fun p => (.ofNat p.1.toNat, p.2.1)
      optimized := b.points.map fun p => (.ofNat p.1.toNat, p.2.2) }
  have hchart : ofBenchmark b =
      if c.points.any fun p => p.1 ≤ Binary64.zero || p.2 ≤ Binary64.zero then .error .notPositive
      else .ok c := by
    rw [ofBenchmark, validate_of_complete h]
    rfl
  have hsizes : (∃ n ∈ b.sizes, decide (Binary64.ofNat n.toNat ≤ Binary64.zero)) ↔
      0 ∈ b.sizes := by
    have hzero : ∀ n : UInt64, n.toNat = 0 ↔ n = 0 := fun n => UInt64.toNat_inj (b := 0)
    simp only [decide_eq_true_eq, Binary64.ofNat_le_zero_iff, hzero]
    exact exists_eq_right
  have hany := any_coordinates (fun n => .ofNat n.toNat) (fun x => x ≤ Binary64.zero) b.points
  rw [hs, hb, ho, hsizes] at hany
  have hlow : (c.points.any fun p => p.1 ≤ Binary64.zero || p.2 ≤ Binary64.zero) ↔ Low b := by
    rw [Low, times]
    simp only [decide_eq_true_eq] at hany
    exact hany
  exact ⟨c, hchart.trans (if_congr hlow rfl rfl)⟩

theorem ofBenchmark_of_passes (h : Passes b) : ∃ c, ofBenchmark b = .ok c := by
  obtain ⟨hb, hlow⟩ := passes_iff.1 h
  obtain ⟨c, hc⟩ := ofBenchmark_of_complete hb
  exact ⟨c, hc.trans (if_neg hlow)⟩

theorem ofBenchmark_of_refused {e : Failure} (h : Refused b e) : ofBenchmark b = .error e := by
  cases h with
  | unequalSeries hl => rw [ofBenchmark, validate_of_lengths hl]; rfl
  | noValues hs hb ho => rw [ofBenchmark, validate_of_nil hs hb ho]; rfl
  | notPositive hb hlow =>
    obtain ⟨c, hc⟩ := ofBenchmark_of_complete hb
    exact hc.trans (if_pos hlow)

theorem ofBenchmark_eq_ok_iff : (∃ c, ofBenchmark b = .ok c) ↔ Passes b := by
  refine ⟨fun ⟨c, hc⟩ => ?_, ofBenchmark_of_passes⟩
  rcases passes_or_refused b with h | ⟨e, he⟩
  · exact h
  · cases hc.symm.trans (ofBenchmark_of_refused he)

theorem ofBenchmark_eq_error_iff {e : Failure} : ofBenchmark b = .error e ↔ Refused b e := by
  refine ⟨fun h => ?_, ofBenchmark_of_refused⟩
  rcases passes_or_refused b with hp | ⟨e', he⟩
  · obtain ⟨c, hc⟩ := ofBenchmark_of_passes hp
    cases h.symm.trans hc
  · cases h.symm.trans (ofBenchmark_of_refused he)
    exact he

theorem drawBenchmark_of_error {e : Failure} (h : ofBenchmark b = .error e) (path : String)
    (s : Session) : Session.attempt (Command.drawBenchmark b path) s = (.error e, s) := by
  refine Session.attempt_bind_of_error ?_
  rw [h, Session.attempt_stage]

theorem drawBenchmark_of_ok {c : Chart} (h : ofBenchmark b = .ok c) (path : String)
    (s : Session) : (Session.attempt (Command.drawBenchmark b path) s).2 =
      { s with charts := s.charts ++ [(c, path)] } := by
  have hstage : Session.attempt (Command.stage (ofBenchmark b)) s = (.ok c, s) := by
    rw [h, Session.attempt_stage]
  rw [Command.drawBenchmark, Session.attempt_bind_of_ok hstage]
  rfl

/-- What is drawn is what has its place on logarithmic axes, unless one of the times is a NaN. -/
theorem ofBenchmark_passes (b : Benchmark) (path : String) (s : Session) :
    ((∃ c, ofBenchmark b = .ok c) ↔ Passes b) ∧
    (((∃ c, ofBenchmark b = .ok c) ↔ Drawable b) ↔
      (∀ t ∈ b.times, t.isNaN = false) ∨ ¬Passes b) ∧
    (∀ e, ofBenchmark b = .error e ↔ Refused b e) ∧
    (∀ e, ofBenchmark b = .error e →
      Session.attempt (Command.drawBenchmark b path) s = (.error e, s)) ∧
    (∀ c, ofBenchmark b = .ok c → (Session.attempt (Command.drawBenchmark b path) s).2 =
      { s with charts := s.charts ++ [(c, path)] }) := by
  refine ⟨ofBenchmark_eq_ok_iff, ?_, fun e => ofBenchmark_eq_error_iff,
    fun e h => drawBenchmark_of_error h path s, fun c h => drawBenchmark_of_ok h path s⟩
  rw [ofBenchmark_eq_ok_iff]
  by_cases h : Passes b
  · rw [iff_true_left h, h.drawable_iff]
    exact (or_iff_left (not_not.2 h)).symm
  · exact iff_of_true (iff_of_false h (h ∘ Drawable.passes)) (.inr h)

/-- A NaN, an infinity and the least number above zero pass. A zero with a sign does not, and series
of different lengths are refused for that. -/
theorem ofBenchmark_passes_extremes :
    let s := Session.ofFiles ⟨[], []⟩ (fun _ => 0) "" (.ok ())
    let passed : Benchmark := ⟨[1, 2], [Binary64.infinity, .nan], [.ofBits 1, .ofNat 3]⟩
    let zeroed : Benchmark := ⟨[1], [-Binary64.zero], [.ofNat 1]⟩
    (∃ c, ofBenchmark passed = .ok c ∧
      (Session.attempt (Command.drawBenchmark passed "chart.png") s).2.charts =
        [(c, "chart.png")]) ∧
    ¬Drawable passed ∧
    Session.attempt (Command.drawBenchmark zeroed "chart.png") s = (.error .notPositive, s) ∧
    ofBenchmark ⟨[0], [], [.nan]⟩ = .error (.unequalSeries 1 0 1) := by
  intro s passed zeroed
  obtain ⟨hok, hdrawable, -, -, hdrawn⟩ := ofBenchmark_passes passed "chart.png" s
  have hpasses : Passes passed := ⟨⟨rfl, rfl, by decide⟩, by simp [passed], by decide +kernel⟩
  obtain ⟨c, hc⟩ := hok.2 hpasses
  obtain ⟨-, -, herror, hkept, -⟩ := ofBenchmark_passes zeroed "chart.png" s
  have hzeroed : Refused zeroed .notPositive :=
    .notPositive ⟨rfl, rfl, by decide⟩ (.inr ⟨-Binary64.zero, .head _, by decide +kernel⟩)
  refine ⟨⟨c, hc, congrArg Session.charts (hdrawn c hc)⟩, ?_,
    hkept _ ((herror _).2 hzeroed), ?_⟩
  · intro h
    rcases hdrawable.1 (iff_of_true ⟨c, hc⟩ h) with hnan | hnot
    · exact absurd (hnan Binary64.nan (by decide)) (by decide)
    · exact hnot hpasses
  · exact ((ofBenchmark_passes ⟨[0], [], [.nan]⟩ "chart.png" s).2.2.1 _).2
      (.unequalSeries (.inl (by decide)))

/-- A time that is a NaN passes. -/
theorem not_drawable_of_passes :
    ¬∀ b : Benchmark, (∃ c, ofBenchmark b = .ok c) ↔ Drawable b := by
  intro h
  have hpasses : Passes ⟨[1], [Binary64.nan], [.ofNat 1]⟩ :=
    ⟨⟨rfl, rfl, by decide⟩, by simp, by decide +kernel⟩
  have hdrawable := (h _).1 (ofBenchmark_of_passes hpasses)
  exact absurd (hdrawable.times Binary64.nan (.head _)) (by decide)

end Chart

end LatencyDigest
