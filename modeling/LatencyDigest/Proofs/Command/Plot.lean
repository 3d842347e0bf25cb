import LatencyDigest.Proofs.Benchmark.Loading
import LatencyDigest.Proofs.Command.Run

/-! A run of the program that draws a chart. Either the file holds results of which every point has
its place on logarithmic axes, and their chart is drawn, or the first thing that is wrong with the
file is told and nothing is touched. -/

namespace LatencyDigest.Command

open Benchmark (Broken Holds)
open Chart (Drawable Low)
open Journal Session

variable {files : FileTree} {path : String} {told : List String} {e : Failure} {b : Benchmark}

def loaded (b : Benchmark) (path : String) : String :=
  "Loaded " ++ toString b.length ++ " benchmark points from " ++ path

/-- What is wrong with a file whose chart is not drawn, and what is said before that is told. -/
inductive Unfit (files : FileTree) (path : String) : List String → Failure → Prop where
  | broken {e : Failure} (h : Broken files path e) : Unfit files path [] e
  | low {b : Benchmark} (h : Holds files path b) (hc : b.Complete) (hlow : Low b) :
      Unfit files path [loaded b path] .notPositive

/-- The file holds results that have their places in a chart. -/
def Fit (files : FileTree) (path : String) : Prop := ∃ b, Holds files path b ∧ Drawable b

theorem fit_or_unfit (files : FileTree) (path : String) :
    Fit files path ∨ ∃ told e, Unfit files path told e := by
  rcases Benchmark.complete_or_broken files path with ⟨b, h, hc⟩ | ⟨e, he⟩
  · by_cases hlow : Low b
    · exact .inr ⟨_, _, .low h hc hlow⟩
    · exact .inl ⟨b, h, (h.sound hc).drawable_iff.2 hlow⟩
  · exact .inr ⟨_, _, .broken he⟩

section
variable {s : Session} {c : ChartSettings}

theorem said_of_unlogged (h : s.log = none) (message : String) :
    s.said message = { s with printed := s.printed ++ (message ++ "\n") } := by
  rw [said, writeLog, h]

theorem complained_of_unlogged (h : s.log = none) (failure : Failure) :
    s.complained failure =
      { s with errors := s.errors ++ ("Error: " ++ failure.message ++ "\n") } := by
  rw [complained, writeLog, h]

theorem attempt_plotStages_of_ok (h : attempt (Benchmark.load c.results) s = (.ok b, s)) :
    attempt (plotStages c) s = attempt (do
      drawBenchmark b c.output
      say ("Chart saved as " ++ c.output)) (s.said (loaded b c.results)) := by
  rw [plotStages, attempt_bind_of_ok h, attempt_bind_of_ok (attempt_say _ s)]
  rfl

theorem attempt_plotStages_of_unfit (h : Unfit s.files c.results told e) (hlog : s.log = none) :
    attempt (plotStages c) s = (.error e, { s with printed := s.printed ++ lines told }) := by
  cases h with
  | broken h =>
    rw [plotStages, attempt_bind_of_error (Benchmark.attempt_load_of_broken h), lines_nil,
      String.append_empty]
  | @low b h hc hlow =>
    have hrefused := Chart.ofBenchmark_of_refused (.notPositive hc hlow)
    rw [attempt_plotStages_of_ok (Benchmark.attempt_load_of_complete h hc), lines_singleton,
      attempt_bind_of_error (Chart.drawBenchmark_of_error hrefused _ _), said_of_unlogged hlog]

theorem attempt_drawBenchmark {chart : Chart} {result : Except String Unit}
    (h : Chart.ofBenchmark b = .ok chart) (hcanvas : s.canvas = result) (path : String) :
    attempt (drawBenchmark b path) s =
      (result.mapError .chart, { s with charts := s.charts ++ [(chart, path)] }) := by
  have hstage : attempt (stage (Chart.ofBenchmark b)) s = (.ok chart, s) := by
    rw [h, attempt_stage]
  rw [drawBenchmark, attempt_bind_of_ok hstage, ← hcanvas]
  rfl

theorem run_finish_plotStages_of_unfit (h : Unfit s.files c.results told e) (hlog : s.log = none) :
    Session.run (finish (plotStages c)) s = (1, { s with
      printed := s.printed ++ lines told
      errors := s.errors ++ lines ["Error: " ++ e.message] }) := by
  rw [run_finish_of_error (attempt_plotStages_of_unfit h hlog), lines_singleton,
    complained_of_unlogged (s := { s with printed := s.printed ++ lines told }) hlog]

/-- The files are left to whoever draws. -/
theorem run_finish_plotStages_of_fit {chart : Chart} (h : Holds s.files c.results b)
    (hc : b.Complete) (hchart : Chart.ofBenchmark b = .ok chart) (hlog : s.log = none) :
    (Session.run (finish (plotStages c)) s).2.files = s.files ∧
      (Session.run (finish (plotStages c)) s).2.charts = s.charts ++ [(chart, c.output)] := by
  have hstages := attempt_plotStages_of_ok (Benchmark.attempt_load_of_complete h hc)
  rw [said_of_unlogged hlog] at hstages
  generalize hnext : { s with printed := s.printed ++ (loaded b c.results ++ "\n") } = next
    at hstages
  have hlog' : next.log = none := by rw [← hnext, hlog]
  have hfiles : next.files = s.files := by rw [← hnext]
  have hcharts : next.charts = s.charts := by rw [← hnext]
  rw [← hfiles, ← hcharts]
  cases hcanvas : next.canvas with
  | error reason =>
    have hdraw := attempt_drawBenchmark hchart hcanvas c.output
    rw [run_finish_of_error (hstages.trans (attempt_bind_of_error hdraw)), complained, writeLog]
    simp only [hlog', and_self]
  | ok =>
    have hdraw := attempt_drawBenchmark hchart hcanvas c.output
    rw [run_finish_of_ok (hstages.trans ((attempt_bind_of_ok hdraw).trans (attempt_say _ _))),
      said, writeLog]
    simp only [hlog', and_self]

end

/-- The runs in which a chart is drawn, and all the others. -/
theorem plot_draws_sound (programDirectory : String) (env : Environment) (files : FileTree)
    (clock : Nat → Nat) (calendar : String) (canvas : Except String Unit) :
    let start := Session.ofFiles files clock calendar canvas
    let c := ChartSettings.ofEnvironment programDirectory env
    let out := Session.run (plot programDirectory env) start
    (∀ b s, attempt (Benchmark.load c.results) start = (.ok b, s) →
      s = start ∧ b.Sound ∧ ∀ chart, Chart.ofBenchmark b = .ok chart → Drawable b) ∧
    (∀ told e, Unfit files c.results told e →
      out = (1, { start with
        printed := lines told
        errors := lines ["Error: " ++ e.message] })) ∧
    ((∃ told e, Unfit files c.results told e) ↔ ¬Fit files c.results) ∧
    ∀ b, Holds files c.results b → Drawable b → b.Sound ∧ ∃ chart,
      Chart.ofBenchmark b = .ok chart ∧ out.2.files = files ∧ out.2.charts = [(chart, c.output)] := by
  intro start c out
  have hunfit : ∀ told e, Unfit files c.results told e →
      out = (1, { start with
        printed := lines told
        errors := lines ["Error: " ++ e.message] }) := by
    intro told e h
    have hrun := run_finish_plotStages_of_unfit (s := start) h rfl
    rwa [show start.printed = "" from rfl, show start.errors = "" from rfl, String.empty_append,
      String.empty_append] at hrun
  have hfit : ∀ b, Holds files c.results b → Drawable b → b.Sound ∧ ∃ chart,
      Chart.ofBenchmark b = .ok chart ∧ out.2.files = files ∧
        out.2.charts = [(chart, c.output)] := by
    intro b h hd
    obtain ⟨chart, hchart⟩ := Chart.ofBenchmark_of_passes hd.passes
    have hrun := run_finish_plotStages_of_fit (s := start) h hd.complete hchart rfl
    exact ⟨h.sound hd.complete, chart, hchart, hrun⟩
  refine ⟨fun b s h => ?_, hunfit, ⟨?_, (fit_or_unfit files c.results).resolve_left⟩, hfit⟩
  · obtain ⟨rfl, hholds, hc⟩ := Benchmark.attempt_load_eq_ok_iff.1 h
    have hsound := hholds.sound hc
    refine ⟨rfl, hsound, fun chart hchart => hsound.drawable_iff.2 ?_⟩
    exact (Chart.passes_iff.1 (Chart.ofBenchmark_eq_ok_iff.1 ⟨chart, hchart⟩)).2
  · rintro ⟨told, e, h⟩ ⟨b, hb, hd⟩
    obtain ⟨-, chart, -, -, hcharts⟩ := hfit b hb hd
    rw [hunfit told e h] at hcharts
    cases hcharts

/-- A time that is out of reach is no time, a zero has no place in a chart, and what is left is
drawn. -/
theorem plot_draws_sound_extremes :
    let env : Environment := fun v =>
      match v with
      | .results => some "results.json"
      | _ => none
    let files (text : String) : FileTree :=
      ⟨[(["results.json"], .file (Text.encode text.toList))], []⟩
    let start (text : String) := Session.ofFiles (files text) (fun _ => 0) "" (.ok ())
    let out (text : String) := Session.run (plot "data" env) (start text)
    Unfit (files "[[1],[1e999],[2]]") "results.json" [] (.json .numberOutOfRange 1 11) ∧
    (out "[[1],[1e999],[2]]").2.errors =
      "Error: Serde error: number out of range at line 1 column 11\n" ∧
    Unfit (files "[[1],[0],[2]]") "results.json"
      ["Loaded 1 benchmark points from results.json"] .notPositive ∧
    (out "[[1],[0],[2]]").1 = 1 ∧ (out "[[1],[0],[2]]").2.charts = [] ∧
    Fit (files "[[1],[3],[2]]") "results.json" ∧
    ∃ chart, (out "[[1],[3],[2]]").2.charts =
      [(chart, "performance_chart_total_workload.png")] := by
  intro env files start out
  have hall (text : String) := plot_draws_sound "data" env (files text) (fun _ => 0) "" (.ok ())
  have hspot (text : String) : (files text).resolve "results.json" =
      .ok (.file ["results.json"] (Text.encode text.toList) false) := rfl
  have hpresent (text : String) : (files text).present "results.json" = true := by
    rw [FileTree.present, hspot]
    rfl
  have hread (text : String) :
      (files text).read "results.json" = .content (Text.encode text.toList) := by
    rw [FileTree.read, hspot]
  have hholds {text : String} {b : Benchmark}
      (h : Benchmark.ofTokens (Json.Token.list (Text.encode text.toList)) = .ok b) :
      Holds (files text) "results.json" b :=
    ⟨hpresent text, _, hread text, Benchmark.written_of_ofTokens h⟩
  have hbeyond : Unfit (files "[[1],[1e999],[2]]") "results.json" []
      (.json .numberOutOfRange 1 11) := by
    refine .broken (.notResults (hpresent _) (hread _) (fun b hw => ?_) (by decide +kernel))
    have hstop : Benchmark.ofTokens (Json.Token.list (Text.encode "[[1],[1e999],[2]]".toList)) =
        .error ⟨.numberOutOfRange, some 11⟩ := by decide +kernel
    cases hstop.symm.trans (Benchmark.ofTokens_eq_ok_iff.2 hw)
  have hzero : Holds (files "[[1],[0],[2]]") "results.json" ⟨[1], [.ofNat 0], [.ofNat 2]⟩ :=
    hholds (by decide +kernel)
  have hlow := Unfit.low hzero ⟨rfl, rfl, by decide⟩ (.inr ⟨.ofNat 0, .head _, by decide +kernel⟩)
  have hpositive : Holds (files "[[1],[3],[2]]") "results.json" ⟨[1], [.ofNat 3], [.ofNat 2]⟩ :=
    hholds (by decide +kernel)
  have hdrawable : Drawable ⟨[1], [.ofNat 3], [.ofNat 2]⟩ :=
    ⟨⟨rfl, rfl, by simp⟩, by simp, by decide +kernel⟩
  obtain ⟨-, hunfit, -, -⟩ := hall "[[1],[1e999],[2]]"
  obtain ⟨-, hunfit', -, -⟩ := hall "[[1],[0],[2]]"
  obtain ⟨-, -, -, hfit⟩ := hall "[[1],[3],[2]]"
  obtain ⟨-, chart, -, -, hchart⟩ := hfit _ hpositive hdrawable
  have hmessage : lines ["Error: " ++ (Failure.json .numberOutOfRange 1 11).message] =
      "Error: Serde error: number out of range at line 1 column 11\n" := by decide +kernel
  refine ⟨hbeyond, ?_, hlow, ?_, ?_, ⟨_, hpositive, hdrawable⟩, chart, hchart⟩
  · exact (congrArg (fun p => p.2.errors) (hunfit _ _ hbeyond)).trans hmessage
  · exact congrArg Prod.fst (hunfit' _ _ hlow)
  · exact congrArg (fun p => p.2.charts) (hunfit' _ _ hlow)

end LatencyDigest.Command
