import LatencyDigest.Proofs.Command.Run
import Mathlib.Logic.Function.Basic

/-! The log of a report next to the same run without a log. It holds what is printed, and the run
goes as it would without it. -/

namespace LatencyDigest

open Journal

/-- A message without the time that a load took. -/
def Message.untimed : Message → Message
  | loaded t path _ => loaded t path 0
  | report text => report text
  | saved path => saved path

namespace ReportSettings

variable (c : ReportSettings) (t : FileTree)

theorem map_onSuccess {α β : Type} (stage : Except Failure α) (said : α → List Message)
    (f : Message → β) :
    (onSuccess stage said).map f = match stage with
      | .ok x => (said x).map f
      | .error _ => [] := by
  cases stage <;> rfl

theorem messages_untimed (took : LogKind → Nat) :
    (c.messages t took).map Message.untimed = c.messages t fun _ => 0 := by
  have hsaved : ∀ paths : List String,
      (paths.map Message.saved).map Message.untimed = paths.map Message.saved := by
    intro paths
    rw [List.map_map]
    rfl
  simp only [messages, loadMessages, reportMessages, List.map_append, map_onSuccess, hsaved]
  rfl

theorem ofEnvironment_reportLog {programDirectory : String} {env : Environment}
    {c : ReportSettings} (h : ofEnvironment programDirectory env = .ok c) :
    c.reportLog = env .reportLog := by
  obtain ⟨ranges, -, h⟩ := Outcome.bind_eq_ok_iff.1 h
  cases h
  rfl

theorem ofEnvironment_unlogged {programDirectory : String} {env : Environment}
    {c : ReportSettings} (h : ofEnvironment programDirectory env = .ok c) :
    ofEnvironment programDirectory (Function.update env .reportLog none)
      = .ok { c with reportLog := none } := by
  obtain ⟨ranges, hr, h⟩ := Outcome.bind_eq_ok_iff.1 h
  cases h
  refine Outcome.bind_eq_ok_iff.2 ⟨ranges, hr, rfl⟩

end ReportSettings

namespace Session

variable {s begun : Session} {path : String}

/-- The log that opens, with its first line. -/
def opening? (s : Session) (path : String) : Option Copy :=
  (s.files.target path).toOption.map fun place =>
    ⟨place, Text.encode (lines [header s.calendar]).toList⟩

theorem opening?_of_ok {place : Place} (h : s.files.target path = .ok place) :
    s.opening? path = some ⟨place, Text.encode (lines [header s.calendar]).toList⟩ := by
  rw [opening?, h]
  rfl

theorem target_of_mem_opening? {copy : Copy} (h : copy ∈ s.opening? path) :
    s.files.target path = .ok copy.place := by
  cases ht : s.files.target path with
  | error fault =>
    rw [opening?, ht] at h
    cases h
  | ok place =>
    rw [opening?_of_ok ht] at h
    cases h
    rfl

theorem shows_of_opens (h : Opens s path begun) (hs : s.log = none) :
    begun.Shows s.files (s.opening? path) := by
  cases h with
  | closed target_eq =>
    rw [opening?, target_eq]
    exact .unlogged hs rfl
  | @opened place target_eq =>
    have hnode := FileTree.node?_put_self (t := s.files)
      (n := .file (Text.encode (lines [header s.calendar]).toList))
      (FileTree.ne_nil_of_target target_eq)
    rw [opening?_of_ok target_eq]
    exact .logged rfl hnode ⟨rfl, fun p hp => FileTree.node?_put_of_ne hp, _, hnode⟩

end Session

namespace Command

section
variable {programDirectory : String} {env : Environment} {files : FileTree} {clock : Nat → Nat}
  {calendar : String} {canvas : Except String Unit} {c : ReportSettings} {path : String}

theorem placeOf_of_mem_opening? {copy : Copy}
    (h : copy ∈ (Session.ofFiles files clock calendar canvas).opening? path) :
    files.placeOf path = copy.place :=
  FileTree.target_eq_placeOf (Session.target_of_mem_opening? h)

/-- The run without the log. -/
theorem ends_unlogged (hc : ReportSettings.ofEnvironment programDirectory env = .ok c) :
    let start := Session.ofFiles files clock calendar canvas
    let unlogged := Session.run
      (report programDirectory (Function.update env .reportLog none)) start
    Session.Ends { c with reportLog := none } start files none unlogged.1 unlogged.2 := by
  intro start unlogged
  have hrun : unlogged = _ :=
    run_report_of_ok (ReportSettings.ofEnvironment_unlogged hc) start
  rw [hrun]
  exact Session.ends_reportStages (.unlogged rfl rfl) (by rintro _ _ _ ⟨⟩)

/-- The run with the log, from where the log is opened. -/
theorem ends_logged (hc : ReportSettings.ofEnvironment programDirectory env = .ok c)
    (hlog : env .reportLog = some path) (hparent : files.HasParent path)
    (hclear : ∀ p ∈ c.inputPaths ++ c.exportPaths,
      files.placeOf path ≠ files.placeOf p ∧ files.placeOf path ∉ files.wayOf p) :
    let start := Session.ofFiles files clock calendar canvas
    let logged := Session.run (report programDirectory env) start
    ∃ begun, Opens start path begun ∧ begun.took = start.took ∧
      Session.Ends c begun files (start.opening? path) logged.1 logged.2 := by
  intro start logged
  have hrun : logged = Session.run (finish (reportStages c)) (begun (some path) start) := by
    rw [← hlog, ← ReportSettings.ofEnvironment_reportLog hc]
    exact run_report_of_ok hc start
  have hopens : Opens start path (begun (some path) start) := opens_start hparent
  generalize begun (some path) start = begun at hrun hopens
  refine ⟨begun, hopens, ?_, ?_⟩
  · cases hopens <;> rfl
  rw [hrun]
  refine Session.ends_reportStages (Session.shows_of_opens hopens rfl) fun p hp copy hcopy => ?_
  rw [← placeOf_of_mem_opening? hcopy]
  exact ⟨(hclear p hp).1.symm, fun hway => absurd hway (hclear p hp).2⟩

end

/-- The log is faithful, and the run is the same without it. The two runs look at clocks of their
own. -/
theorem report_log_faithful (programDirectory : String) (env : Environment) (files : FileTree)
    (clock clock' : Nat → Nat) (calendar calendar' : String) (canvas canvas' : Except String Unit)
    {c : ReportSettings} {path : String}
    (hc : ReportSettings.ofEnvironment programDirectory env = .ok c)
    (hlog : env .reportLog = some path) (hparent : files.HasParent path)
    (hclear : ∀ p ∈ c.inputPaths ++ c.exportPaths,
      files.placeOf path ≠ files.placeOf p ∧ files.placeOf path ∉ files.wayOf p) :
    let start := Session.ofFiles files clock calendar canvas
    let start' := Session.ofFiles files clock' calendar' canvas'
    let logged := Session.run (report programDirectory env) start
    let unlogged := Session.run
      (report programDirectory (Function.update env .reportLog none)) start'
    let messages := c.messages files start.took
    let messages' := c.messages files start'.took
    (∀ place, files.target path = .ok place →
      logged.2.files.file? place = some (Text.encode (lines (header calendar ::
        (messages.map Message.text ++ (c.complaints files).map ("ERROR: " ++ ·)))).toList) ∧
      logged.2.printed = notice path ++ lines (messages.map Message.text) ∧
      logged.2.errors = lines (c.complaints files)) ∧
    logged.1 = unlogged.1 ∧
    (∀ p, p ≠ files.placeOf path → logged.2.files.node? p = unlogged.2.files.node? p) ∧
    (∀ fault, files.target path = .error fault →
      logged.2.printed = lines (messages.map Message.text)) ∧
    unlogged.2.printed = lines (messages'.map Message.text) ∧
    messages.map Message.untimed = messages'.map Message.untimed := by
  intro start start' logged unlogged messages messages'
  have hends' : Session.Ends { c with reportLog := none } start' files none unlogged.1 unlogged.2 :=
    ends_unlogged hc
  obtain ⟨begun, hopens, htook, hends⟩ : ∃ begun, Opens start path begun ∧
      begun.took = start.took ∧
      Session.Ends c begun files (start.opening? path) logged.1 logged.2 :=
    ends_logged hc hlog hparent hclear
  have hprinted := hends.printed_eq
  have hshows := hends.shows
  rw [htook] at hprinted hshows
  refine ⟨?_, hends.status_eq.trans hends'.status_eq.symm, ?_, ?_, ?_, ?_⟩
  · intro place ht
    obtain ⟨hnotice, herrors⟩ := hopens.printed_eq_notice ht
    refine ⟨?_, ?_, ?_⟩
    · rw [Session.opening?_of_ok ht, Option.map_some] at hshows
      refine (FileTree.file?_of_node? hshows.node?_place).trans (congrArg some ?_)
      rw [Copy.add, ← Text.encode_append, ← String.toList_append, ← lines_append]
      rfl
    · rw [hprinted, hnotice]
      rfl
    · rw [hends.errors_eq, herrors]
      exact String.empty_append
  · intro p hp
    rw [hends'.shows.node?_eq (by rintro _ ⟨⟩)]
    have hout : ∀ copy ∈ start.opening? path, p ≠ copy.place :=
      fun copy hm => placeOf_of_mem_opening? hm ▸ hp
    exact hshows.node?_eq (Copy.forall_add (P := (p ≠ ·)) hout)
  · intro fault ht
    rw [hprinted, hopens.printed_eq ht]
    exact String.empty_append
  · exact hends'.printed_eq.trans String.empty_append
  · rw [ReportSettings.messages_untimed, ReportSettings.messages_untimed]

/-- A run that loads both logs, reports on them and saves both tables, with a log that tells of each
of these, and the run without the log, in which no time passes. -/
theorem report_log_faithful_saved :
    let env : Environment := fun v =>
      match v with
      | .exportStem => some "out"
      | .reportLog => some "logs/report.log"
      | _ => none
    let c : ReportSettings := {
      directory := "data"
      packetLog := LogKind.packet.fileName
      responseLog := LogKind.response.fileName
      exportStem := some "out"
      reportLog := some "logs/report.log"
      ranges := .standard }
    let files : FileTree := ⟨[(["logs"], .directory), (["data"], .directory),
      (["client_packet_latency_log.csv", "data"], .file (Text.encode
        "udp_arrival_to_queue_ns,queue_duration_ns,worker_processing_ns\n1500,250,-40\n".toList)),
      (["client_tcp_response_latency_log.csv", "data"], .file (Text.encode
        "target_parsed_to_tcp_sent_ns\n-7\n".toList))], []⟩
    let start (clock : Nat → Nat) := Session.ofFiles files clock "2026-01-02 03:04:05" (.ok ())
    let logged := Session.run (report "data" env) (start fun looks => 2000000 * looks * looks)
    let unlogged := Session.run (report "data" (Function.update env .reportLog none))
      (start fun _ => 0)
    let loaded (first second : String) :=
      ["Loaded 1 rows from data/client_packet_latency_log.csv (" ++ first ++ "s)",
        "Loaded 1 rows from data/client_tcp_response_latency_log.csv (" ++ second ++ "s)"]
    let saved := ["Normalized data saved: out_packet_latency.csv",
      "Normalized data saved: out_tcp_response_latency.csv"]
    ReportSettings.ofEnvironment "data" env = .ok c ∧ files.HasParent "logs/report.log" ∧
      (∀ p ∈ c.inputPaths ++ c.exportPaths,
        files.placeOf "logs/report.log" ≠ files.placeOf p ∧
          files.placeOf "logs/report.log" ∉ files.wayOf p) ∧
      logged.1 = 0 ∧ unlogged.1 = 0 ∧
      (∀ k : LogKind, logged.2.files.node? [k.exportPath "out"]
        = unlogged.2.files.node? [k.exportPath "out"]) ∧
      ∃ text, c.build files = .ok text ∧
        logged.2.files.file? ["report.log", "logs"] = some (Text.encode
          (lines ("# latency report generated at 2026-01-02 03:04:05" ::
            (loaded "0.002" "0.010" ++ text :: saved))).toList) ∧
        logged.2.printed = "Writing report log to 'logs/report.log'\n" ++
          lines (loaded "0.002" "0.010" ++ text :: saved) ∧
        logged.2.errors = "" ∧
        unlogged.2.printed = lines (loaded "0.000" "0.000" ++ text :: saved) := by
  intro env c files start logged unlogged loaded saved
  have hc : ReportSettings.ofEnvironment "data" env = .ok c := rfl
  have hparent : files.HasParent "logs/report.log" := .inr (by decide +kernel)
  have hclear : ∀ p ∈ c.inputPaths ++ c.exportPaths,
      files.placeOf "logs/report.log" ≠ files.placeOf p ∧
        files.placeOf "logs/report.log" ∉ files.wayOf p := by decide +kernel
  let clock (looks : Nat) := 2000000 * looks * looks
  obtain ⟨hcopy, hstatus, hsame, -, hprinted', -⟩ := report_log_faithful "data" env files clock
    (fun _ => 0) "2026-01-02 03:04:05" "2026-01-02 03:04:05" (.ok ()) (.ok ()) hc rfl hparent hclear
  obtain ⟨hlog, hprinted, herrors⟩ := hcopy ["report.log", "logs"] (by decide +kernel)
  have hexported : (c.responseExport files).toOption.isSome = true := by decide +kernel
  cases hr : c.responseExport files with
  | error failure =>
    rw [hr] at hexported
    cases hexported
  | ok tree =>
    obtain ⟨text, hb, hreport⟩ := ReportSettings.reportMessages_of_ok hr
    have hsaved : (c.exportPaths.map Message.saved).map Message.text = saved := by decide +kernel
    have hnotice : notice "logs/report.log" = "Writing report log to 'logs/report.log'\n" := by
      decide +kernel
    have hheader : header "2026-01-02 03:04:05"
        = "# latency report generated at 2026-01-02 03:04:05" := by decide +kernel
    have hloaded : (c.loadMessages files (start clock).took).map Message.text
        = loaded "0.002" "0.010" := by decide +kernel
    have hloaded' : (c.loadMessages files (start fun _ => 0).took).map Message.text
        = loaded "0.000" "0.000" := by decide +kernel
    have hmessages : ∀ took, (c.messages files took).map Message.text
        = (c.loadMessages files took).map Message.text ++ text :: saved := by
      intro took
      rw [ReportSettings.messages, List.map_append, hreport, List.map_cons, hsaved]
      rfl
    rw [hmessages, hloaded, ReportSettings.complaints_of_ok hr, List.map_nil, List.append_nil,
      hheader] at hlog
    rw [hmessages, hloaded, hnotice] at hprinted
    rw [hmessages, hloaded'] at hprinted'
    rw [ReportSettings.complaints_of_ok hr] at herrors
    have hzero : logged.1 = 0 := by decide +kernel
    exact ⟨hc, hparent, hclear, hzero, hstatus.symm.trans hzero,
      fun k => hsame _ (by cases k <;> decide +kernel), text, hb, hlog, hprinted, herrors,
      hprinted'⟩

end Command

end LatencyDigest
