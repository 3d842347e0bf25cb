import LatencyDigest.Proofs.Command.Run

/-! What a run of the report comes to: its status, what it prints, and the files that it changes. -/

namespace LatencyDigest.Command

open FileTree Journal

/-- What comes of a run, all of it or nothing. The run goes on from a session in which the log is
open or is not, and its stages are those on the files of that session. -/
structure Verdict (c : ReportSettings) (start begun : Session) (status : UInt32)
    (ended : Session) : Prop where
  starts : Starts start c.reportLog begun
  status_eq_zero_iff : status = 0 ↔ ∃ files, c.responseExport begun.files = .ok files
  errors_of_ok : ∀ files, c.responseExport begun.files = .ok files → ended.errors = begun.errors
  of_error : ∀ failure, c.responseExport begun.files = .error failure →
    status = 1 ∧ ended.errors = begun.errors ++ lines ["Error: " ++ failure.message]
  printed_eq : ended.printed = begun.printed ++
    lines ((c.messages begun.files begun.took).map Message.text)
  report_mem : ∀ text, .report text ∈ c.messages begun.files begun.took ↔
    c.build begun.files = .ok text
  saved_mem : ∀ path, .saved path ∈ c.messages begun.files begun.took ↔
    (∃ files, c.responseExport begun.files = .ok files) ∧ path ∈ c.exportPaths
  /-- Beside the log there is in the end what the stages leave, as far as they come. -/
  node?_eq : ∀ place ∉ c.reportLog.toList.map start.files.placeOf,
    ended.files.node? place = (c.exported begun.files).node? place
  /-- An export that succeeds leaves its file, whatever comes of the next. -/
  file?_of_export : ∀ k path files, c.exportPath? k = some path →
    c.exportOf begun.files k = .ok files →
    ∃ tables, c.normalization begun.files = .ok tables ∧
      ended.files.file? (start.files.placeOf path) = some (k.table tables).exported
  /-- Without a report no file but the log is made or changed. -/
  frame_of_error : ∀ failure, c.build begun.files = .error failure →
    Frame (c.reportLog.toList.map start.files.placeOf) start.files ended.files
  /-- Nor is one where the packets cannot be exported, and the responses are not come to. -/
  frame_of_packetExport : ∀ failure, c.packetExport begun.files = .error failure →
    c.responseExport begun.files = .error failure ∧
      Frame (c.reportLog.toList.map start.files.placeOf) start.files ended.files
  /-- Where the responses are not exported, it is the file of the packets alone. -/
  frame_of_responseExport : ∀ failure, c.responseExport begun.files = .error failure →
    Frame ((c.reportLog.toList ++ (c.exportPath? .packet).toList).map start.files.placeOf)
      start.files ended.files
  frame : Frame ((c.reportLog.toList ++ c.exportPaths).map start.files.placeOf)
    start.files ended.files

section
variable {c : ReportSettings} {start begun ended : Session} {log : Option Copy} {status : UInt32}

theorem apart_of_nodup {t : FileTree} (hnodup : (c.paths.map t.placeOf).Nodup) :
    (∀ path ∈ c.inputPaths ++ c.exportPaths,
      t.placeOf path ∉ c.reportLog.toList.map t.placeOf) ∧
    (c.exportPaths.map t.placeOf).Nodup := by
  have hexports : (c.exportPaths.map t.placeOf).Nodup := by
    rw [ReportSettings.paths, List.map_append] at hnodup
    exact (List.nodup_append.1 hnodup).2.1
  rw [ReportSettings.paths, List.append_assoc, List.map_append, List.nodup_append] at hnodup
  obtain ⟨-, -, hapart⟩ := hnodup
  exact ⟨fun path hpath hm => hapart _ hm _ (List.mem_map_of_mem hpath) rfl, hexports⟩

/-- The files of a run keep clear of its log if all of them have places of their own. -/
theorem clear_of_apart (hshows : begun.Shows begun.files log)
    (hlog : ∀ copy ∈ log, copy.place ∈ c.reportLog.toList.map start.files.placeOf)
    (hplace : ∀ path, begun.files.placeOf path = start.files.placeOf path)
    (hapart : ∀ path ∈ c.inputPaths ++ c.exportPaths,
      start.files.placeOf path ∉ c.reportLog.toList.map start.files.placeOf) :
    ∀ path ∈ c.inputPaths ++ c.exportPaths, ∀ copy ∈ log, begun.files.Clear copy.place path := by
  intro path hpath
  refine hshows.clear fun copy hcopy he => ?_
  rw [hplace] at he
  exact hapart path hpath (he ▸ hlog copy hcopy)

theorem verdict_of_ends (hbegun : Starts start c.reportLog begun)
    (hlog : ∀ copy ∈ log, copy.place ∈ c.reportLog.toList.map start.files.placeOf)
    (hstart : Frame (c.reportLog.toList.map start.files.placeOf) start.files begun.files)
    (hnodup : (c.paths.map start.files.placeOf).Nodup)
    (hends : Session.Ends c begun begun.files log status ended) :
    Verdict c start begun status ended := by
  have hplace : begun.files.placeOf = start.files.placeOf := funext (placeOf_congr hstart.here_eq)
  obtain ⟨hapart, hexports⟩ := apart_of_nodup hnodup
  have hcopy : ∀ copy ∈ log.map (Copy.add ((c.messages begun.files begun.took).map Message.text ++
      (c.complaints begun.files).map ("ERROR: " ++ ·))),
      copy.place ∈ c.reportLog.toList.map start.files.placeOf :=
    Copy.forall_add (P := (· ∈ c.reportLog.toList.map start.files.placeOf)) hlog
  have hframe := hends.shows.frame hcopy
  -- The log changes before the exports, and again after them.
  have hjoin : ∀ paths : List String,
      Frame (paths.map begun.files.placeOf) begun.files (c.exported begun.files) →
      Frame ((c.reportLog.toList ++ paths).map start.files.placeOf) start.files ended.files := by
    intro paths hpaths
    rw [hplace] at hpaths
    rw [List.map_append]
    exact hstart.trans_trans hpaths hframe
  have hunexported : ∀ failure, c.packetExport begun.files = .error failure →
      Frame (c.reportLog.toList.map start.files.placeOf) start.files ended.files := by
    intro failure hp
    rw [ReportSettings.exported_of_packetExport_error hp] at hframe
    exact hstart.trans hframe
  exact {
    starts := hbegun
    status_eq_zero_iff := by
      rw [hends.status_eq]
      exact ReportSettings.status_eq_zero_iff
    errors_of_ok u hr := by
      rw [hends.errors_eq, ReportSettings.complaints_of_ok hr, lines_nil, String.append_empty]
    of_error failure hr := by
      refine ⟨hends.status_eq.trans (ReportSettings.status_of_error hr), ?_⟩
      rw [hends.errors_eq, ReportSettings.complaints_of_error hr]
    printed_eq := hends.printed_eq
    report_mem _ := ReportSettings.report_mem_messages
    saved_mem _ := ReportSettings.saved_mem_messages
    node?_eq place hp := hends.shows.node?_eq fun copy hm he => hp (he ▸ hcopy copy hm)
    file?_of_export k path files hpath hk := by
      obtain ⟨tables, hn, hnode⟩ := ReportSettings.node?_exported hpath hk (hplace ▸ hexports)
      have hout := hapart path (List.mem_append_right _ (ReportSettings.mem_exportPaths hpath))
      rw [hplace] at hnode
      exact ⟨tables, hn, (hframe.file?_eq _ hout).trans (file?_of_node? hnode)⟩
    frame_of_error failure hb := hunexported failure (ReportSettings.packetExport_eq_error hb)
    frame_of_packetExport failure hp :=
      ⟨ReportSettings.responseExport_eq_error hp, hunexported failure hp⟩
    frame_of_responseExport failure hr := hjoin _ (ReportSettings.frame_exported_of_error hr)
    frame := hjoin _ (ReportSettings.frame_exported c begun.files) }

end

theorem report_all_or_nothing (programDirectory : String) (env : Environment) (files : FileTree)
    (clock : Nat → Nat) (calendar : String) (canvas : Except String Unit) :
    let start := Session.ofFiles files clock calendar canvas
    let out := Session.run (report programDirectory env) start
    (∀ failure, ReportSettings.ofEnvironment programDirectory env = .error failure →
      out = (1, { start with errors := lines ["Error: " ++ failure.message] })) ∧
    ∀ c, ReportSettings.ofEnvironment programDirectory env = .ok c →
      (c.paths.map files.placeOf).Nodup →
        Verdict c start (begun c.reportLog start) out.1 out.2 := by
  intro start out
  constructor
  · intro failure hc
    have hout : out = (1, start.complained failure) := run_report_of_error hc start
    rw [hout, lines_singleton, ← String.empty_append (s := "Error: " ++ failure.message ++ "\n")]
    rfl
  · intro c hc hnodup
    have hbegun := starts_begun c.reportLog start
    have hrun := run_report_of_ok hc start
    generalize begun c.reportLog start = begun at hbegun hrun ⊢
    obtain ⟨log, hshows, hlog, hstart⟩ := hbegun.shows rfl
    have hplace := placeOf_congr hstart.here_eq
    have hclear := clear_of_apart hshows hlog hplace (apart_of_nodup hnodup).1
    have hends := Session.ends_reportStages hshows hclear
    rw [← hrun] at hends
    exact verdict_of_ends hbegun hlog hstart hnodup hends

/-- A run that saves both tables, and one in which a directory stands where the packets are to be
saved. -/
theorem report_all_or_nothing_saved :
    let env : Environment := fun v =>
      match v with
      | .directory => some "data"
      | .exportStem => some "out"
      | .reportLog => some "report.log"
      | _ => none
    let c : ReportSettings := {
      directory := "data"
      packetLog := LogKind.packet.fileName
      responseLog := LogKind.response.fileName
      exportStem := some "out"
      reportLog := some "report.log"
      ranges := .standard }
    let files : FileTree := ⟨[(["data"], .directory),
      (["client_packet_latency_log.csv", "data"], .file (Text.encode
        "queue_duration_ns,udp_arrival_to_queue_ns,worker_processing_ns\n250,-1500,7\n".toList)),
      (["client_tcp_response_latency_log.csv", "data"], .file (Text.encode
        "target_parsed_to_tcp_sent_ns\n2000\n".toList))], []⟩
    let blocked := files.put ["out_packet_latency.csv"] .directory
    let start tree := Session.ofFiles tree (fun looks => looks) "2026-01-02 03:04:05" (.ok ())
    let out tree := Session.run (report "bin" env) (start tree)
    let saved := (out files).2.files
    ReportSettings.ofEnvironment "bin" env = .ok c ∧
      (∀ tree ∈ [files, blocked], (c.paths.map tree.placeOf).Nodup ∧
        Verdict c (start tree) (begun c.reportLog (start tree)) (out tree).1 (out tree).2) ∧
      ((out files).1 = 0 ∧ (out files).2.errors = "" ∧
        saved.file? ["out_packet_latency.csv"] = some (Text.encode
          ("udp_arrival_to_queue_ns,queue_duration_ns,worker_processing_ns," ++
            "udp_arrival_to_queue_us,queue_duration_us,worker_processing_us\n" ++
            "-1500,250,7,-1.5,0.25,0.007\n").toList) ∧
        saved.file? ["out_tcp_response_latency.csv"] = some (Text.encode
          "target_parsed_to_tcp_sent_ns,target_parsed_to_tcp_sent_us\n2000,2\n".toList)) ∧
      ((out blocked).1 = 1 ∧
        (out blocked).2.errors = "Error: IO error: Is a directory (os error 21)\n" ∧
        (out blocked).2.files.node? ["out_tcp_response_latency.csv"] = none) := by
  intro env c files blocked start out saved
  have hc : ReportSettings.ofEnvironment "bin" env = .ok c := rfl
  have hall tree := (report_all_or_nothing "bin" env tree (fun looks => looks)
    "2026-01-02 03:04:05" (.ok ())).2 c hc
  have hnodup : ∀ tree ∈ [files, blocked], (c.paths.map tree.placeOf).Nodup := by decide +kernel
  exact ⟨hc, fun tree htree => ⟨hnodup tree htree, hall tree (hnodup tree htree)⟩,
    by decide +kernel, by decide +kernel⟩

end LatencyDigest.Command
