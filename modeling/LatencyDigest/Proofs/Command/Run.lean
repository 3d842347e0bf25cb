import LatencyDigest.Proofs.Command.Stages
import LatencyDigest.Proofs.Journal

/-! A run of the stages in a session: what it comes to is told by the stages on the tree that the
session shows. -/

namespace LatencyDigest

open ReportSettings

namespace Command

variable {m : Type → Type} [Monad m] [Host m]

/-- The stages after the report. -/
def exportStages (c : ReportSettings) (packets responses : Table) : ExceptT Failure m Unit :=
  match c.exportStem with
  | none => return
  | some stem => do
    let paths ← saveTables packets responses stem
    paths.forM fun path => say ("Normalized data saved: " ++ path)

/-- The stages after the logs are loaded. -/
def analysisStages (c : ReportSettings) (packetLog responseLog : Table) :
    ExceptT Failure m Unit := do
  let packets ← stage (normalized .packet packetLog)
  let responses ← stage (normalized .response responseLog)
  say (← stage (reportText packets responses c.ranges))
  exportStages c packets responses

theorem reportStages_eq (c : ReportSettings) : (reportStages c : ExceptT Failure m Unit) = (do
    let packetLog ← Log.load .packet c.packetPath
    let responseLog ← Log.load .response c.responsePath
    analysisStages c packetLog responseLog) := rfl

end Command

open Command Journal

namespace Session

variable {s : Session} {t : FileTree} {log : Option Copy} {path : String} {c : ReportSettings}

section
variable {k : LogKind}

theorem attempt_load (k : LogKind) (path : String) (s : Session) : attempt (Log.load k path) s =
    match Log.ofReading k path (s.files.read path) with
    | .error failure => (.error failure, { s with looks := s.looks + 1 })
    | .ok table => (.ok table, { s with looks := s.looks + 2 }.said
        (Log.loadedText table path (s.clock (s.looks + 1) - s.clock s.looks))) := by
  change (match Log.ofReading k path (s.files.read path) with
    | .error failure => _
    | .ok table => _ : StateM Session (Except Failure Table)) _ = _
  cases Log.ofReading k path (s.files.read path) <;> rfl

theorem attempt_load_of_error (h : s.Shows t log) (hc : ∀ copy ∈ log, t.Clear copy.place path)
    {failure : Failure} (hl : Log.ofReading k path (t.read path) = .error failure) :
    ∃ s', attempt (Log.load k path) s = (.error failure, s') ∧ Tells s log [] s' t := by
  rw [attempt_load, h.read_eq hc, hl]
  exact ⟨_, rfl, .nothing (h.congr rfl rfl) rfl rfl rfl⟩

theorem attempt_load_of_ok (h : s.Shows t log) (hc : ∀ copy ∈ log, t.Clear copy.place path)
    {table : Table} (hl : Log.ofReading k path (t.read path) = .ok table) :
    ∃ s', attempt (Log.load k path) s = (.ok table, s') ∧ s'.looks = s.looks + 2 ∧
      Tells s log [Log.loadedText table path (s.clock (s.looks + 1) - s.clock s.looks)] s' t := by
  rw [attempt_load, h.read_eq hc, hl]
  refine ⟨_, rfl, said_looks _ _, ?_⟩
  have hl : Tells s log [] { s with looks := s.looks + 2 } t :=
    .nothing (h.congr rfl rfl) rfl rfl rfl
  exact hl.trans (tells_said hl.shows _)

end

theorem attempt_save (table : Table) (path : String) (s : Session) :
    attempt (table.save path) s = match s.files.write path table.exported with
      | .error fault => (.error (.file fault), s)
      | .ok files => (.ok (), { s with files }) := by
  change ((s.changed (s.files.write path table.exported)).1.mapError Failure.file,
    (s.changed (s.files.write path table.exported)).2) = _
  cases s.files.write path table.exported <;> rfl

theorem attempt_save_of_error (h : s.Shows t log)
    (hc : ∀ copy ∈ log, t.Clear copy.place path) {table : Table} {fault : FileFault}
    (hw : t.write path table.exported = .error fault) :
    attempt (table.save path) s = (.error (.file fault), s) := by
  rw [attempt_save, h.write_error hc hw]

theorem attempt_save_of_ok (h : s.Shows t log)
    (hc : ∀ copy ∈ log, t.Clear copy.place path) {table : Table} {u : FileTree}
    (hw : t.write path table.exported = .ok u) :
    ∃ s', attempt (table.save path) s = (.ok (), s') ∧ Tells s log [] s' u := by
  obtain ⟨files, hfiles, hu⟩ := h.write hc hw
  refine ⟨_, ?_, .nothing hu rfl rfl rfl⟩
  rw [attempt_save, hfiles]

theorem clear_add {told : List String} (hc : ∀ copy ∈ log, t.Clear copy.place path) :
    ∀ copy ∈ log.map (Copy.add told), t.Clear copy.place path :=
  Copy.forall_add (P := (t.Clear · path)) hc

/-- How long the loading of each log takes. -/
def took (s : Session) : LogKind → Nat
  | .packet => s.clock (s.looks + 1) - s.clock s.looks
  | .response => s.clock (s.looks + 3) - s.clock (s.looks + 2)

section
variable {packets responses : Table} {text : String}

theorem tells_saveTables {stem : String} (h : s.Shows t log)
    (hc : ∀ path ∈ c.exportPaths, ∀ copy ∈ log, t.Clear copy.place path)
    (hs : c.exportStem = some stem) (hn : c.normalization t = .ok (packets, responses))
    (hb : c.build t = .ok text) :
    ∃ s', attempt (saveTables packets responses stem) s
        = ((c.responseExport t).map fun _ => c.exportPaths, s') ∧
      Tells s log [] s' (c.exported t) := by
  have hpaths : c.exportPaths
      = [LogKind.packet.exportPath stem, LogKind.response.exportPath stem] := by
    rw [exportPaths, hs]
  have hp := packetExport_eq hn hb
  simp only [hs] at hp
  rw [hpaths] at hc ⊢
  have hc₁ := hc _ List.mem_cons_self
  have hc₂ := hc _ (List.mem_cons_of_mem _ List.mem_cons_self)
  cases hw₁ : t.write (LogKind.packet.exportPath stem) packets.exported with
  | error fault =>
    rw [hw₁] at hp
    have hr := responseExport_eq_error hp
    rw [hr, exported, hr, hp]
    exact ⟨s, attempt_bind_of_error (attempt_save_of_error h hc₁ hw₁), .nothing h rfl rfl rfl⟩
  | ok u =>
    rw [hw₁] at hp
    have hr := responseExport_eq hn hp
    simp only [hs] at hr
    obtain ⟨s₁, ha₁, ht₁⟩ := attempt_save_of_ok h hc₁ hw₁
    have hcu : ∀ copy ∈ log.map (Copy.add []),
        u.Clear copy.place (LogKind.response.exportPath stem) :=
      clear_add fun copy hm => (hc₂ copy hm).write hw₁ (hc₁ copy hm).placeOf_ne
    cases hw₂ : u.write (LogKind.response.exportPath stem) responses.exported with
    | error fault =>
      rw [hw₂] at hr
      have ha₂ := attempt_save_of_error ht₁.shows hcu hw₂
      rw [hr, exported, hr, hp]
      exact ⟨s₁, (attempt_bind_of_ok ha₁).trans (attempt_bind_of_error ha₂), ht₁⟩
    | ok v =>
      rw [hw₂] at hr
      obtain ⟨s₂, ha₂, ht₂⟩ := attempt_save_of_ok ht₁.shows hcu hw₂
      rw [hr, exported_of_ok hr]
      exact ⟨s₂, (attempt_bind_of_ok ha₁).trans (attempt_bind_of_ok ha₂), ht₁.trans ht₂⟩

/-- The messages that tell of what was saved. -/
theorem tells_saved (h : s.Shows t log) (paths : List String) :
    ∃ s', attempt (paths.forM fun path => say ("Normalized data saved: " ++ path)) s
        = (.ok (), s') ∧
      Tells s log ((paths.map Message.saved).map Message.text) s' t := by
  induction paths generalizing s log with
  | nil => exact ⟨s, rfl, .nothing h rfl rfl rfl⟩
  | cons path paths ih =>
    have hsaid := tells_said h ("Normalized data saved: " ++ path)
    obtain ⟨s', ha, ht⟩ := ih hsaid.shows
    exact ⟨s', (attempt_bind_of_ok (attempt_say _ s)).trans ha, hsaid.trans ht⟩

theorem tells_exportStages (h : s.Shows t log)
    (hc : ∀ path ∈ c.exportPaths, ∀ copy ∈ log, t.Clear copy.place path)
    (hn : c.normalization t = .ok (packets, responses)) (hb : c.build t = .ok text) :
    ∃ s', attempt (exportStages c packets responses) s
        = ((c.responseExport t).map fun _ => (), s') ∧
      Tells s log ((onSuccess (c.responseExport t) fun _ =>
        c.exportPaths.map .saved).map Message.text) s' (c.exported t) := by
  cases hs : c.exportStem with
  | none =>
    have hp : c.packetExport t = .ok t := by rw [packetExport_eq hn hb, hs]
    have hr : c.responseExport t = .ok t := by rw [responseExport_eq hn hp, hs]
    rw [exportStages, hs, hr, exported_of_ok hr]
    refine ⟨s, rfl, ?_⟩
    rw [exportPaths, hs]
    exact .nothing h rfl rfl rfl
  | some stem =>
    obtain ⟨s₁, ha₁, ht₁⟩ := tells_saveTables h hc hs hn hb
    rw [exportStages, hs]
    cases hr : c.responseExport t with
    | error failure =>
      rw [hr] at ha₁
      exact ⟨s₁, attempt_bind_of_error ha₁, ht₁⟩
    | ok u =>
      rw [hr] at ha₁
      obtain ⟨s₂, ha₂, ht₂⟩ := tells_saved ht₁.shows c.exportPaths
      exact ⟨s₂, (attempt_bind_of_ok ha₁).trans ha₂, ht₁.trans ht₂⟩

/-- Where the report cannot be built, the session is left as it is. -/
theorem tells_of_build_error {failure : Failure} (h : s.Shows t log)
    (hb : c.build t = .error failure) :
    (.error failure, s) = ((c.responseExport t).map fun _ => (), s) ∧
      Tells s log ((c.reportMessages t).map Message.text) s (c.exported t) := by
  rw [responseExport_eq_error (packetExport_eq_error hb), reportMessages_eq_nil hb,
    exported_eq_self hb]
  exact ⟨rfl, .nothing h rfl rfl rfl⟩

theorem tells_analysisStages {packetLog responseLog : Table} (h : s.Shows t log)
    (hc : ∀ path ∈ c.exportPaths, ∀ copy ∈ log, t.Clear copy.place path)
    (hl : c.responseLoad t = .ok (packetLog, responseLog)) :
    ∃ s', attempt (analysisStages c packetLog responseLog) s
        = ((c.responseExport t).map fun _ => (), s') ∧
      Tells s log ((c.reportMessages t).map Message.text) s' (c.exported t) := by
  have hnormal : c.normalization t = (do
      return (← normalized .packet packetLog, ← normalized .response responseLog)) := by
    rw [normalization, hl]
    rfl
  rw [analysisStages]
  cases hn₁ : normalized .packet packetLog with
  | error failure =>
    rw [attempt_bind_of_error (attempt_stage _ _)]
    refine ⟨s, tells_of_build_error h (build_eq_error ?_)⟩
    rw [hnormal, hn₁]
    rfl
  | ok packets =>
    rw [attempt_bind_of_ok (attempt_stage _ _)]
    cases hn₂ : normalized .response responseLog with
    | error failure =>
      rw [attempt_bind_of_error (attempt_stage _ _)]
      refine ⟨s, tells_of_build_error h (build_eq_error ?_)⟩
      rw [hnormal, hn₁, hn₂]
      rfl
    | ok responses =>
      have hn : c.normalization t = .ok (packets, responses) := by
        rw [hnormal, hn₁, hn₂]
        rfl
      have hbuild : c.build t = reportText packets responses c.ranges := by
        rw [build, hn]
        rfl
      rw [attempt_bind_of_ok (attempt_stage _ _)]
      cases hb : reportText packets responses c.ranges with
      | error failure =>
        rw [attempt_bind_of_error (attempt_stage _ _)]
        exact ⟨s, tells_of_build_error h (hbuild.trans hb)⟩
      | ok text =>
        rw [attempt_bind_of_ok (attempt_stage _ _), attempt_bind_of_ok (attempt_say _ _)]
        have hsaid := tells_said h text
        obtain ⟨s', ha, ht⟩ := tells_exportStages hsaid.shows
          (fun path hpath => clear_add (hc path hpath)) hn (hbuild.trans hb)
        refine ⟨s', ha, ?_⟩
        rw [reportMessages, hbuild.trans hb, List.map_append]
        exact hsaid.trans ht

/-- A run of the stages comes to what the last of them comes to on the tree of files. -/
theorem tells_reportStages (h : s.Shows t log)
    (hc : ∀ path ∈ c.inputPaths ++ c.exportPaths, ∀ copy ∈ log, t.Clear copy.place path) :
    ∃ s', attempt (reportStages c) s = ((c.responseExport t).map fun _ => (), s') ∧
      Tells s log ((c.messages t s.took).map Message.text) s' (c.exported t) := by
  have hpacket := hc c.packetPath (by simp [inputPaths])
  have hresponse := hc c.responsePath (by simp [inputPaths])
  rw [reportStages_eq, messages, loadMessages, List.map_append]
  cases hp : c.packetLoad t with
  | error failure =>
    obtain ⟨s₁, ha₁, ht₁⟩ := attempt_load_of_error h hpacket hp
    have hl := responseLoad_eq_error hp
    obtain ⟨he, hs⟩ := tells_of_build_error ht₁.shows (build_eq_error (normalization_eq_error hl))
    rw [attempt_bind_of_error ha₁, he, hl]
    exact ⟨s₁, rfl, ht₁.trans hs⟩
  | ok packetLog =>
    obtain ⟨s₁, ha₁, hlooks, ht₁⟩ := attempt_load_of_ok h hpacket hp
    have hload : c.responseLoad t = (Log.ofReading .response c.responsePath
        (t.read c.responsePath)).map fun responseLog => (packetLog, responseLog) := by
      rw [responseLoad, hp]
      rfl
    rw [attempt_bind_of_ok ha₁]
    cases hr : Log.ofReading .response c.responsePath (t.read c.responsePath) with
    | error failure =>
      rw [hr] at hload
      obtain ⟨s₂, ha₂, ht₂⟩ := attempt_load_of_error ht₁.shows (clear_add hresponse) hr
      have hs₂ := ht₁.trans ht₂
      obtain ⟨he, hs⟩ := tells_of_build_error hs₂.shows
        (build_eq_error (normalization_eq_error hload))
      rw [attempt_bind_of_error ha₂, he, hload]
      exact ⟨s₂, rfl, hs₂.trans hs⟩
    | ok responseLog =>
      rw [hr] at hload
      obtain ⟨s₂, ha₂, -, ht₂⟩ := attempt_load_of_ok ht₁.shows (clear_add hresponse) hr
      rw [ht₁.clock_eq, hlooks] at ht₂
      have hs₂ := ht₁.trans ht₂
      obtain ⟨s₃, ha₃, ht₃⟩ := tells_analysisStages hs₂.shows
        (fun path hpath => clear_add (hc path (List.mem_append_right _ hpath))) hload
      rw [attempt_bind_of_ok ha₂, hload]
      exact ⟨s₃, ha₃, hs₂.trans ht₃⟩

end

theorem run_finish_of_ok {stages : ExceptT Failure (StateM Session) Unit} {s s' : Session}
    (h : attempt stages s = (.ok (), s')) : run (finish stages) s = (0, s') := by
  have h : run stages.run s = (.ok (), s') := h
  rw [finish, run_bind, h]
  rfl

theorem run_finish_of_error {stages : ExceptT Failure (StateM Session) Unit} {s s' : Session}
    {failure : Failure} (h : attempt stages s = (.error failure, s')) :
    run (finish stages) s = (1, s'.complained failure) := by
  have h : run stages.run s = (.error failure, s') := h
  rw [finish, run_bind, h]
  rfl

/-- What all of a run comes to that goes on from a session. -/
structure Ends (c : ReportSettings) (s : Session) (t : FileTree) (log : Option Copy)
    (status : UInt32) (s' : Session) : Prop where
  status_eq : status = c.status t
  printed_eq : s'.printed = s.printed ++ lines ((c.messages t s.took).map Message.text)
  errors_eq : s'.errors = s.errors ++ lines (c.complaints t)
  shows : s'.Shows (c.exported t) (log.map (Copy.add
    ((c.messages t s.took).map Message.text ++ (c.complaints t).map ("ERROR: " ++ ·))))

theorem ends_reportStages (h : s.Shows t log)
    (hc : ∀ path ∈ c.inputPaths ++ c.exportPaths, ∀ copy ∈ log, t.Clear copy.place path) :
    Ends c s t log (run (finish (reportStages c)) s).1 (run (finish (reportStages c)) s).2 := by
  obtain ⟨s', ha, ht⟩ := tells_reportStages h hc
  cases hr : c.responseExport t with
  | ok files =>
    rw [hr] at ha
    rw [run_finish_of_ok ha]
    have hcomplaints := complaints_of_ok hr
    refine ⟨(status_eq_zero_iff.2 ⟨files, hr⟩).symm, ht.printed_eq, ?_, ?_⟩
    · rw [hcomplaints, lines_nil, String.append_empty]
      exact ht.errors_eq
    · rw [hcomplaints, List.map_nil, List.append_nil]
      exact ht.shows
  | error failure =>
    rw [hr] at ha
    rw [run_finish_of_error ha]
    have hcomplaints := complaints_of_error hr
    refine ⟨(status_of_error hr).symm, ?_, ?_, ?_⟩
    · rw [← ht.printed_eq]
      exact writeLog_printed _ _
    · rw [hcomplaints, lines_singleton, ← ht.errors_eq]
      exact writeLog_errors _ _
    · have hs := shows_complained ht.shows failure
      rw [Option.map_map] at hs
      rw [hcomplaints, List.map_cons, List.map_nil]
      have hadd : ∀ told more, Copy.add more ∘ Copy.add told = Copy.add (told ++ more) :=
        fun told more => funext fun copy => (copy.add_append told more).symm
      rwa [hadd] at hs

end Session

namespace Command

/-- The session once the log is started, if one is asked for. -/
def begun (reportLog : Option String) (s : Session) : Session :=
  (Session.run (reportLog.forM Journal.start) s).2

theorem starts_begun (reportLog : Option String) (s : Session) :
    Starts s reportLog (begun reportLog s) := by
  cases reportLog with
  | none => exact .unasked
  | some path => exact starts_start path s

section
variable {programDirectory : String} {env : Environment}

theorem run_report_of_error {failure : Failure}
    (h : ReportSettings.ofEnvironment programDirectory env = .error failure) (s : Session) :
    Session.run (report programDirectory env) s = (1, s.complained failure) := by
  rw [report, h]
  rfl

theorem run_report_of_ok {c : ReportSettings}
    (h : ReportSettings.ofEnvironment programDirectory env = .ok c) (s : Session) :
    Session.run (report programDirectory env) s
      = Session.run (finish (reportStages c)) (begun c.reportLog s) := by
  rw [report, h]
  rfl

end

end Command

end LatencyDigest
