import LatencyDigest.Command.Report
import LatencyDigest.Proofs.Outcome
import LatencyDigest.Proofs.Session

/-! The stages of the report on a tree of files. Each stage goes on from the one before it, so that
its failure is the first there is; and a run of the program comes to the last of them. -/

namespace LatencyDigest

/-- What is said in a run that goes on: that a log is loaded, the report, and that a table is
saved. -/
inductive Message where
  | loaded (t : Table) (path : String) (nanos : Nat)
  | report (text : String)
  | saved (path : String)
  deriving DecidableEq

def Message.text : Message → String
  | loaded t path nanos => Log.loadedText t path nanos
  | report text => text
  | saved path => "Normalized data saved: " ++ path

/-- The table of a kind, of the two that a report is on. -/
def LogKind.table : LogKind → Table × Table → Table
  | packet, tables => tables.1
  | response, tables => tables.2

namespace ReportSettings

open Command

variable (c : ReportSettings) (t : FileTree)

def inputPaths : List String := [c.packetPath, c.responsePath]

def exportPaths : List String :=
  match c.exportStem with
  | none => []
  | some stem => [LogKind.packet.exportPath stem, LogKind.response.exportPath stem]

/-- The file that the table of a kind is exported to, if it is to be. -/
def exportPath? (k : LogKind) : Option String := c.exportStem.map k.exportPath

/-- All the files that a run has to do with. -/
def paths : List String := c.reportLog.toList ++ c.inputPaths ++ c.exportPaths

def packetLoad : Except Failure Table :=
  Log.ofReading .packet c.packetPath (t.read c.packetPath)

def responseLoad : Except Failure (Table × Table) := do
  let packetLog ← c.packetLoad t
  let responseLog ← Log.ofReading .response c.responsePath (t.read c.responsePath)
  return (packetLog, responseLog)

def normalization : Except Failure (Table × Table) := do
  let (packetLog, responseLog) ← c.responseLoad t
  return (← normalized .packet packetLog, ← normalized .response responseLog)

def build : Except Failure String := do
  let (packets, responses) ← c.normalization t
  reportText packets responses c.ranges

/-- The files once the packets are exported, if they are to be. -/
def packetExport : Except Failure FileTree := do
  let (packets, _) ← c.normalization t
  let _ ← c.build t
  match c.exportStem with
  | none => return t
  | some stem => (t.write (LogKind.packet.exportPath stem) packets.exported).mapError .file

/-- The files once the responses are exported too. -/
def responseExport : Except Failure FileTree := do
  let (_, responses) ← c.normalization t
  let u ← c.packetExport t
  match c.exportStem with
  | none => return u
  | some stem => (u.write (LogKind.response.exportPath stem) responses.exported).mapError .file

/-- The files once the table of a kind is exported. -/
def exportOf : LogKind → Except Failure FileTree
  | .packet => c.packetExport t
  | .response => c.responseExport t

/-- The files that a run leaves, as far as it comes. -/
def exported : FileTree :=
  ((c.responseExport t).toOption <|> (c.packetExport t).toOption).getD t

/-- What a stage says if it succeeds. -/
def onSuccess {α : Type} (stage : Except Failure α) (said : α → List Message) : List Message :=
  match stage with
  | .ok x => said x
  | .error _ => []

theorem mem_onSuccess {α : Type} {stage : Except Failure α} {said : α → List Message}
    {message : Message} :
    message ∈ onSuccess stage said ↔ ∃ x, stage = .ok x ∧ message ∈ said x := by
  cases stage <;> simp [onSuccess]

def loadMessages (took : LogKind → Nat) : List Message :=
  onSuccess (c.packetLoad t) (fun packetLog =>
    [.loaded packetLog c.packetPath (took .packet)]) ++
  onSuccess (c.responseLoad t) (fun logs =>
    [.loaded logs.2 c.responsePath (took .response)])

def reportMessages : List Message :=
  onSuccess (c.build t) (fun text => [.report text]) ++
  onSuccess (c.responseExport t) (fun _ => c.exportPaths.map .saved)

/-- What a run says. It is told how long the loading of each log took. -/
def messages (took : LogKind → Nat) : List Message := c.loadMessages t took ++ c.reportMessages t

def failureOf {α : Type} : Except Failure α → Option Failure
  | .ok _ => none
  | .error failure => some failure

/-- The failure of the first stage that fails. -/
def failure? : Option Failure := failureOf (c.responseExport t)

def complaints : List String :=
  (c.failure? t).toList.map fun failure => "Error: " ++ failure.message

def status : UInt32 := (c.failure? t).elim 0 fun _ => 1

section
variable {c t} {failure : Failure}

theorem responseLoad_eq_error (h : c.packetLoad t = .error failure) :
    c.responseLoad t = .error failure := by
  rw [responseLoad, h]
  rfl

theorem normalization_eq_error (h : c.responseLoad t = .error failure) :
    c.normalization t = .error failure := by
  rw [normalization, h]
  rfl

theorem build_eq_error (h : c.normalization t = .error failure) :
    c.build t = .error failure := by
  rw [build, h]
  rfl

theorem packetExport_eq_error (h : c.build t = .error failure) :
    c.packetExport t = .error failure := by
  cases hn : c.normalization t with
  | error e =>
    obtain rfl : e = failure := by
      rw [build_eq_error hn] at h
      exact Except.error.inj h
    rw [packetExport, hn]
    rfl
  | ok tables =>
    rw [packetExport, hn, h]
    rfl

theorem responseExport_eq_error (h : c.packetExport t = .error failure) :
    c.responseExport t = .error failure := by
  cases hn : c.normalization t with
  | error e =>
    obtain rfl : e = failure := by
      rw [packetExport_eq_error (build_eq_error hn)] at h
      exact Except.error.inj h
    rw [responseExport, hn]
    rfl
  | ok tables =>
    rw [responseExport, hn, h]
    rfl

theorem packetExport_eq {packets responses : Table} {text : String}
    (hn : c.normalization t = .ok (packets, responses)) (hb : c.build t = .ok text) :
    c.packetExport t = match c.exportStem with
      | none => .ok t
      | some stem =>
        (t.write (LogKind.packet.exportPath stem) packets.exported).mapError .file := by
  rw [packetExport, hn, hb]
  rfl

theorem responseExport_eq {packets responses : Table} {u : FileTree}
    (hn : c.normalization t = .ok (packets, responses)) (hp : c.packetExport t = .ok u) :
    c.responseExport t = match c.exportStem with
      | none => .ok u
      | some stem =>
        (u.write (LogKind.response.exportPath stem) responses.exported).mapError .file := by
  rw [responseExport, hn, hp]
  rfl

theorem exported_of_packetExport_error (h : c.packetExport t = .error failure) :
    c.exported t = t := by
  rw [exported, h, responseExport_eq_error h]
  rfl

theorem exported_of_responseExport_error {u : FileTree} (hp : c.packetExport t = .ok u)
    (hr : c.responseExport t = .error failure) : c.exported t = u := by
  rw [exported, hp, hr]
  rfl

theorem exported_of_ok {u : FileTree} (h : c.responseExport t = .ok u) : c.exported t = u := by
  rw [exported, h]
  rfl

theorem failure?_of_ok {u : FileTree} (h : c.responseExport t = .ok u) : c.failure? t = none := by
  rw [failure?, h]
  rfl

theorem failure?_of_error (h : c.responseExport t = .error failure) :
    c.failure? t = some failure := by
  rw [failure?, h]
  rfl

theorem status_eq_zero_iff : c.status t = 0 ↔ ∃ files, c.responseExport t = .ok files := by
  cases hr : c.responseExport t with
  | ok files => simp [status, failure?_of_ok hr]
  | error failure => simp [status, failure?_of_error hr]

theorem status_of_error (h : c.responseExport t = .error failure) : c.status t = 1 := by
  rw [status, failure?_of_error h]
  rfl

theorem complaints_of_ok {u : FileTree} (h : c.responseExport t = .ok u) :
    c.complaints t = [] := by
  rw [complaints, failure?_of_ok h]
  rfl

theorem complaints_of_error (h : c.responseExport t = .error failure) :
    c.complaints t = ["Error: " ++ failure.message] := by
  rw [complaints, failure?_of_error h]
  rfl

/-! No file changes before the report is built, and nothing is said of it. -/

theorem exported_eq_self (h : c.build t = .error failure) : c.exported t = t :=
  exported_of_packetExport_error (packetExport_eq_error h)

theorem reportMessages_eq_nil (h : c.build t = .error failure) : c.reportMessages t = [] := by
  rw [reportMessages, h, responseExport_eq_error (packetExport_eq_error h)]
  rfl

/-! What a run that goes on to its end has come through, and where it has written. -/

theorem exists_of_packetExport {u : FileTree} (h : c.packetExport t = .ok u) :
    ∃ packets responses text, c.normalization t = .ok (packets, responses) ∧
      c.build t = .ok text := by
  cases hb : c.build t with
  | error failure =>
    rw [packetExport_eq_error hb] at h
    cases h
  | ok text =>
    cases hn : c.normalization t with
    | error failure =>
      rw [build_eq_error hn] at hb
      cases hb
    | ok tables => exact ⟨tables.1, tables.2, text, rfl, rfl⟩

theorem exists_of_responseExport {v : FileTree} (h : c.responseExport t = .ok v) :
    ∃ u, c.packetExport t = .ok u := by
  cases hp : c.packetExport t with
  | error failure =>
    rw [responseExport_eq_error hp] at h
    cases h
  | ok u => exact ⟨u, rfl⟩

theorem write_of_packetExport {stem : String} {tables : Table × Table} {u : FileTree}
    (hs : c.exportStem = some stem) (hn : c.normalization t = .ok tables)
    (h : c.packetExport t = .ok u) :
    t.write (LogKind.packet.exportPath stem) tables.1.exported = .ok u := by
  obtain ⟨-, -, text, -, hb⟩ := exists_of_packetExport h
  rw [packetExport_eq hn hb, hs] at h
  exact Outcome.mapError_eq_ok_iff.1 h

theorem write_of_responseExport {stem : String} {tables : Table × Table} {u v : FileTree}
    (hs : c.exportStem = some stem) (hn : c.normalization t = .ok tables)
    (hp : c.packetExport t = .ok u) (h : c.responseExport t = .ok v) :
    u.write (LogKind.response.exportPath stem) tables.2.exported = .ok v := by
  rw [responseExport_eq hn hp, hs] at h
  exact Outcome.mapError_eq_ok_iff.1 h

theorem mem_exportPaths {k : LogKind} {path : String} (h : c.exportPath? k = some path) :
    path ∈ c.exportPaths := by
  obtain ⟨stem, hs, rfl⟩ := Option.map_eq_some_iff.1 h
  rw [exportPaths, hs]
  cases k <;> simp

theorem toList_exportPath?_subset (k : LogKind) : (c.exportPath? k).toList ⊆ c.exportPaths :=
  fun _ hp => mem_exportPaths (Option.mem_toList.1 hp)

theorem frame_packetExport {u : FileTree} (h : c.packetExport t = .ok u) :
    FileTree.Frame ((c.exportPath? .packet).toList.map t.placeOf) t u := by
  obtain ⟨packets, responses, text, hn, hb⟩ := exists_of_packetExport h
  cases hs : c.exportStem with
  | none =>
    rw [packetExport_eq hn hb, hs] at h
    cases h
    exact .refl _ t
  | some stem =>
    exact FileTree.frame_write (write_of_packetExport hs hn h) (by simp [exportPath?, hs])

theorem frame_responseExport {u v : FileTree} (h : c.packetExport t = .ok u)
    (h' : c.responseExport t = .ok v) :
    FileTree.Frame ((c.exportPath? .response).toList.map t.placeOf) u v := by
  obtain ⟨packets, responses, text, hn, hb⟩ := exists_of_packetExport h
  have hplace := FileTree.placeOf_congr (frame_packetExport h).here_eq
  cases hs : c.exportStem with
  | none =>
    rw [responseExport_eq hn h, hs] at h'
    cases h'
    exact .refl _ u
  | some stem =>
    have hwrite := write_of_responseExport hs hn h h'
    exact FileTree.frame_write hwrite (by simp [exportPath?, hs, hplace])

/-- Where the responses are not exported, only the file of the packets may change. -/
theorem frame_exported_of_error (h : c.responseExport t = .error failure) :
    FileTree.Frame ((c.exportPath? .packet).toList.map t.placeOf) t (c.exported t) := by
  cases hp : c.packetExport t with
  | error failure =>
    rw [exported_of_packetExport_error hp]
    exact .refl _ t
  | ok u =>
    rw [exported_of_responseExport_error hp h]
    exact frame_packetExport hp

theorem frame_exported (c : ReportSettings) (t : FileTree) :
    FileTree.Frame (c.exportPaths.map t.placeOf) t (c.exported t) := by
  have hsub : ∀ k, (c.exportPath? k).toList.map t.placeOf ⊆ c.exportPaths.map t.placeOf :=
    fun k => List.map_subset _ (toList_exportPath?_subset k)
  cases hr : c.responseExport t with
  | error failure => exact (frame_exported_of_error hr).mono (hsub _)
  | ok v =>
    obtain ⟨u, hp⟩ := exists_of_responseExport hr
    rw [exported_of_ok hr]
    exact ((frame_packetExport hp).mono (hsub _)).trans ((frame_responseExport hp hr).mono (hsub _))

section
variable {stem : String} {tables : Table × Table} {u v : FileTree}

theorem node?_exported_packet (hs : c.exportStem = some stem)
    (hn : c.normalization t = .ok tables) (hp : c.packetExport t = .ok u)
    (hne : t.placeOf (LogKind.packet.exportPath stem)
      ≠ t.placeOf (LogKind.response.exportPath stem)) :
    (c.exported t).node? (t.placeOf (LogKind.packet.exportPath stem))
      = some (.file tables.1.exported) := by
  have hnode := FileTree.node?_write_self (write_of_packetExport hs hn hp)
  cases hr : c.responseExport t with
  | error failure =>
    rw [exported_of_responseExport_error hp hr]
    exact hnode
  | ok v =>
    have hplace := FileTree.placeOf_congr (frame_packetExport hp).here_eq
    have hwrite := write_of_responseExport hs hn hp hr
    rw [exported_of_ok hr, FileTree.node?_write_of_ne hwrite (by rwa [hplace])]
    exact hnode

theorem node?_exported_response (hs : c.exportStem = some stem)
    (hn : c.normalization t = .ok tables) (hp : c.packetExport t = .ok u)
    (hr : c.responseExport t = .ok v) :
    (c.exported t).node? (t.placeOf (LogKind.response.exportPath stem))
      = some (.file tables.2.exported) := by
  rw [exported_of_ok hr, ← FileTree.placeOf_congr (frame_packetExport hp).here_eq]
  exact FileTree.node?_write_self (write_of_responseExport hs hn hp hr)

end

/-- An export that succeeds leaves its file, whatever comes after it. -/
theorem node?_exported {k : LogKind} {path : String} {files : FileTree}
    (hpath : c.exportPath? k = some path) (hk : c.exportOf t k = .ok files)
    (hnodup : (c.exportPaths.map t.placeOf).Nodup) :
    ∃ tables, c.normalization t = .ok tables ∧
      (c.exported t).node? (t.placeOf path) = some (.file (k.table tables).exported) := by
  obtain ⟨stem, hs, rfl⟩ := Option.map_eq_some_iff.1 hpath
  cases k with
  | packet =>
    obtain ⟨packets, responses, -, hn, -⟩ := exists_of_packetExport hk
    exact ⟨_, hn, node?_exported_packet hs hn hk (by simpa [exportPaths, hs] using hnodup)⟩
  | response =>
    obtain ⟨u, hp⟩ := exists_of_responseExport hk
    obtain ⟨packets, responses, -, hn, -⟩ := exists_of_packetExport hp
    exact ⟨_, hn, node?_exported_response hs hn hp hk⟩

theorem reportMessages_of_ok {u : FileTree} (h : c.responseExport t = .ok u) :
    ∃ text, c.build t = .ok text ∧
      c.reportMessages t = .report text :: c.exportPaths.map .saved := by
  obtain ⟨_, hp⟩ := exists_of_responseExport h
  obtain ⟨-, -, text, -, hb⟩ := exists_of_packetExport hp
  refine ⟨text, hb, ?_⟩
  rw [reportMessages, hb, h]
  rfl

theorem report_mem_messages {took : LogKind → Nat} {text : String} :
    .report text ∈ c.messages t took ↔ c.build t = .ok text := by
  simp [messages, loadMessages, reportMessages, mem_onSuccess]

theorem saved_mem_messages {took : LogKind → Nat} {path : String} :
    .saved path ∈ c.messages t took ↔
      (∃ files, c.responseExport t = .ok files) ∧ path ∈ c.exportPaths := by
  simp [messages, loadMessages, reportMessages, mem_onSuccess]

end

end ReportSettings

end LatencyDigest
