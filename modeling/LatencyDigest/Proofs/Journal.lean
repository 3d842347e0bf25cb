import LatencyDigest.Proofs.Session

/-! The start of a log in a session. Directories may come in, and the log is open in the end or it
is not; in either case the program goes on. -/

namespace LatencyDigest

open Journal

namespace Session

variable {s s' s'' : Session} {path : String}

/-- Directories come in, and nothing else is done. -/
structure Grows (s s' : Session) : Prop where
  eq : s' = { s with files := s'.files }
  frame : FileTree.Frame [] s.files s'.files

namespace Grows

theorem refl (s : Session) : Grows s s := ⟨rfl, .refl [] s.files⟩

theorem trans (h : Grows s s') (h' : Grows s' s'') : Grows s s'' where
  eq := by
    rw [h'.eq, h.eq]
  frame := h.frame.trans h'.frame

end Grows

/-- What an attempt to make directories comes to. -/
structure Made (s : Session) (result : Except FileFault Unit) (s' : Session) : Prop where
  grows : Grows s s'
  isKnown : ∀ fault, result = .error fault → fault.IsKnown

theorem Made.after {result : Except FileFault Unit} (h : Made s' result s'') (hs : Grows s s') :
    Made s result s'' := ⟨hs.trans h.grows, h.isKnown⟩

theorem made_makeDirectory (path : String) (s : Session) :
    Made s (run (Host.makeDirectory path) s).1 (run (Host.makeDirectory path) s).2 := by
  change Made s (s.changed (s.files.makeDirectory path)).1
    (s.changed (s.files.makeDirectory path)).2
  cases h : s.files.makeDirectory path with
  | error fault =>
    refine ⟨.refl s, ?_⟩
    rintro _ ⟨⟩
    exact FileTree.isKnown_of_makeDirectory h
  | ok files => exact ⟨⟨rfl, FileTree.frame_makeDirectory h⟩, nofun⟩

theorem made_settled {result : Except FileFault Unit} (h : Made s result s') (path : String) :
    Made s (run (Directories.settled path result) s').1
      (run (Directories.settled path result) s').2 := by
  cases result with
  | ok => exact h
  | error fault =>
    change Made s (if s'.files.isDirectory path then .ok () else .error fault) s'
    split
    · exact ⟨h.grows, nofun⟩
    · exact h

theorem made_make (paths : List String) (s : Session) :
    Made s (run (Directories.make paths) s).1 (run (Directories.make paths) s).2 := by
  induction paths generalizing s with
  | nil => exact ⟨.refl s, nofun⟩
  | cons path outer ih =>
    have h₁ := made_makeDirectory path s
    rw [Directories.make, run_bind]
    split
    · have h₂ := (ih (run (Host.makeDirectory path) s).2).after h₁.grows
      rw [run_bind]
      split
      · next hf =>
        rw [hf] at h₂
        exact h₂
      · exact made_settled ((made_makeDirectory path _).after h₂.grows) path
    · exact made_settled h₁ path

theorem made_makeParent (path : String) (s : Session) :
    Made s (run (Directories.makeParent path) s).1 (run (Directories.makeParent path) s).2 := by
  rw [Directories.makeParent]
  split
  · exact ⟨.refl s, nofun⟩
  · rw [run_bind]
    split
    · exact ⟨.refl s, nofun⟩
    · exact made_make _ s

end Session

namespace FileTree

/-- The directory that a path is in is there. -/
def HasParent (t : FileTree) (path : String) : Prop :=
  (Path.parent? path).getD "." = "" ∨ t.isDirectory ((Path.parent? path).getD ".") = true

theorem present_of_isDirectory {t : FileTree} {path : String} (h : t.isDirectory path = true) :
    t.present path = true := by
  rw [isDirectory] at h
  rw [present]
  split at h
  · next hr => rw [hr]
  · cases h

end FileTree

namespace Journal

def notice (path : String) : String := "Writing report log to '" ++ path ++ "'\n"

def warning (occasion : String) (fault : FileFault) : String :=
  occasion ++ ": " ++ fault.message ++ "\n"

def header (calendar : String) : String := "# latency report generated at " ++ calendar

/-- What becomes of the log in a directory that is there. -/
inductive Opens (s : Session) (path : String) : Session → Prop where
  | closed {fault : FileFault} (target_eq : s.files.target path = .error fault) :
      Opens s path { s with errors := s.errors ++ warning "Cannot open log file" fault }
  | opened {place : Place} (target_eq : s.files.target path = .ok place) :
      Opens s path { s with
        files := s.files.put place (.file (Text.encode (lines [header s.calendar]).toList))
        printed := s.printed ++ notice path
        log := some ⟨place, (Text.encode (lines [header s.calendar]).toList).length⟩ }

section
variable {s begun : Session} {path : String} {place : Place}

theorem Opens.printed_eq_notice (h : Opens s path begun) (ht : s.files.target path = .ok place) :
    begun.printed = s.printed ++ notice path ∧ begun.errors = s.errors := by
  cases h with
  | closed target_eq =>
    rw [ht] at target_eq
    cases target_eq
  | opened => exact ⟨rfl, rfl⟩

theorem Opens.printed_eq {fault : FileFault} (h : Opens s path begun)
    (ht : s.files.target path = .error fault) : begun.printed = s.printed := by
  cases h with
  | closed => rfl
  | opened target_eq =>
    rw [ht] at target_eq
    cases target_eq

end

/-- What becomes of the log that is asked for, if one is. -/
inductive Starts (s : Session) : Option String → Session → Prop where
  | unasked : Starts s none s
  | noDirectory {path : String} {files : FileTree} {fault : FileFault}
      (frame : FileTree.Frame [] s.files files) (known : fault.IsKnown) :
      Starts s (some path) { s with
        files
        errors := s.errors ++ warning "Cannot create log directory" fault }
  | opens {path : String} {files : FileTree} {begun : Session}
      (frame : FileTree.Frame [] s.files files) (opens : Opens { s with files } path begun) :
      Starts s (some path) begun

theorem run_warn (occasion : String) (fault : FileFault) (s : Session) :
    Session.run (warn occasion fault) s
      = ((), { s with errors := s.errors ++ warning occasion fault }) := rfl

/-- The first line of a log that was just opened. -/
theorem writeLog_header {s : Session} {place : Place} (hp : place ≠ []) (line : String) :
    { s with
      files := s.files.put place (.file [])
      log := some ⟨place, 0⟩ }.writeLog (line ++ "\n") =
    { s with
      files := s.files.put place (.file (Text.encode (lines [line]).toList))
      log := some ⟨place, (Text.encode (lines [line]).toList).length⟩ } := by
  have hempty : (s.files.put place (.file [])).node? place = some (.file []) :=
    FileTree.node?_put_self hp
  rw [lines_singleton, Session.writeLog]
  dsimp only
  rw [← List.length_nil, FileTree.patch_length hempty, FileTree.put_put, List.nil_append,
    List.length_nil, Nat.zero_add]

theorem opens_openLog (path : String) (s : Session) :
    Opens s path (Session.run (do
      match ← Host.openLog path with
      | .error fault => warn "Cannot open log file" fault
      | .ok () =>
        Host.print ("Writing report log to '" ++ path ++ "'\n")
        record "Failed to write log header"
          ("# latency report generated at " ++ (← Host.localTime))) s).2 := by
  change Opens s path (Session.run _ (s.openLog path).2).2
  rw [Session.openLog]
  cases ht : s.files.target path with
  | error fault =>
    dsimp only
    rw [run_warn]
    exact .closed ht
  | ok place =>
    let noticed := { s with printed := s.printed ++ notice path }
    change Opens s path ({ noticed with
      files := noticed.files.put place (.file [])
      log := some ⟨place, 0⟩ }.writeLog (header s.calendar ++ "\n"))
    rw [writeLog_header (FileTree.ne_nil_of_target ht)]
    exact .opened ht

theorem starts_start (path : String) (s : Session) :
    Starts s (some path) (Session.run (start path) s).2 := by
  have hmade := Session.made_makeParent path s
  rw [start, Session.run_bind]
  generalize Session.run (Directories.makeParent path) s = made at hmade ⊢
  obtain ⟨result, s'⟩ := made
  obtain ⟨files, hs, hframe⟩ : ∃ files, s' = { s with files } ∧ FileTree.Frame [] s.files files :=
    ⟨s'.files, hmade.grows.eq, hmade.grows.frame⟩
  subst hs
  cases result with
  | error fault => exact .noDirectory hframe (hmade.isKnown fault rfl)
  | ok => exact .opens hframe (opens_openLog path _)

/-- The session in which a log was started, or was not. -/
theorem Starts.shows {s begun : Session} {reportLog : Option String} (h : Starts s reportLog begun)
    (hs : s.log = none) :
    ∃ log : Option Copy, begun.Shows begun.files log ∧
      (∀ copy ∈ log, copy.place ∈ reportLog.toList.map s.files.placeOf) ∧
      FileTree.Frame (reportLog.toList.map s.files.placeOf) s.files begun.files := by
  cases h with
  | unasked => exact ⟨none, .unlogged hs rfl, nofun, .refl _ _⟩
  | noDirectory frame => exact ⟨none, .unlogged hs rfl, nofun, frame.mono (List.nil_subset _)⟩
  | @opens path files _ frame opens =>
    have hplace := FileTree.placeOf_congr frame.here_eq path
    cases opens with
    | closed => exact ⟨none, .unlogged hs rfl, nofun, frame.mono (List.nil_subset _)⟩
    | @opened place target_eq =>
      have hat : place = s.files.placeOf path :=
        hplace ▸ (FileTree.target_eq_placeOf target_eq).symm
      have hnode := FileTree.node?_put_self (t := files)
        (n := .file (Text.encode (lines [header s.calendar]).toList))
        (FileTree.ne_nil_of_target target_eq)
      refine ⟨some ⟨place, _⟩, .logged rfl hnode ⟨rfl, fun _ _ => rfl, _, hnode⟩, ?_, ?_⟩
      · rintro _ ⟨⟩
        simp [hat]
      · exact (frame.mono (List.nil_subset _)).trans (.put files (by simp [hat]) _)

theorem opens_start {path : String} {s : Session} (h : s.files.HasParent path) :
    Opens s path (Session.run (start path) s).2 := by
  have hmade : Session.run (Directories.makeParent path) s = (.ok (), s) := by
    rw [Directories.makeParent]
    split
    · rfl
    · next hne =>
      have hp : Session.run (Host.present ((Path.parent? path).getD ".")) s = (true, s) :=
        Prod.ext (FileTree.present_of_isDirectory (h.resolve_left hne)) rfl
      rw [Session.run_bind, hp]
      rfl
  rw [start, Session.run_bind, hmade]
  exact opens_openLog path s

end Journal

end LatencyDigest
