import LatencyDigest.Command.Basic
import LatencyDigest.Proofs.Files.Frame
import LatencyDigest.Proofs.Text.Utf8
import LatencyDigest.Session

/-! What a program that runs in a session says, and where. The files are seen as a tree beside the
log, which holds a copy of all that was said since it was opened. -/

namespace LatencyDigest

namespace Journal

/-- Messages as they are printed: each ends its line. -/
def lines : List String → String
  | [] => ""
  | message :: r => message ++ "\n" ++ lines r

@[simp] theorem lines_nil : lines [] = "" := rfl

theorem lines_singleton (message : String) : lines [message] = message ++ "\n" :=
  String.append_empty

theorem lines_append (told more : List String) :
    lines (told ++ more) = lines told ++ lines more := by
  induction told with
  | nil => exact String.empty_append.symm
  | cons message r ih => simp only [List.cons_append, lines, ih, String.append_assoc]

/-- A log: the place of its file, and what the file holds. -/
structure Copy where
  place : Place
  content : List UInt8

def Copy.add (told : List String) (copy : Copy) : Copy :=
  { copy with content := copy.content ++ Text.encode (lines told).toList }

theorem Copy.add_nil (copy : Copy) : copy.add [] = copy := by simp [add]

theorem Copy.add_append (copy : Copy) (told more : List String) :
    copy.add (told ++ more) = (copy.add told).add more := by
  simp [add, lines_append, String.toList_append]

/-- A log that is written on stays at its place. -/
theorem Copy.forall_add {log : Option Copy} {told : List String} {P : Place → Prop}
    (h : ∀ copy ∈ log, P copy.place) : ∀ copy ∈ log.map (add told), P copy.place := by
  intro copy hcopy
  obtain ⟨copy, hm, rfl⟩ := Option.map_eq_some_iff.1 hcopy
  exact h copy hm

end Journal

open Journal

namespace Session

variable {α β : Type} {s s' : Session} {t u v : FileTree} {log : Option Copy}
  {told more : List String} {path : String}

def run (program : StateM Session α) (s : Session) : α × Session := program s

theorem run_bind (program : StateM Session α) (next : α → StateM Session β) (s : Session) :
    run (program >>= next) s = run (next (run program s).1) (run program s).2 := rfl

/-- What a program that may fail comes to, and the session after it. -/
def attempt (program : ExceptT Failure (StateM Session) α) (s : Session) :
    Except Failure α × Session := program s

section
variable {program : ExceptT Failure (StateM Session) α}
  {next : α → ExceptT Failure (StateM Session) β}

theorem attempt_bind_of_ok {x : α} (h : attempt program s = (.ok x, s')) :
    attempt (program >>= next) s = attempt (next x) s' := by
  change ExceptT.bindCont next (attempt program s).1 (attempt program s).2 = _
  rw [h]
  rfl

theorem attempt_bind_of_error {failure : Failure}
    (h : attempt program s = (.error failure, s')) :
    attempt (program >>= next) s = (.error failure, s') := by
  change ExceptT.bindCont next (attempt program s).1 (attempt program s).2 = _
  rw [h]
  rfl

end

theorem attempt_stage (result : Except Failure α) (s : Session) :
    attempt (Command.stage result) s = (result, s) := rfl

/-- The session shows the tree beside its log, if one is open. A log is written on at its end. -/
inductive Shows (s : Session) (t : FileTree) : Option Copy → Prop where
  | unlogged (log_eq : s.log = none) (files_eq : s.files = t) : Shows s t none
  | logged {copy : Copy} (log_eq : s.log = some ⟨copy.place, copy.content.length⟩)
      (node?_eq : s.files.node? copy.place = some (.file copy.content))
      (sameBut : FileTree.SameBut copy.place t s.files) : Shows s t (some copy)

namespace Shows

theorem read_eq (h : s.Shows t log) (hc : ∀ copy ∈ log, t.Clear copy.place path) :
    s.files.read path = t.read path := by
  cases h with
  | unlogged _ files_eq => rw [files_eq]
  | logged _ _ sameBut => exact sameBut.read_eq (hc _ rfl)

theorem congr (h : s.Shows t log) (hlog : s'.log = s.log) (hfiles : s'.files = s.files) :
    s'.Shows t log := by
  cases h with
  | unlogged log_eq files_eq => exact .unlogged (hlog.trans log_eq) (hfiles.trans files_eq)
  | logged log_eq node?_eq sameBut =>
    exact .logged (hlog.trans log_eq) (hfiles ▸ node?_eq) (hfiles ▸ sameBut)

theorem here_eq (h : s.Shows t log) : s.files.here = t.here := by
  cases h with
  | unlogged _ files_eq => rw [files_eq]
  | logged _ _ sameBut => exact sameBut.here_eq

theorem node?_eq (h : s.Shows t log) {p : Place} (hp : ∀ copy ∈ log, p ≠ copy.place) :
    s.files.node? p = t.node? p := by
  cases h with
  | unlogged _ files_eq => rw [files_eq]
  | logged _ _ sameBut => exact sameBut.node?_eq p (hp _ rfl)

theorem node?_place {copy : Copy} (h : s.Shows t (some copy)) :
    s.files.node? copy.place = some (.file copy.content) := by
  cases h
  assumption

theorem frame (h : s.Shows t log) {places : List Place}
    (hlog : ∀ copy ∈ log, copy.place ∈ places) : FileTree.Frame places t s.files := by
  refine ⟨h.here_eq, fun p hp => ?_⟩
  have hnode : s.files.node? p = t.node? p :=
    h.node?_eq fun copy hcopy he => hp (he ▸ hlog copy hcopy)
  rw [FileTree.file?, FileTree.file?, hnode]

/-- A path that leads elsewhere keeps clear of a log that is open. -/
theorem clear (h : s.Shows s.files log) (hp : ∀ copy ∈ log, s.files.placeOf path ≠ copy.place) :
    ∀ copy ∈ log, s.files.Clear copy.place path := by
  intro copy hcopy
  cases h with
  | unlogged => cases hcopy
  | logged _ node?_eq _ =>
    cases hcopy
    exact ⟨hp _ rfl, fun _ => ⟨_, node?_eq⟩⟩

theorem writeLog (h : s.Shows t log) (message : String) :
    (s.writeLog (message ++ "\n")).Shows t (log.map (Copy.add [message])) := by
  cases h with
  | unlogged log_eq files_eq =>
    rw [Session.writeLog, log_eq]
    exact .unlogged log_eq files_eq
  | @logged copy log_eq node?_eq sameBut =>
    have hadd : copy.content ++ Text.encode (message ++ "\n").toList
        = (copy.add [message]).content := by rw [Copy.add, lines_singleton]
    rw [Session.writeLog, log_eq]
    refine .logged ?_ ?_ ?_
    · rw [← hadd, List.length_append]
      rfl
    · dsimp only
      rw [FileTree.patch_length node?_eq, hadd]
      exact FileTree.node?_put_self sameBut.ne_nil
    · dsimp only
      rw [FileTree.patch_length node?_eq]
      exact sameBut.put_self _

theorem write (h : s.Shows t log) (hc : ∀ copy ∈ log, t.Clear copy.place path)
    {bytes : List UInt8} (hw : t.write path bytes = .ok u) :
    ∃ files, s.files.write path bytes = .ok files ∧ { s with files }.Shows u log := by
  obtain ⟨place, ht, rfl⟩ := FileTree.write_eq_ok_iff.1 hw
  cases h with
  | unlogged log_eq files_eq =>
    subst files_eq
    exact ⟨_, hw, .unlogged log_eq rfl⟩
  | @logged copy log_eq node?_eq sameBut =>
    have hne : place ≠ copy.place :=
      FileTree.target_eq_placeOf ht ▸ (hc copy rfl).placeOf_ne
    refine ⟨s.files.put place (.file bytes), ?_, .logged log_eq ?_ (sameBut.put _ hne)⟩
    · exact FileTree.write_eq_ok_iff.2 ⟨place, by rw [sameBut.target_eq (hc copy rfl), ht], rfl⟩
    · dsimp only
      rw [FileTree.node?_put_of_ne hne.symm, node?_eq]

theorem write_error (h : s.Shows t log) (hc : ∀ copy ∈ log, t.Clear copy.place path)
    {bytes : List UInt8} {fault : FileFault} (hw : t.write path bytes = .error fault) :
    s.files.write path bytes = .error fault := by
  rw [FileTree.write_eq_error_iff] at hw ⊢
  cases h with
  | unlogged _ files_eq => rw [files_eq, hw]
  | logged _ _ sameBut => rw [sameBut.target_eq (hc _ rfl), hw]

end Shows

/-- From one session to another the messages are printed and copied to the log, and nothing else is
said. The other session shows the tree. -/
structure Tells (s : Session) (log : Option Copy) (told : List String) (s' : Session)
    (u : FileTree) : Prop where
  printed_eq : s'.printed = s.printed ++ lines told
  errors_eq : s'.errors = s.errors
  shows : s'.Shows u (log.map (Copy.add told))
  clock_eq : s'.clock = s.clock

namespace Tells

theorem nothing (h : s'.Shows u log) (hp : s'.printed = s.printed) (he : s'.errors = s.errors)
    (hc : s'.clock = s.clock) : Tells s log [] s' u where
  printed_eq := by rw [hp, lines_nil, String.append_empty]
  errors_eq := he
  shows := by
    have hid : Copy.add [] = id := funext Copy.add_nil
    rwa [hid, Option.map_id]
  clock_eq := hc

theorem trans {s₁ s₂ s₃ : Session} (h : Tells s₁ log told s₂ u)
    (h' : Tells s₂ (log.map (Copy.add told)) more s₃ v) : Tells s₁ log (told ++ more) s₃ v where
  printed_eq := by rw [h'.printed_eq, h.printed_eq, lines_append, String.append_assoc]
  errors_eq := h'.errors_eq.trans h.errors_eq
  shows := by
    have hadd : Copy.add (told ++ more) = Copy.add more ∘ Copy.add told :=
      funext fun copy => copy.add_append told more
    rw [hadd, ← Option.map_map]
    exact h'.shows
  clock_eq := h'.clock_eq.trans h.clock_eq

end Tells

/-- The session after a message. -/
def said (s : Session) (message : String) : Session :=
  { s with printed := s.printed ++ (message ++ "\n") }.writeLog (message ++ "\n")

theorem attempt_say (message : String) (s : Session) :
    attempt (Command.say message) s = (.ok (), s.said message) := rfl

theorem writeLog_printed (s : Session) (text : String) :
    (s.writeLog text).printed = s.printed := by
  rw [writeLog]
  split <;> rfl

theorem writeLog_errors (s : Session) (text : String) : (s.writeLog text).errors = s.errors := by
  rw [writeLog]
  split <;> rfl

theorem writeLog_clock (s : Session) (text : String) : (s.writeLog text).clock = s.clock := by
  rw [writeLog]
  split <;> rfl

theorem writeLog_looks (s : Session) (text : String) : (s.writeLog text).looks = s.looks := by
  rw [writeLog]
  split <;> rfl

theorem tells_said (h : s.Shows t log) (message : String) :
    Tells s log [message] (s.said message) t where
  printed_eq := by rw [said, writeLog_printed, lines_singleton]
  errors_eq := writeLog_errors _ _
  shows := by
    refine Shows.writeLog ?_ message
    exact h.congr rfl rfl
  clock_eq := writeLog_clock _ _

theorem said_looks (s : Session) (message : String) : (s.said message).looks = s.looks :=
  writeLog_looks _ _

/-- The session after a failure is told. -/
def complained (s : Session) (failure : Failure) : Session :=
  { s with errors := s.errors ++ ("Error: " ++ failure.message ++ "\n") }.writeLog
    ("ERROR: " ++ ("Error: " ++ failure.message) ++ "\n")

theorem shows_complained (h : s.Shows t log) (failure : Failure) :
    (s.complained failure).Shows t
      (log.map (Copy.add ["ERROR: " ++ ("Error: " ++ failure.message)])) := by
  refine Shows.writeLog ?_ _
  exact h.congr rfl rfl

end Session

end LatencyDigest
