import LatencyDigest.Host
import LatencyDigest.Text.Utf8

/-!
A run of a program that touches nothing but values: its files are a tree, and what it prints is
kept.
-/

namespace LatencyDigest

/-- A file that is open for writing, and the offset at which the next write begins. -/
structure OpenFile where
  place : Place
  offset : Nat
  deriving DecidableEq

structure Session where
  files : FileTree
  printed : String
  errors : String
  log : Option OpenFile
  /-- The time at each look at the clock. -/
  clock : Nat → Nat
  looks : Nat
  calendar : String
  /-- What comes of drawing. -/
  canvas : Except String Unit
  /-- The charts that were to be drawn, each with the name of its file. -/
  charts : List (Chart × String)

namespace Session

def ofFiles (files : FileTree) (clock : Nat → Nat) (calendar : String)
    (canvas : Except String Unit) : Session where
  files
  printed := ""
  errors := ""
  log := none
  clock
  looks := 0
  calendar
  canvas
  charts := []

/-- The files after a change of them, unless it fails. -/
def changed (s : Session) : Except FileFault FileTree → Except FileFault Unit × Session
  | .ok files => (.ok (), { s with files })
  | .error fault => (.error fault, s)

def openLog (s : Session) (path : String) : Except FileFault Unit × Session :=
  match s.files.target path with
  | .ok place => (.ok (), { s with files := s.files.put place (.file []), log := some ⟨place, 0⟩ })
  | .error fault => (.error fault, s)

def writeLog (s : Session) (text : String) : Session :=
  match s.log with
  | none => s
  | some log =>
    let bytes := Text.encode text.toList
    { s with
      files := s.files.patch log.place log.offset bytes
      log := some { log with offset := log.offset + bytes.length } }

instance : Host (StateM Session) where
  print text s := ((), { s with printed := s.printed ++ text })
  printError text s := ((), { s with errors := s.errors ++ text })
  now s := (s.clock s.looks, { s with looks := s.looks + 1 })
  localTime s := (s.calendar, s)
  present path s := (s.files.present path, s)
  isDirectory path s := (s.files.isDirectory path, s)
  makeDirectory path s := s.changed (s.files.makeDirectory path)
  read path s := (s.files.read path, s)
  write path bytes s := s.changed (s.files.write path bytes)
  openLog path s := s.openLog path
  writeLog text s := (.ok (), s.writeLog text)
  draw chart path s := (s.canvas, { s with charts := s.charts ++ [(chart, path)] })

end Session

end LatencyDigest
