import LatencyDigest.Files.Fault
import LatencyDigest.Text.Split

/-!
A tree of directories and files, and where a path leads in it.
-/

namespace LatencyDigest

/-- Names from the innermost outward. The root is the empty list. -/
abbrev Place := List String

inductive Node where
  | directory
  | file (content : List UInt8)
  deriving DecidableEq

structure FileTree where
  nodes : List (Place × Node)
  /-- The directory where relative paths start. -/
  here : Place
  deriving DecidableEq

/-- Where a path leads. A name at the end of it may have slashes after it, and it may be too long
for a name. -/
inductive Spot where
  | directory (place : Place)
  | file (place : Place) (content : List UInt8) (slashed : Bool)
  | vacant (place : Place) (slashed : Bool)
  | overlong (slashed : Bool)
  deriving DecidableEq

/-- What comes of reading a file: that it cannot be opened, that it can be opened but not read, or
what it holds. -/
inductive Reading where
  | notOpened (fault : FileFault)
  | notRead (fault : FileFault)
  | content (bytes : List UInt8)
  deriving DecidableEq

namespace FileTree

def node? (t : FileTree) : Place → Option Node
  | [] => some .directory
  | place => t.nodes.lookup place

def putNode (place : Place) (n : Node) : List (Place × Node) → List (Place × Node)
  | [] => [(place, n)]
  | (p, m) :: r => if p = place then (p, n) :: r else (p, m) :: putNode place n r

def put (t : FileTree) (place : Place) (n : Node) : FileTree :=
  { t with nodes := putNode place n t.nodes }

theorem lookup_putNode (place p : Place) (n : Node) (nodes : List (Place × Node)) :
    (putNode place n nodes).lookup p = if p = place then some n else nodes.lookup p := by
  induction nodes with
  | nil => by_cases h : p = place <;> simp [putNode, List.lookup_cons, beq_eq_false_iff_ne.2, h]
  | cons m r ih =>
    obtain ⟨q, m⟩ := m
    simp only [putNode]
    split
    · next hq =>
      subst hq
      by_cases h : p = q
      · simp [h]
      · simp [List.lookup_cons, beq_eq_false_iff_ne.2 h, h]
    · next hq =>
      simp only [List.lookup_cons, ih]
      by_cases h : p = q
      · simp [h, hq]
      · simp [beq_eq_false_iff_ne.2 h]

theorem node?_put_self {t : FileTree} {place : Place} {n : Node} (h : place ≠ []) :
    (t.put place n).node? place = some n := by
  cases place with
  | nil => exact absurd rfl h
  | cons => simp [node?, put, lookup_putNode]

theorem node?_put_of_ne {t : FileTree} {place p : Place} {n : Node} (h : p ≠ place) :
    (t.put place n).node? p = t.node? p := by
  cases p with
  | nil => rfl
  | cons => simp [node?, put, lookup_putNode, h]

def maxName : Nat := 255

def maxPath : Nat := 4095

/-- Where the names lead from a directory. -/
def follow (t : FileTree) (place : Place) : List String → Except FileFault Spot
  | [] => .ok (.directory place)
  | "" :: r | "." :: r => t.follow place r
  | ".." :: r => t.follow place.tail r
  | name :: r =>
    let last := r.all String.isEmpty
    if maxName < name.utf8ByteSize then
      if last then .ok (.overlong !r.isEmpty) else .error .nameTooLong
    else match t.node? (name :: place) with
      | some .directory => t.follow (name :: place) r
      | some (.file content) =>
        if last then .ok (.file (name :: place) content !r.isEmpty) else .error .notADirectory
      | none => if last then .ok (.vacant (name :: place) !r.isEmpty) else .error .notFound

def resolve (t : FileTree) (path : String) : Except FileFault Spot :=
  let names := (Text.split '/' path.toList).map String.ofList
  if '\x00' ∈ path.toList then .error .nulInName
  else if path = "" then .error .notFound
  else if maxPath < path.utf8ByteSize then .error .nameTooLong
  else t.follow (if names.head? = some "" then [] else t.here) names

def present (t : FileTree) (path : String) : Bool :=
  match t.resolve path with
  | .ok (.directory _) => true
  | .ok (.file _ _ slashed) => !slashed
  | _ => false

def isDirectory (t : FileTree) (path : String) : Bool :=
  match t.resolve path with
  | .ok (.directory _) => true
  | _ => false

def read (t : FileTree) (path : String) : Reading :=
  match t.resolve path with
  | .ok (.file _ content false) => .content content
  | .ok (.file _ _ true) => .notOpened .notADirectory
  | .ok (.directory _) => .notRead .isADirectory
  | .ok (.vacant _ _) => .notOpened .notFound
  | .ok (.overlong _) => .notOpened .nameTooLong
  | .error e => .notOpened e

/-- The place of a file that is to be written. Slashes after its name are those of a directory,
whether the name would do or not. -/
def target (t : FileTree) (path : String) : Except FileFault Place :=
  match t.resolve path with
  | .ok (.file place _ false) | .ok (.vacant place false) => .ok place
  | .ok (.overlong false) => .error .nameTooLong
  | .ok _ => .error .isADirectory
  | .error e => .error e

def write (t : FileTree) (path : String) (bytes : List UInt8) : Except FileFault FileTree := do
  return t.put (← t.target path) (.file bytes)

def makeDirectory (t : FileTree) (path : String) : Except FileFault FileTree :=
  match t.resolve path with
  | .ok (.vacant place _) => .ok (t.put place .directory)
  | .ok (.overlong _) => .error .nameTooLong
  | .ok _ => .error .present
  | .error e => .error e

/-- The bytes written over a content from an offset on. A gap before the offset is filled with
zeros. -/
def overwrite (content : List UInt8) (offset : Nat) (bytes : List UInt8) : List UInt8 :=
  content.take offset ++ List.replicate (offset - content.length) 0 ++ bytes ++
    content.drop (offset + bytes.length)

theorem overwrite_length (content bytes : List UInt8) :
    overwrite content content.length bytes = content ++ bytes := by
  simp [overwrite]

/-- Bytes written into the file at a place, if there is one. -/
def patch (t : FileTree) (place : Place) (offset : Nat) (bytes : List UInt8) : FileTree :=
  match t.node? place with
  | some (.file content) => t.put place (.file (overwrite content offset bytes))
  | _ => t

end FileTree

end LatencyDigest
