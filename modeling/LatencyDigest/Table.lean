import LatencyDigest.Binary64.Rounding
import LatencyDigest.Failure

/-!
Tables: named columns of one length, in the order in which their names were first inserted.
-/

namespace LatencyDigest

inductive Series where
  | integers (values : List Int64)
  | floats (values : List Binary64)
  deriving DecidableEq

namespace Series

def length : Series → Nat
  | integers values => values.length
  | floats values => values.length

def toFloats : Series → List Binary64
  | integers values => values.map fun i => Binary64.ofInt i.toInt
  | floats values => values

theorem length_toFloats (s : Series) : s.toFloats.length = s.length := by
  cases s <;> simp [toFloats, length]

end Series

structure Column where
  name : String
  data : Series
  deriving DecidableEq

namespace Column

def find? (name : String) : List Column → Option Series
  | [] => none
  | c :: r => if c.name = name then some c.data else find? name r

/-- The data of the column of that name replaced, or such a column put at the end. -/
def put (name : String) (data : Series) : List Column → List Column
  | [] => [⟨name, data⟩]
  | c :: r => if c.name = name then ⟨name, data⟩ :: r else c :: put name data r

theorem mem_put {name : String} {data : Series} {cs : List Column} {c : Column}
    (h : c ∈ put name data cs) : c = ⟨name, data⟩ ∨ c ∈ cs := by
  induction cs with
  | nil => simpa [put] using h
  | cons d r ih =>
    simp only [put] at h
    split at h
    · simp only [List.mem_cons] at h ⊢
      exact h.imp id .inr
    · simp only [List.mem_cons] at h ⊢
      rcases h with h | h
      · exact .inr (.inl h)
      · rcases ih h with h | h
        · exact .inl h
        · exact .inr (.inr h)

theorem nodup_put {name : String} {data : Series} {cs : List Column}
    (h : (cs.map Column.name).Nodup) : ((put name data cs).map Column.name).Nodup := by
  induction cs with
  | nil => simp [put]
  | cons d r ih =>
    simp only [List.map_cons, List.nodup_cons] at h
    simp only [put]
    split
    · next hd => simpa [← hd] using h
    · next hd =>
      simp only [List.map_cons, List.nodup_cons]
      refine ⟨fun hm => ?_, ih h.2⟩
      obtain ⟨c, hc, hn⟩ := List.mem_map.1 hm
      rcases mem_put hc with rfl | hc
      · exact hd hn.symm
      · exact h.1 (List.mem_map.2 ⟨c, hc, hn⟩)

end Column

structure Table where
  name : String
  rows : Nat
  columns : List Column
  length_eq : ∀ c ∈ columns, c.data.length = rows
  nodup : (columns.map Column.name).Nodup
  deriving DecidableEq

namespace Table

def empty (name : String) (rows : Nat) : Table :=
  ⟨name, rows, [], by simp, by simp⟩

def isEmpty (t : Table) : Bool := t.rows = 0

def columnNames (t : Table) : List String := t.columns.map Column.name

def hasColumn (t : Table) (name : String) : Bool := name ∈ t.columnNames

/-- A column of the right length, put in place of the one of its name or at the end. -/
def insert (t : Table) (name : String) (data : Series) : Except Failure Table :=
  if h : data.length = t.rows then
    .ok {
      t with
      columns := Column.put name data t.columns
      length_eq := fun c hc => by
        rcases Column.mem_put hc with rfl | hc
        · exact h
        · exact t.length_eq c hc
      nodup := Column.nodup_put t.nodup }
  else .error (.columnLength name data.length t.name t.rows)

def column (t : Table) (name : String) : Except Failure Series :=
  match Column.find? name t.columns with
  | some data => .ok data
  | none => .error (.unknownColumn t.name name)

def floats (t : Table) (name : String) : Except Failure (List Binary64) :=
  (t.column name).map Series.toFloats

end Table

end LatencyDigest
