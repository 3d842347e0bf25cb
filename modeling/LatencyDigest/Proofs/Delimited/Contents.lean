import LatencyDigest.Delimited.Reader
import Mathlib.Data.List.Basic

/-! What a text holds without the places of its records: one list of fields for each record. -/

namespace LatencyDigest.Delimited

variable {start : Start} {passed blank : Extent} {s : List UInt8} {done : List Record}

theorem recordsFrom_nil (h : skipLineEnds s = (blank, [])) :
    recordsFrom start passed s done = done.reverse := by
  rw [recordsFrom]
  split
  · rfl
  · next hs =>
    rw [h] at hs
    cases hs

theorem recordsFrom_cons {b : UInt8} {r : List UInt8} (h : skipLineEnds s = (blank, b :: r)) :
    recordsFrom start passed s done =
      recordsFrom (start.next (passed + blank + (scan .start (b :: r)).extent)) .none
        (scan .start (b :: r)).rest
        (⟨start, (scan .start (b :: r)).field :: (scan .start (b :: r)).fields⟩ :: done) := by
  rw [recordsFrom]
  split
  · next hs =>
    rw [h] at hs
    cases hs
  · next hs =>
    rw [h] at hs
    cases hs
    rfl

/-- Induction along the records of a text. -/
@[elab_as_elim]
theorem recordwise {motive : List UInt8 → Prop}
    (none : ∀ s blank, skipLineEnds s = (blank, []) → motive s)
    (record : ∀ s blank b r, skipLineEnds s = (blank, b :: r) →
      motive (scan .start (b :: r)).rest → motive s) (s : List UInt8) : motive s := by
  induction hn : s.length using Nat.strongRecOn generalizing s with
  | ind n ih =>
    cases h : skipLineEnds s with
    | mk blank t =>
      cases t with
      | nil => exact none s blank h
      | cons b r =>
        have hs := skipLineEnds_length s
        have hr := scan_rest_length .start (b :: r)
        simp only [h, List.length_cons] at hs hr
        exact record s blank b r h (ih _ (by omega) _ rfl)

theorem recordsFrom_eq_append (start : Start) (passed : Extent) (s : List UInt8)
    (done : List Record) :
    recordsFrom start passed s done = done.reverse ++ recordsFrom start passed s [] := by
  induction s using recordwise generalizing start passed done with
  | none s blank h => simp [recordsFrom_nil h]
  | record s blank b r h ih =>
    rw [recordsFrom_cons h, recordsFrom_cons h, ih _ _ (_ :: done), ih _ _ [_]]
    simp

/-- Where the records are counted from makes no difference to their fields. -/
theorem map_fields_recordsFrom (start start' : Start) (passed passed' : Extent) (s : List UInt8) :
    (recordsFrom start passed s []).map Record.fields =
      (recordsFrom start' passed' s []).map Record.fields := by
  induction s using recordwise generalizing start start' passed passed' with
  | none s blank h => simp [recordsFrom_nil h]
  | record s blank b r h ih =>
    rw [recordsFrom_cons h, recordsFrom_cons h, recordsFrom_eq_append,
      recordsFrom_eq_append _ _ _ [_], List.map_append, List.map_append, ih]
    rfl

def contents (s : List UInt8) : List (List (List UInt8)) :=
  (recordsFrom ⟨0, 0, 0⟩ .none s []).map Record.fields

@[simp] theorem contents_nil : contents [] = [] := by
  rw [contents, recordsFrom_nil rfl]
  rfl

theorem isLineEnd_iff {b : UInt8} : isLineEnd b ↔ b = newline ∨ b = carriageReturn := by
  simp [isLineEnd]

theorem skipLineEnds_lineEnd {b : UInt8} (h : isLineEnd b) :
    skipLineEnds (b :: s) = ((skipLineEnds s).1.cons b, (skipLineEnds s).2) := by
  rw [skipLineEnds, if_pos h]

theorem skipLineEnds_of_not {b : UInt8} (h : ¬isLineEnd b) :
    skipLineEnds (b :: s) = (.none, b :: s) := by
  rw [skipLineEnds, if_neg h]

theorem contents_lineEnd {b : UInt8} (h : isLineEnd b) : contents (b :: s) = contents s := by
  cases hs : skipLineEnds s with
  | mk blank t =>
    have hb : skipLineEnds (b :: s) = (blank.cons b, t) := by rw [skipLineEnds_lineEnd h, hs]
    cases t with
    | nil => rw [contents, contents, recordsFrom_nil hb, recordsFrom_nil hs]
    | cons c r =>
      rw [contents, contents, recordsFrom_cons hb, recordsFrom_cons hs, recordsFrom_eq_append,
        recordsFrom_eq_append _ _ _ [_], List.map_append, List.map_append,
        map_fields_recordsFrom]

/-- What a scan reads, without the text it takes. -/
def Scan.content (s : Scan) : List (List UInt8) × List UInt8 := (s.field :: s.fields, s.rest)

theorem contents_record {b : UInt8} (h : ¬isLineEnd b) :
    contents (b :: s) =
      (scan .start (b :: s)).content.1 :: contents (scan .start (b :: s)).content.2 := by
  rw [contents, recordsFrom_cons (skipLineEnds_of_not h), recordsFrom_eq_append, List.map_append,
    contents, map_fields_recordsFrom]
  rfl

/-- The text after its byte-order mark, if it has one. -/
def dropMark : List UInt8 → List UInt8
  | 0xEF :: 0xBB :: 0xBF :: s => s
  | s => s

theorem map_fields_records (s : List UInt8) :
    (records s).map Record.fields = contents (dropMark s) := by
  fun_cases dropMark s with
  | case1 s => exact map_fields_recordsFrom _ _ _ _ s
  | case2 s h =>
    rw [records]
    · rfl
    · exact h

end LatencyDigest.Delimited
