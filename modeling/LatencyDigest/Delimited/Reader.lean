import LatencyDigest.Delimited.Basic

/-!
Reading records. A line feed, a carriage return or both end a record, and lines with nothing on them
are no records. The line feed after a carriage return is left to the record that follows, which so
begins before it.
-/

namespace LatencyDigest.Delimited

/-- Where in a field the reader is: at its start, in plain text, within quotes, or after a quote
that may be the last. -/
inductive Mode where
  | start
  | plain
  | quoted
  | afterQuote
  deriving DecidableEq

/-- What a record has from some point on: the rest of the field there, the fields after it, how much
text they take with the line end, and what follows. -/
structure Scan where
  field : List UInt8
  fields : List (List UInt8)
  extent : Extent
  rest : List UInt8
  deriving DecidableEq

namespace Scan

/-- The same with one more byte of text before it, which is no part of a field. -/
def skip (b : UInt8) (s : Scan) : Scan := { s with extent := s.extent.cons b }

/-- The same with one more byte of the field before it. -/
def keep (b : UInt8) (s : Scan) : Scan := { s.skip b with field := b :: s.field }

/-- The same with a field before it that ends here. -/
def close (b : UInt8) (s : Scan) : Scan :=
  { s.skip b with field := [], fields := s.field :: s.fields }

end Scan

def scan : Mode → List UInt8 → Scan
  | _, [] => ⟨[], [], .none, []⟩
  | .quoted, b :: r => if b = quote then (scan .afterQuote r).skip b else (scan .quoted r).keep b
  | .start, b :: r =>
    if b = quote then (scan .quoted r).skip b
    else if b = comma then (scan .start r).close b
    else if isLineEnd b then ⟨[], [], Extent.none.cons b, r⟩
    else (scan .plain r).keep b
  | .afterQuote, b :: r =>
    if b = quote then (scan .quoted r).keep b
    else if b = comma then (scan .start r).close b
    else if isLineEnd b then ⟨[], [], Extent.none.cons b, r⟩
    else (scan .plain r).keep b
  | .plain, b :: r =>
    if b = comma then (scan .start r).close b
    else if isLineEnd b then ⟨[], [], Extent.none.cons b, r⟩
    else (scan .plain r).keep b

theorem scan_rest_length (m : Mode) (s : List UInt8) : (scan m s).rest.length ≤ s.length - 1 := by
  fun_induction scan m s <;>
    simp only [Scan.skip, Scan.keep, Scan.close, List.length_cons, List.length_nil] at * <;> omega

/-- The line ends before the next record, and the text after them. -/
def skipLineEnds : List UInt8 → Extent × List UInt8
  | [] => (.none, [])
  | b :: r =>
    if isLineEnd b then
      let (e, rest) := skipLineEnds r
      (e.cons b, rest)
    else (.none, b :: r)

theorem skipLineEnds_length (s : List UInt8) : (skipLineEnds s).2.length ≤ s.length := by
  fun_induction skipLineEnds s with
  | case1 => simp
  | case2 b r h e rest hr ih => simp_all; omega
  | case3 => simp

/-- The records from a place on, put after those already read. Of the text before `s`, `passed`
belongs to the record that comes first. -/
def recordsFrom (start : Start) (passed : Extent) (s : List UInt8) (done : List Record) :
    List Record :=
  match h : skipLineEnds s with
  | (_, []) => done.reverse
  | (blank, b :: r) =>
    let one := scan .start (b :: r)
    have : (scan .start (b :: r)).rest.length < s.length := by
      have hs := skipLineEnds_length s
      have hr := scan_rest_length .start (b :: r)
      simp only [h, List.length_cons] at hs hr
      omega
    recordsFrom (start.next (passed + blank + one.extent)) .none one.rest
      (⟨start, one.field :: one.fields⟩ :: done)
termination_by s.length

/-- The records of a text. A byte-order mark in front is no part of the first field. -/
def records : List UInt8 → List Record
  | 0xEF :: 0xBB :: 0xBF :: s => recordsFrom ⟨0, 0, 0⟩ ⟨3, 0⟩ s []
  | s => recordsFrom ⟨0, 0, 0⟩ .none s []

end LatencyDigest.Delimited
