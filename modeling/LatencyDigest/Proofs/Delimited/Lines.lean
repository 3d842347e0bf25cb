import LatencyDigest.Delimited.Writer
import LatencyDigest.Proofs.Delimited.Contents

/-! A text laid out in lines, with any quoting that can be read back, has the contents that it was
laid out from. The writer lays its records out in such lines. -/

namespace LatencyDigest.Delimited

/-- One way to lay out a field: as it is, or in quotes. -/
inductive Written : List UInt8 → List UInt8 → Prop
  | plain : needsQuotes f = false → Written f f
  | quoted : Written f (inQuotes f)

/-- The fields of a record on a line, with commas between. -/
inductive Line : List (List UInt8) → List UInt8 → Prop
  | one : Written f w → Line [f] w
  | cons : Written f w → Line fs l → Line (f :: fs) (w ++ comma :: l)

/-- Lines with something on them, and lines with nothing between them. The last needs no end. -/
inductive Lines : List (List (List UInt8)) → List UInt8 → Prop
  | done : Lines [] []
  | blank : isLineEnd b → Lines rs s → Lines rs (b :: s)
  | line : Line r l → l ≠ [] → isLineEnd b → Lines rs s → Lines (r :: rs) (l ++ b :: s)
  | unended : Line r l → l ≠ [] → Lines [r] l

theorem ne_quote_of_isLineEnd {b : UInt8} (h : isLineEnd b) : b ≠ quote := by
  rcases isLineEnd_iff.1 h with rfl | rfl <;> decide

theorem ne_comma_of_isLineEnd {b : UInt8} (h : isLineEnd b) : b ≠ comma := by
  rcases isLineEnd_iff.1 h with rfl | rfl <;> decide

theorem scan_start_eq_plain {s : List UInt8} (h : s.head? ≠ some quote) :
    scan .start s = scan .plain s := by
  cases s with
  | nil => rfl
  | cons b r =>
    have hb : b ≠ quote := by simpa using h
    rw [scan, scan, if_neg hb]

theorem scan_afterQuote_eq_plain {s : List UInt8} (h : s.head? ≠ some quote) :
    scan .afterQuote s = scan .plain s := by
  cases s with
  | nil => rfl
  | cons b r =>
    have hb : b ≠ quote := by simpa using h
    rw [scan, scan, if_neg hb]

theorem content_skip (b : UInt8) (s : Scan) : (s.skip b).content = s.content := rfl

def prepend (f : List UInt8) : List (List UInt8) × List UInt8 → List (List UInt8) × List UInt8
  | (g :: gs, rest) => ((f ++ g) :: gs, rest)
  | ([], rest) => ([], rest)

theorem content_keep (b : UInt8) (s : Scan) : (s.keep b).content = prepend [b] s.content := rfl

theorem prepend_prepend (f g : List UInt8) (c : List (List UInt8) × List UInt8) :
    prepend f (prepend g c) = prepend (f ++ g) c := by
  rcases c with ⟨_ | ⟨h, hs⟩, rest⟩ <;> simp [prepend]

theorem content_scan_plain {f : List UInt8} (hf : needsQuotes f = false) (t : List UInt8) :
    (scan .plain (f ++ t)).content = prepend f (scan .plain t).content := by
  induction f with
  | nil => rfl
  | cons b f ih =>
    simp only [needsQuotes, List.any_cons, Bool.or_eq_false_iff, decide_eq_false_iff_not] at hf
    rw [List.cons_append, scan, if_neg hf.1.1.1, if_neg (by simp [hf.1.2]), content_keep, ih hf.2,
      prepend_prepend]
    rfl

theorem content_scan_quoted (f t : List UInt8) (ht : t.head? ≠ some quote) :
    (scan .quoted (doubleQuotes f ++ quote :: t)).content = prepend f (scan .plain t).content := by
  induction f with
  | nil =>
    rw [doubleQuotes, List.nil_append, scan, if_pos rfl, content_skip, scan_afterQuote_eq_plain ht]
    rfl
  | cons b f ih =>
    rw [doubleQuotes]
    split
    · next hb =>
      rw [List.cons_append, List.cons_append, scan, if_pos rfl, content_skip, scan, if_pos rfl,
        content_keep, ih, prepend_prepend, hb]
      rfl
    · next hb =>
      rw [List.cons_append, scan, if_neg hb, content_keep, ih, prepend_prepend]
      rfl

theorem content_scan_written {f w : List UInt8} (h : Written f w) {t : List UInt8}
    (ht : t.head? ≠ some quote) :
    (scan .start (w ++ t)).content = prepend f (scan .plain t).content := by
  cases h with
  | plain hf =>
    rw [scan_start_eq_plain, content_scan_plain hf]
    cases f with
    | nil => exact ht
    | cons b f =>
      simp only [needsQuotes, List.any_cons, Bool.or_eq_false_iff, decide_eq_false_iff_not] at hf
      simpa using hf.1.1.2
  | quoted =>
    have hq : inQuotes f ++ t = quote :: (doubleQuotes f ++ quote :: t) := by simp [inQuotes]
    rw [hq, scan, if_pos rfl, content_skip]
    exact content_scan_quoted f t ht

/-- The text after a line: a line end and what follows, or nothing. -/
inductive After : List UInt8 → Prop
  | nothing : After []
  | lineEnd : isLineEnd b → After (b :: s)

theorem After.head_ne_quote {t : List UInt8} (h : After t) : t.head? ≠ some quote := by
  cases h with
  | nothing => simp
  | lineEnd hb => simpa using ne_quote_of_isLineEnd hb

theorem After.content_plain {t : List UInt8} (h : After t) :
    (scan .plain t).content = ([[]], t.tail) := by
  cases h with
  | nothing => rfl
  | lineEnd hb =>
    rw [scan, if_neg (ne_comma_of_isLineEnd hb), if_pos hb]
    rfl

theorem content_scan_line {r : List (List UInt8)} {l t : List UInt8} (h : Line r l) (ht : After t) :
    (scan .start (l ++ t)).content = (r, t.tail) := by
  induction h with
  | one hw =>
    rw [content_scan_written hw ht.head_ne_quote, ht.content_plain]
    simp [prepend]
  | @cons f w fs l hw _ ih =>
    have hq : (comma :: (l ++ t)).head? ≠ some quote := by
      rw [List.head?_cons]
      decide
    rw [List.append_assoc, List.cons_append, content_scan_written hw hq, scan, if_pos rfl]
    change ((f ++ []) :: (scan .start (l ++ t)).content.1, (scan .start (l ++ t)).content.2) = _
    rw [ih, List.append_nil]

theorem Written.head_not_lineEnd {f w : List UInt8} (h : Written f w) :
    ∀ b ∈ w.head?, ¬isLineEnd b := by
  intro b hb
  cases h with
  | plain hf =>
    have hm := List.mem_of_mem_head? hb
    simp only [needsQuotes, List.any_eq_false] at hf
    have := hf b hm
    simp_all
  | quoted =>
    have hb : b = quote := by simpa [inQuotes] using hb.symm
    rw [hb]
    decide

theorem Line.head_not_lineEnd {r : List (List UInt8)} {l : List UInt8} (h : Line r l) :
    ∀ b ∈ l.head?, ¬isLineEnd b := by
  cases h with
  | one hw => exact hw.head_not_lineEnd
  | @cons f w fs l hw _ =>
    cases w with
    | nil =>
      intro b hb
      have hb : b = comma := by simpa using hb.symm
      rw [hb]
      decide
    | cons c w => simpa using hw.head_not_lineEnd

theorem contents_line {r : List (List UInt8)} {l t : List UInt8} (h : Line r l) (hl : l ≠ [])
    (ht : After t) : contents (l ++ t) = r :: contents t.tail := by
  cases l with
  | nil => exact absurd rfl hl
  | cons b l =>
    have hb := h.head_not_lineEnd b rfl
    have hc := content_scan_line h ht
    rw [List.cons_append] at hc ⊢
    rw [contents_record hb, hc]

theorem contents_lines {rs : List (List (List UInt8))} {s : List UInt8} (h : Lines rs s) :
    contents s = rs := by
  induction h with
  | done => exact contents_nil
  | blank hb _ ih => rw [contents_lineEnd hb, ih]
  | line hr hl hb _ ih => rw [contents_line hr hl (.lineEnd hb), List.tail_cons, ih]
  | unended hr hl =>
    have hc := contents_line hr hl .nothing
    rwa [List.append_nil, List.tail_nil, contents_nil] at hc

theorem written_writeField (f : List UInt8) : Written f (writeField f) := by
  rw [writeField]
  split
  · exact .quoted
  · next h => exact .plain (by simpa using h)

theorem line_writeFields {r : List (List UInt8)} (h : r ≠ []) : Line r (writeFields r) := by
  induction r with
  | nil => exact absurd rfl h
  | cons f r ih =>
    cases r with
    | nil => exact .one (written_writeField f)
    | cons g r => exact .cons (written_writeField f) (ih (by simp))

theorem Line.eq_of_nil {r : List (List UInt8)} {l : List UInt8} (h : Line r l) (hl : l = []) :
    r = [[]] := by
  cases h with
  | one hw =>
    cases hw with
    | plain => rw [hl]
    | quoted => simp [inQuotes] at hl
  | cons => simp at hl

theorem exists_line_writeRecord {r : List (List UInt8)} (h : r ≠ []) :
    ∃ l, Line r l ∧ l ≠ [] ∧ writeRecord r = l ++ [newline] := by
  have hl := line_writeFields h
  rw [writeRecord]
  split
  · next he =>
    rw [hl.eq_of_nil (List.isEmpty_iff.1 he)]
    exact ⟨inQuotes [], .one .quoted, by simp [inQuotes], rfl⟩
  · next he => exact ⟨_, hl, by simpa using he, rfl⟩

theorem lines_writeRecords {rs : List (List (List UInt8))} (h : ∀ r ∈ rs, r ≠ []) :
    Lines rs (rs.flatMap writeRecord) := by
  induction rs with
  | nil => exact .done
  | cons r rs ih =>
    obtain ⟨l, hl, hn, hw⟩ := exists_line_writeRecord (h r List.mem_cons_self)
    rw [List.flatMap_cons, hw, List.append_assoc]
    exact .line hl hn rfl (ih fun q hq => h q (List.mem_cons_of_mem r hq))

end LatencyDigest.Delimited
