import LatencyDigest.Proofs.Delimited.Contents
import Mathlib.Data.List.Induction

/-! Where a record stands in its text. The reader takes note of the place right after the byte that
ended the record before, so line ends that the reader passes over stand between that place and the
first byte of the record. -/

namespace LatencyDigest.Delimited

def Extent.of (s : List UInt8) : Extent := ⟨s.length, s.count newline⟩

@[simp] theorem Extent.cons_of (b : UInt8) (s : List UInt8) :
    (Extent.of s).cons b = Extent.of (b :: s) := by
  simp [Extent.of, Extent.cons, List.count_cons]

@[simp] theorem Extent.of_add_of (s t : List UInt8) :
    Extent.of s + Extent.of t = Extent.of (s ++ t) := by
  change Extent.add _ _ = _
  simp [Extent.of, Extent.add]

def EndsLine (s : List UInt8) : Prop := ∃ b ∈ s.getLast?, isLineEnd b

theorem EndsLine.cons {b : UInt8} {s : List UInt8} (h : EndsLine s) : EndsLine (b :: s) := by
  obtain ⟨c, hc, hl⟩ := h
  refine ⟨c, ?_, hl⟩
  cases s with
  | nil => simp at hc
  | cons d s => rwa [List.getLast?_cons_cons]

theorem EndsLine.append {s t : List UInt8} (h : EndsLine t) : EndsLine (s ++ t) := by
  induction s with
  | nil => exact h
  | cons b s ih => exact ih.cons

/-- One byte of a scan: the scan goes on in some mode, or the byte ends the line. -/
inductive ScanStep (m : Mode) (b : UInt8) (s : List UInt8) : Prop
  | goes (n : Mode) : (scan m (b :: s)).rest = (scan n s).rest →
      (scan m (b :: s)).extent = (scan n s).extent.cons b → ScanStep m b s
  | ends : isLineEnd b → (scan m (b :: s)).rest = s →
      (scan m (b :: s)).extent = Extent.none.cons b → ScanStep m b s

theorem scanStep (m : Mode) (b : UInt8) (s : List UInt8) : ScanStep m b s := by
  cases m with
  | start =>
    by_cases hq : b = quote
    · refine .goes .quoted ?_ ?_ <;> rw [scan, if_pos hq] <;> rfl
    by_cases hc : b = comma
    · refine .goes .start ?_ ?_ <;> rw [scan, if_neg hq, if_pos hc] <;> rfl
    by_cases hl : isLineEnd b
    · refine .ends hl ?_ ?_ <;> rw [scan, if_neg hq, if_neg hc, if_pos hl]
    · refine .goes .plain ?_ ?_ <;> rw [scan, if_neg hq, if_neg hc, if_neg hl] <;> rfl
  | plain =>
    by_cases hc : b = comma
    · refine .goes .start ?_ ?_ <;> rw [scan, if_pos hc] <;> rfl
    by_cases hl : isLineEnd b
    · refine .ends hl ?_ ?_ <;> rw [scan, if_neg hc, if_pos hl]
    · refine .goes .plain ?_ ?_ <;> rw [scan, if_neg hc, if_neg hl] <;> rfl
  | quoted =>
    by_cases hq : b = quote
    · refine .goes .afterQuote ?_ ?_ <;> rw [scan, if_pos hq] <;> rfl
    · refine .goes .quoted ?_ ?_ <;> rw [scan, if_neg hq] <;> rfl
  | afterQuote =>
    by_cases hq : b = quote
    · refine .goes .quoted ?_ ?_ <;> rw [scan, if_pos hq] <;> rfl
    by_cases hc : b = comma
    · refine .goes .start ?_ ?_ <;> rw [scan, if_neg hq, if_pos hc] <;> rfl
    by_cases hl : isLineEnd b
    · refine .ends hl ?_ ?_ <;> rw [scan, if_neg hq, if_neg hc, if_pos hl]
    · refine .goes .plain ?_ ?_ <;> rw [scan, if_neg hq, if_neg hc, if_neg hl] <;> rfl

theorem exists_scan_used (m : Mode) (s : List UInt8) : ∃ used, s = used ++ (scan m s).rest ∧
    (scan m s).extent = Extent.of used ∧ ((scan m s).rest ≠ [] → EndsLine used) := by
  induction s generalizing m with
  | nil => exact ⟨[], by cases m <;> rfl, by cases m <;> rfl, by cases m <;> simp [scan]⟩
  | cons b s ih =>
    cases scanStep m b s with
    | goes n hr he =>
      obtain ⟨used, hs, hu, hl⟩ := ih n
      refine ⟨b :: used, ?_, ?_, ?_⟩
      · rw [hr, List.cons_append, ← hs]
      · rw [he, hu, Extent.cons_of]
      · rw [hr]
        exact fun h => (hl h).cons
    | ends hl hr he =>
      refine ⟨[b], ?_, ?_, fun _ => ⟨b, rfl, hl⟩⟩
      · rw [hr, List.singleton_append]
      · rw [he, ← Extent.cons_of]
        rfl

theorem exists_skipLineEnds_blank (s : List UInt8) : ∃ blank, s = blank ++ (skipLineEnds s).2 ∧
    (skipLineEnds s).1 = Extent.of blank ∧ (∀ b ∈ blank, isLineEnd b) ∧
      ∀ b ∈ (skipLineEnds s).2.head?, ¬isLineEnd b := by
  induction s with
  | nil => exact ⟨[], rfl, rfl, by simp, by simp [skipLineEnds]⟩
  | cons b s ih =>
    by_cases h : isLineEnd b
    · obtain ⟨blank, hs, he, hb, hh⟩ := ih
      rw [skipLineEnds_lineEnd h]
      refine ⟨b :: blank, ?_, ?_, ?_, hh⟩
      · rw [List.cons_append, ← hs]
      · rw [he, Extent.cons_of]
      · intro c hc
        rcases List.mem_cons.1 hc with rfl | hc
        · exact h
        · exact hb c hc
    · rw [skipLineEnds_of_not h]
      refine ⟨[], rfl, rfl, by simp, ?_⟩
      intro c hc
      rw [← Option.some.inj hc]
      exact h

/-- A record begins with `body`. The text up to the byte that ended the record before is `before`,
and the lines with nothing on them are `blank`. -/
structure StandsAt (text : List UInt8) (r : Record) (before blank body : List UInt8) : Prop where
  text_eq : text = before ++ blank ++ body
  byte_eq : r.start.byte = before.length
  lineFeeds_eq : r.start.lineFeeds = before.count newline
  ended : EndsLine before
  isLineEnd_of_mem : ∀ b ∈ blank, isLineEnd b
  head_not_lineEnd : ∃ b ∈ body.head?, ¬isLineEnd b
  fields_eq : r.fields = (scan .start body).field :: (scan .start body).fields

def Start.After (p : Start) (read : List UInt8) : Prop :=
  p.byte = read.length ∧ p.lineFeeds = read.count newline

theorem Start.After.next {p : Start} {read : List UInt8} (h : p.After read) (s : List UInt8) :
    (p.next (Extent.of s)).After (read ++ s) := by
  obtain ⟨hb, hl⟩ := h
  simp [Start.After, Start.next, Extent.of, hb, hl]

theorem exists_recordsFrom_eq_cons {s : List UInt8} {blank : Extent} {b : UInt8} {t : List UInt8}
    (h : skipLineEnds s = (blank, b :: t)) (start : Start) (p : List UInt8) :
    ∃ bs used, s = bs ++ b :: t ∧ b :: t = used ++ (scan .start (b :: t)).rest ∧
      (∀ c ∈ bs, isLineEnd c) ∧ ¬isLineEnd b ∧ ((scan .start (b :: t)).rest ≠ [] → EndsLine used) ∧
        recordsFrom start (.of p) s [] =
          ⟨start, (scan .start (b :: t)).field :: (scan .start (b :: t)).fields⟩ ::
            recordsFrom (start.next (.of (p ++ bs ++ used))) .none
              (scan .start (b :: t)).rest [] := by
  obtain ⟨bs, hs, hbe, hbs, hb⟩ := exists_skipLineEnds_blank s
  obtain ⟨used, hu, hue, hl⟩ := exists_scan_used .start (b :: t)
  simp only [h] at hs hbe hb
  refine ⟨bs, used, hs, hu, hbs, hb b rfl, hl, ?_⟩
  rw [recordsFrom_cons h, recordsFrom_eq_append, hbe, hue, Extent.of_add_of, Extent.of_add_of]
  rfl

theorem exists_standsAt_of_mem {start : Start} {read s : List UInt8} {r : Record}
    (ha : start.After read) (he : s ≠ [] → EndsLine read) (hr : r ∈ recordsFrom start .none s []) :
    ∃ before blank body, StandsAt (read ++ s) r before blank body := by
  induction s using recordwise generalizing start read with
  | none s blank h =>
    rw [recordsFrom_nil h] at hr
    simp at hr
  | record s blank b t h ih =>
    obtain ⟨bs, used, hs, hu, hbs, hb, hl, hf⟩ := exists_recordsFrom_eq_cons h start []
    rw [show Extent.none = .of [] from rfl, hf] at hr
    rcases List.mem_cons.1 hr with rfl | hr
    · have hn : s ≠ [] := by simp [hs]
      refine ⟨read, bs, b :: t, ?_, ha.1, ha.2, he hn, hbs, ⟨b, rfl, hb⟩, rfl⟩
      rw [List.append_assoc, ← hs]
    · obtain ⟨before, blank', body, hst⟩ :=
        ih (ha.next _) (fun hn => (hl hn).append.append) hr
      have ht : read ++ ([] ++ bs ++ used) ++ (scan .start (b :: t)).rest = read ++ s := by
        conv => rhs; rw [hs, hu]
        simp
      rw [ht] at hst
      exact ⟨before, blank', body, hst⟩

/-- The reader begins after the byte-order mark, whose bytes belong to the first record. -/
theorem exists_records_eq (text : List UInt8) : ∃ mark, text = mark ++ dropMark text ∧
    records text = recordsFrom ⟨0, 0, 0⟩ (.of mark) (dropMark text) [] := by
  fun_cases dropMark text with
  | case1 s => exact ⟨[0xEF, 0xBB, 0xBF], rfl, rfl⟩
  | case2 s h =>
    refine ⟨[], rfl, ?_⟩
    rw [records]
    · rfl
    · exact h

/-- Each record but the first stands where its place says, or line ends later. -/
theorem exists_standsAt {text : List UInt8} {r : Record} (h : r ∈ (records text).tail) :
    ∃ before blank body, StandsAt text r before blank body := by
  obtain ⟨mark, hm, hr⟩ := exists_records_eq text
  rw [hr] at h
  cases hs : skipLineEnds (dropMark text) with
  | mk blank t =>
    cases t with
    | nil =>
      rw [recordsFrom_nil hs] at h
      simp at h
    | cons b t =>
      obtain ⟨bs, used, hd, hu, -, -, hl, hf⟩ := exists_recordsFrom_eq_cons hs ⟨0, 0, 0⟩ mark
      have ha : Start.After ⟨0, 0, 0⟩ [] := ⟨rfl, rfl⟩
      rw [hf, List.tail_cons] at h
      obtain ⟨before, blank', body, hst⟩ :=
        exists_standsAt_of_mem (ha.next _) (fun hn => (hl hn).append.append) h
      have ht : [] ++ (mark ++ bs ++ used) ++ (scan .start (b :: t)).rest = text := by
        conv => rhs; rw [hm, hd, hu]
        simp
      rw [ht] at hst
      exact ⟨before, blank', body, hst⟩

def loneReturns : List UInt8 → Nat
  | [] => 0
  | b :: s => loneReturns s + if b = carriageReturn ∧ s.head? ≠ some newline then 1 else 0

/-- Line feeds and carriage returns, one of each in this order counted once. -/
def lineEnds : List UInt8 → Nat
  | [] => 0
  | b :: s => lineEnds s +
    if b = newline ∨ b = carriageReturn ∧ s.head? ≠ some newline then 1 else 0

theorem lineEnds_eq (s : List UInt8) : lineEnds s = s.count newline + loneReturns s := by
  induction s with
  | nil => rfl
  | cons b s ih =>
    have hr : newline ≠ carriageReturn := by decide
    rw [lineEnds, loneReturns, ih, List.count_cons]
    by_cases hb : b = newline
    · simp [hb, hr]
      omega
    · simp [hb]
      omega

theorem loneReturns_concat (s : List UInt8) : loneReturns (s ++ [carriageReturn]) ≠ 0 := by
  induction s with
  | nil => decide
  | cons b s ih =>
    rw [List.cons_append, loneReturns]
    omega

namespace StandsAt

variable {text before blank body : List UInt8} {r : Record}

theorem append_eq (h : StandsAt text r before blank body) : before ++ blank =
    text.take r.start.byte ++ (text.drop r.start.byte).takeWhile isLineEnd := by
  obtain ⟨b, hb, hn⟩ := h.head_not_lineEnd
  obtain ⟨t, rfl⟩ := List.head?_eq_some_iff.1 hb
  rw [h.byte_eq, h.text_eq, List.append_assoc, List.take_left, List.drop_left,
    List.takeWhile_append_of_pos h.isLineEnd_of_mem, List.takeWhile_cons_of_neg hn,
    List.append_nil]

theorem line_eq (h : StandsAt text r before blank body) :
    r.start.line = 1 + before.count newline := by
  rw [Start.line, h.lineFeeds_eq, Nat.add_comm]

/-- The lines that the place of a record does not count. -/
theorem lineEnds_append (h : StandsAt text r before blank body) :
    r.start.line + blank.count newline + loneReturns (before ++ blank) =
      1 + lineEnds (before ++ blank) := by
  rw [h.line_eq, lineEnds_eq, List.count_append]
  omega

theorem line_eq_iff (h : StandsAt text r before blank body) :
    r.start.line = 1 + lineEnds (before ++ blank) ↔ blank = [] ∧ loneReturns before = 0 := by
  have hl := h.lineEnds_append
  constructor
  · intro he
    cases blank using List.reverseRecOn with
    | nil =>
      rw [List.append_nil] at hl he
      exact ⟨rfl, by omega⟩
    | append_singleton blank c =>
      exfalso
      rcases isLineEnd_iff.1 (h.isLineEnd_of_mem c (by simp)) with rfl | rfl
      · rw [List.count_append, List.count_singleton_self] at hl
        omega
      · have hn := loneReturns_concat (before ++ blank)
        rw [List.append_assoc] at hn
        omega
  · rintro ⟨rfl, hr⟩
    rw [List.append_nil, hr] at hl
    rw [List.append_nil, ← hl]
    rfl

end StandsAt

end LatencyDigest.Delimited
