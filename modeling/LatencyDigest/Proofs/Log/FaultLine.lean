import LatencyDigest.Proofs.Delimited.Places
import LatencyDigest.Proofs.Log.Acceptance

/-! The line that a record at fault is told with. It is the one right after the byte that ended the
record before. That is the line of the record only if no line end stands between the two and each
carriage return has a line feed after it. -/

namespace LatencyDigest.Log

open Delimited (Record records lineEnds loneReturns StandsAt)

theorem FirstFault.mem_tail {k : LogKind} {names : List String} {rs : List Record} {r : Record}
    {fault : LogFault} (h : FirstFault k names rs r fault) : r ∈ rs.tail := by
  obtain ⟨before, after, ht, -⟩ := h.first
  simp [ht]

theorem firstFault_of_ofRecords {k : LogKind} {source : String} {names : List String}
    {rs : List Record} {e : Failure} (hn : Named (headerFields rs) names)
    (hc : ∀ c ∈ k.columns, c ∈ names) (h : ofRecords k source rs = .error e) :
    ∃ r fault, FirstFault k names rs r fault ∧ e = .malformed source r.start.line fault := by
  rcases exists_fault_of_ofRecords h with ⟨fault, hf, -⟩ | ⟨names', r, fault, hf, he⟩
  · exact absurd hc (hf.not_named hn)
  · rw [hf.named.unique hn] at hf
    exact ⟨r, fault, hf, he⟩

theorem ofBytes_line_of_fault {k : LogKind} {source : String} {text : List UInt8}
    {names : List String} {e : Failure} (hn : Named (headerFields (records text)) names)
    (hc : ∀ c ∈ k.columns, c ∈ names) (h : ofBytes k source text = .error e) :
    ∃ r fault line before blank body, FirstFault k names (records text) r fault ∧
      StandsAt text r before blank body ∧ e = .malformed source line fault ∧
      line = 1 + before.count Delimited.newline ∧
      line + blank.count Delimited.newline + loneReturns (before ++ blank) =
        1 + lineEnds (before ++ blank) ∧
      (line = 1 + lineEnds (before ++ blank) ↔ blank = [] ∧ loneReturns before = 0) := by
  obtain ⟨r, fault, hf, he⟩ := firstFault_of_ofRecords hn hc h
  obtain ⟨before, blank, body, hs⟩ := Delimited.exists_standsAt hf.mem_tail
  exact ⟨r, fault, r.start.line, before, blank, body, hf, hs, he, hs.line_eq, hs.lineEnds_append,
    hs.line_eq_iff⟩

/-- Three lines, the last of them without a number. -/
def noNumber (lineEnd : String) : List UInt8 :=
  Text.encode ("target_parsed_to_tcp_sent_ns" ++ lineEnd ++ "1" ++ lineEnd ++ "fast").toList

theorem ofBytes_line_after_lineFeeds : ∃ r fault line before blank body,
    FirstFault .response ["target_parsed_to_tcp_sent_ns"] (records (noNumber "\n")) r fault ∧
      StandsAt (noNumber "\n") r before blank body ∧
      Failure.malformed "input" 3 (.badValue 0 .invalidDigit) = .malformed "input" line fault ∧
      line = 1 + before.count Delimited.newline ∧
      line + blank.count Delimited.newline + loneReturns (before ++ blank) =
        1 + lineEnds (before ++ blank) ∧
      (line = 1 + lineEnds (before ++ blank) ↔ blank = [] ∧ loneReturns before = 0) :=
  ofBytes_line_of_fault (header_eq_ok_iff.1 (by decide +kernel)) (by decide +kernel)
    (by decide +kernel)

/-- With a line feed after each carriage return the line that is told is the one before. -/
theorem not_line_of_first_byte :
    ¬∀ (k : LogKind) (source : String) (text : List UInt8) (names : List String) (e : Failure)
      (r : Record) (fault : LogFault) (before blank body : List UInt8),
      Named (headerFields (records text)) names → (∀ c ∈ k.columns, c ∈ names) →
      ofBytes k source text = .error e → FirstFault k names (records text) r fault →
      StandsAt text r before blank body →
      ∃ told, e = .malformed source (1 + lineEnds (before ++ blank)) told := by
  intro h
  have hn : Named (headerFields (records (noNumber "\r\n"))) ["target_parsed_to_tcp_sent_ns"] :=
    header_eq_ok_iff.1 (by decide +kernel)
  have hc : ∀ c ∈ LogKind.response.columns, c ∈ ["target_parsed_to_tcp_sent_ns"] := by decide
  have he : ofBytes .response "input" (noNumber "\r\n") =
      .error (.malformed "input" 2 (.badValue 0 .invalidDigit)) := by decide +kernel
  have hthird : ∀ r ∈ (records (noNumber "\r\n")).tail, r.start.line = 2 →
      lineEnds ((noNumber "\r\n").take r.start.byte ++
        ((noNumber "\r\n").drop r.start.byte).takeWhile Delimited.isLineEnd) = 2 := by
    decide +kernel
  obtain ⟨r, fault, hf, hl⟩ := firstFault_of_ofRecords hn hc he
  obtain ⟨before, blank, body, hs⟩ := Delimited.exists_standsAt hf.mem_tail
  obtain ⟨told, ht⟩ := h _ _ _ _ _ _ _ _ _ _ hn hc he hf hs
  have hr := hthird r hf.mem_tail
  rw [← hs.append_eq] at hr
  simp only [Failure.malformed.injEq] at hl ht
  omega

end LatencyDigest.Log
