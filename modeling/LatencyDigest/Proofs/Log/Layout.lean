import LatencyDigest.Proofs.Log.Acceptance
import Mathlib.Data.List.Nodup

/-! However a log is laid out, the same table is read from it. White space around a field, quotes,
the ends of lines, empty lines and a byte-order mark make no difference. -/

namespace LatencyDigest.Log

open Delimited (Written Line Lines dropMark markChar inQuotes needsQuotes comma newline
  carriageReturn records)

/-- A text with white space around it, as it is or within quotes. -/
inductive Cell (s : List Char) : List UInt8 → Prop
  | plain : (∀ c ∈ before, Text.isBlank c) → (∀ c ∈ after, Text.isBlank c) →
      needsQuotes (Text.encode (before ++ s ++ after)) = false →
      Cell s (Text.encode (before ++ s ++ after))
  | quoted : (∀ c ∈ before, Text.isBlank c) → (∀ c ∈ after, Text.isBlank c) →
      Cell s (inQuotes (Text.encode (before ++ s ++ after)))

inductive Cells : List (List Char) → List UInt8 → Prop
  | one : Cell s w → Cells [s] w
  | cons : Cell s w → Cells ss l → Cells (s :: ss) (w ++ comma :: l)

inductive LineEnd : List UInt8 → Prop
  | lineFeed : LineEnd [newline]
  | carriageReturn : LineEnd [carriageReturn]
  | both : LineEnd [carriageReturn, newline]

/-- Records on lines, and empty lines anywhere. The last record needs no end. -/
inductive Layout : List (List (List Char)) → List UInt8 → Prop
  | done : Layout [] []
  | blank : LineEnd e → Layout rs t → Layout rs (e ++ t)
  | record : Cells r l → LineEnd e → Layout rs t → Layout (r :: rs) (l ++ e ++ t)
  | unended : Cells r l → Layout [r] l

def Around (s : List Char) (f : List UInt8) : Prop := ∃ before after,
  f = Text.encode (before ++ s ++ after) ∧ (∀ c ∈ before, Text.isBlank c) ∧
    ∀ c ∈ after, Text.isBlank c

theorem Around.holds {s : List Char} {f : List UInt8} (h : Around s f) : Holds f (Text.trim s) := by
  obtain ⟨before, after, hf, hb, ha⟩ := h
  exact ⟨_, hf, (Text.trim_append hb ha).symm⟩

theorem Cell.written {s : List Char} {w : List UInt8} (h : Cell s w) :
    ∃ f, Around s f ∧ Written f w := by
  cases h with
  | plain hb ha hq => exact ⟨_, ⟨_, _, rfl, hb, ha⟩, .plain hq⟩
  | quoted hb ha => exact ⟨_, ⟨_, _, rfl, hb, ha⟩, .quoted⟩

theorem Cells.line {ss : List (List Char)} {l : List UInt8} (h : Cells ss l) :
    ∃ fs, List.Forall₂ Around ss fs ∧ Line fs l := by
  induction h with
  | one hw =>
    obtain ⟨f, hf, hw⟩ := hw.written
    exact ⟨[f], .cons hf .nil, .one hw⟩
  | cons hw _ ih =>
    obtain ⟨f, hf, hw⟩ := hw.written
    obtain ⟨fs, hfs, hl⟩ := ih
    exact ⟨f :: fs, .cons hf hfs, .cons hw hl⟩

/-- A record with a text that is not empty takes up its line. -/
theorem Cells.ne_nil {ss : List (List Char)} {l : List UInt8} (h : Cells ss l)
    (hs : ∃ s ∈ ss, s ≠ []) : l ≠ [] := by
  intro hn
  obtain ⟨fs, hfs, hl⟩ := h.line
  rw [hl.eq_of_nil hn] at hfs
  obtain ⟨s, hm, hne⟩ := hs
  obtain ⟨f, hf, before, after, he, -⟩ := Aligned.exists_right_of_mem hfs hm
  rw [List.mem_singleton.1 hf] at he
  have hd := Text.encode_injective (he.symm.trans Text.encode_nil.symm)
  simp only [List.append_eq_nil_iff] at hd
  exact hne hd.1.2

theorem LineEnd.lines_blank {e t : List UInt8} (h : LineEnd e) {rs : List (List (List UInt8))}
    (ht : Lines rs t) : Lines rs (e ++ t) := by
  cases h with
  | lineFeed => exact .blank rfl ht
  | carriageReturn => exact .blank rfl ht
  | both => exact .blank rfl (.blank rfl ht)

theorem LineEnd.lines_line {e t l : List UInt8} {r : List (List UInt8)} (h : LineEnd e)
    {rs : List (List (List UInt8))} (hr : Line r l) (hl : l ≠ []) (ht : Lines rs t) :
    Lines (r :: rs) (l ++ e ++ t) := by
  rw [List.append_assoc]
  cases h with
  | lineFeed => exact .line hr hl rfl ht
  | carriageReturn => exact .line hr hl rfl ht
  | both => exact .line hr hl rfl (.blank rfl ht)

theorem Layout.lines {rs : List (List (List Char))} {t : List UInt8} (h : Layout rs t)
    (hs : ∀ r ∈ rs, ∃ s ∈ r, s ≠ []) :
    ∃ fss, List.Forall₂ (List.Forall₂ Around) rs fss ∧ Lines fss t := by
  induction h with
  | done => exact ⟨[], .nil, .done⟩
  | blank he _ ih =>
    obtain ⟨fss, hf, ht⟩ := ih hs
    exact ⟨fss, hf, he.lines_blank ht⟩
  | record hr he _ ih =>
    obtain ⟨fs, hfs, hl⟩ := hr.line
    obtain ⟨fss, hf, ht⟩ := ih fun r hm => hs r (List.mem_cons_of_mem _ hm)
    exact ⟨fs :: fss, .cons hfs hf, he.lines_line hl (hr.ne_nil (hs _ List.mem_cons_self)) ht⟩
  | unended hr =>
    obtain ⟨fs, hfs, hl⟩ := hr.line
    exact ⟨[fs], .cons hfs .nil, .unended hl (hr.ne_nil (hs _ List.mem_cons_self))⟩

/-- Nothing but a mark character at the front of a text begins with the bytes of one. -/
theorem Cell.dropMark_append {s : List Char} {w r : List UInt8} (h : Cell s w)
    (hs : (Text.trim s).head? ≠ some markChar) (hr : r.head? ≠ some 0xEF) :
    dropMark (w ++ r) = w ++ r := by
  cases h with
  | plain hb ha =>
    rw [Delimited.dropMark_encode _ hr, Delimited.dropMarkChar_of_head]
    intro hm
    rw [← Text.trim_append hb ha] at hs
    exact hs (Delimited.head_trim_of_head hm)
  | quoted => exact Delimited.dropMark_inQuotes _ r

theorem Cells.dropMark_append {ss : List (List Char)} {l r : List UInt8} (h : Cells ss l)
    (hs : ∀ s ∈ ss.head?, (Text.trim s).head? ≠ some markChar) (hr : r.head? ≠ some 0xEF) :
    dropMark (l ++ r) = l ++ r := by
  cases h with
  | one hw => exact hw.dropMark_append (hs _ rfl) hr
  | @cons s w ss l hw _ =>
    rw [List.append_assoc, List.cons_append]
    exact hw.dropMark_append (hs s rfl) (by rw [List.head?_cons]; decide)

theorem LineEnd.head {e : List UInt8} (h : LineEnd e) (t : List UInt8) :
    (e ++ t).head? ≠ some 0xEF := by
  cases h <;> rw [List.cons_append, List.head?_cons] <;> decide

theorem Layout.dropMark_eq {rs : List (List (List Char))} {t : List UInt8} (h : Layout rs t)
    (hs : ∀ r ∈ rs.head?, ∀ s ∈ r.head?, (Text.trim s).head? ≠ some markChar) :
    dropMark t = t := by
  cases h with
  | done => rfl
  | blank he => exact Delimited.dropMark_of_head (he.head _)
  | record hr he =>
    rw [List.append_assoc]
    exact hr.dropMark_append (hs _ rfl) (he.head _)
  | unended hr =>
    have hd := hr.dropMark_append (r := []) (hs _ rfl) (by simp)
    rwa [List.append_nil] at hd

def titles (header : List (List Char)) : List String :=
  header.map fun s => String.ofList (Text.trim s)

/-- Each column of the kind once, in any order, and among them other columns. -/
structure Headed (k : LogKind) (names : List String) : Prop where
  perm : (names.filter fun n => n ∈ k.columns).Perm k.columns
  unmarked : ∀ n ∈ names, n ∉ k.columns → n.toList.head? ≠ some markChar

/-- The texts of a row below the names: the digits of a number in each column of the kind, and any
text in the others. -/
def Shown (k : LogKind) (names : List String) (v : String → Int64)
    (texts : List (List Char)) : Prop :=
  List.Forall₂ (fun n s => n ∈ k.columns → s = Integer.chars (v n)) names texts

section
variable {k : LogKind} {names : List String}

theorem Headed.count_eq (h : Headed k names) {c : String} (hc : c ∈ k.columns) :
    names.count c = 1 := by
  rw [← List.count_filter (p := fun n => n ∈ k.columns) (by simpa using hc), h.perm.count_eq,
    List.count_eq_one_of_mem k.columns_nodup hc]

theorem Headed.mem (h : Headed k names) {c : String} (hc : c ∈ k.columns) : c ∈ names :=
  List.count_pos_iff.1 (by rw [h.count_eq hc]; decide)

theorem named_titles {header : List (List Char)} {fs : List (List UInt8)}
    (h : List.Forall₂ Around header fs) : Named fs (titles header) := by
  rw [Named, titles, List.forall₂_map_right_iff]
  apply h.flip.imp
  intro f s hf
  rw [String.toList_ofList]
  exact Around.holds hf

theorem Shown.bears {v : String → Int64} {texts : List (List Char)} (h : Shown k names v texts)
    {fs : List (List UInt8)} (hf : List.Forall₂ Around texts fs) : Bears k names fs v := by
  refine ⟨?_, ?_, ?_⟩
  · rw [← hf.length_eq, h.length_eq]
  · intro f hm
    obtain ⟨s, -, before, after, he, -⟩ := Aligned.exists_left_of_mem hf hm
    exact ⟨_, he⟩
  · intro c f hm hc
    have hz := Aligned.zip names hf
    obtain ⟨⟨d, s⟩, hs, hd, ha⟩ := Aligned.exists_left_of_mem hz hm
    obtain rfl : d = c := hd
    have he := List.forall₂_zip h hs hc
    refine ⟨_, ha.holds, ?_⟩
    rw [he, Integer.trim_chars, Integer.read_chars]

end

theorem Headed.head_of_mem {k : LogKind} {names : List String} (h : Headed k names) {n : String}
    (hn : n ∈ names) : n.toList.head? ≠ some markChar := by
  by_cases hk : n ∈ k.columns
  · exact (LogKind.head_of_mem_columns hk).2
  · exact h.unmarked n hn hk

theorem Headed.exists_ne_nil {k : LogKind} {header : List (List Char)}
    (h : Headed k (titles header)) : ∃ s ∈ header, s ≠ [] := by
  obtain ⟨c, hc⟩ := k.exists_mem_columns
  have hne := (LogKind.head_of_mem_columns hc).1
  obtain ⟨s, hs, rfl⟩ := List.mem_map.1 (h.mem hc)
  refine ⟨s, hs, ?_⟩
  rintro rfl
  exact hne rfl

theorem Shown.exists_ne_nil {k : LogKind} {names : List String} {v : String → Int64}
    {texts : List (List Char)} (h : Shown k names v texts) (hh : Headed k names) :
    ∃ s ∈ texts, s ≠ [] := by
  obtain ⟨c, hc⟩ := k.exists_mem_columns
  obtain ⟨s, hs, he⟩ := Aligned.exists_right_of_mem h (hh.mem hc)
  refine ⟨s, hs, ?_⟩
  rw [he hc]
  exact Integer.chars_ne_nil _

theorem ofBytes_of_layout {k : LogKind} {source : String} {header : List (List Char)}
    {rows : List (String → Int64)} {data : List (List (List Char))} {mark text : List UInt8}
    (hh : Headed k (titles header)) (hd : List.Forall₂ (Shown k (titles header)) rows data)
    (hm : mark = [] ∨ mark = [0xEF, 0xBB, 0xBF]) (ht : Layout (header :: data) text) :
    ofBytes k source (mark ++ text) = .ok (k.tabulate rows) := by
  have hs : ∀ r ∈ header :: data, ∃ s ∈ r, s ≠ [] := by
    intro r hr
    rcases List.mem_cons.1 hr with rfl | hr
    · exact hh.exists_ne_nil
    · obtain ⟨v, -, hv⟩ := Aligned.exists_left_of_mem hd hr
      exact hv.exists_ne_nil hh
  have hdrop : dropMark (mark ++ text) = text := by
    rcases hm with rfl | rfl
    · apply ht.dropMark_eq
      intro r hr s hs
      cases hr
      have hn : String.ofList (Text.trim s) ∈ titles header :=
        List.mem_map_of_mem (List.mem_of_mem_head? hs)
      simpa using hh.head_of_mem hn
    · rfl
  obtain ⟨fss, hf, hl⟩ := ht.lines hs
  cases hf with
  | @cons _ fs _ fss hfs hf =>
    have hr : (records (mark ++ text)).map Delimited.Record.fields = fs :: fss := by
      rw [Delimited.map_fields_records, hdrop, Delimited.contents_lines hl]
    have hb : List.Forall₂ (Bears k (titles header)) fss rows :=
      Aligned.join hf hd.flip fun ha hv => Shown.bears hv ha
    exact ofRecords_eq_tabulate hr (named_titles hfs) (fun c hc => hh.count_eq hc) hb

/-- Quotes, white space, both kinds of line end, an empty line and a mark. -/
theorem ofBytes_of_layout_noted : ofBytes .response "input" ([0xEF, 0xBB, 0xBF] ++
      Text.encode "\"a,\", target_parsed_to_tcp_sent_ns\t\r\n\rslow,\"\n-7 \"".toList) =
    .ok (LogKind.response.tabulate [fun _ => -7]) := by
  have hh : Headed .response (titles ["a,".toList, "target_parsed_to_tcp_sent_ns".toList]) :=
    ⟨by decide +kernel, by decide +kernel⟩
  have hd : Shown .response (titles ["a,".toList, "target_parsed_to_tcp_sent_ns".toList])
      (fun _ => -7) ["slow".toList, "-7".toList] :=
    .cons (fun h => absurd h (by decide +kernel)) (.cons (fun _ => by decide +kernel) .nil)
  have hnote : Cell "a,".toList (inQuotes (Text.encode ([] ++ "a,".toList ++ []))) :=
    .quoted (by simp) (by simp)
  have hname : Cell "target_parsed_to_tcp_sent_ns".toList
      (Text.encode ([' '] ++ "target_parsed_to_tcp_sent_ns".toList ++ ['\t'])) :=
    .plain (by simp [Text.isBlank]) (by simp [Text.isBlank]) (by decide +kernel)
  have hslow : Cell "slow".toList (Text.encode ([] ++ "slow".toList ++ [])) :=
    .plain (by simp) (by simp) (by decide +kernel)
  have hnumber : Cell "-7".toList (inQuotes (Text.encode (['\n'] ++ "-7".toList ++ [' ']))) :=
    .quoted (by simp [Text.isBlank]) (by simp [Text.isBlank])
  have ht := Layout.record (.cons hnote (.one hname)) .both <|
    .blank .carriageReturn <| .unended <| .cons hslow <| .one hnumber
  refine Eq.trans (congrArg _ ?_) (ofBytes_of_layout hh (.cons hd .nil) (.inr rfl) ht)
  decide +kernel

end LatencyDigest.Log
