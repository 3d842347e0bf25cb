import LatencyDigest.Proofs.Aligned
import LatencyDigest.Proofs.Log.Rows

/-! A record is read as a row exactly if it fits below the names of the header, and what is said of
one that does not fit is so. -/

namespace LatencyDigest

open Delimited (Record Start)

namespace Log

variable {k : LogKind} {names : List String}

/-- A record that fits below the names: as many fields, all of them text, and a whole number in each
column of the kind. -/
structure Fits (k : LogKind) (names : List String) (fields : List (List UInt8)) : Prop where
  length_eq : fields.length = names.length
  text : ∀ f ∈ fields, ∃ s, f = Text.encode s
  number : ∀ c f, (c, f) ∈ names.zip fields → c ∈ k.columns → ∃ v, HoldsNumber f v

def Unrepeated (k : LogKind) (names : List String) : Prop := ∀ c ∈ k.columns, names.count c ≤ 1

/-- What is said of a record that does not fit is so. -/
inductive RowFault (k : LogKind) (names : List String) (r : Record) : LogFault → Prop
  | fieldCount : r.fields.length ≠ names.length →
      RowFault k names r (.fieldCount names.length r.fields.length)
  | notUtf8 : r.fields = before ++ f :: after → (∀ g ∈ before, ∃ s, g = Text.encode s) →
      Text.decode (Text.trimBy isAsciiBlank f) = .error good →
      RowFault k names r (.notUtf8 r.start before.length good)
  | badValue : names.zip r.fields = before ++ (c, f) :: after → c ∈ k.columns → Holds f s →
      Integer.read s = .error fault → RowFault k names r (.badValue before.length fault)
  | repeatedColumn : c ∈ k.columns → 1 < names.count c → RowFault k names r (.repeatedColumn c)

theorem exists_encode_iff {f : List UInt8} : (∃ s, f = Text.encode s) ↔ ∃ s, Holds f s := by
  constructor
  · rintro ⟨u, hu⟩
    exact ⟨_, u, hu, rfl⟩
  · rintro ⟨s, u, hu, -⟩
    exact ⟨u, hu⟩

theorem RowFault.not_fits {r : Record} {e : LogFault} (h : RowFault k names r e) :
    ¬(Fits k names r.fields ∧ Unrepeated k names) := by
  rintro ⟨hf, hu⟩
  cases h with
  | fieldCount hl => exact hl hf.length_eq
  | @notUtf8 before f after good hr hb hd =>
    obtain ⟨s, hs⟩ := exists_encode_iff.1 (hf.text f (by simp [hr]))
    obtain ⟨u, hu, -⟩ := holds_trimBy.2 hs
    rw [Text.decode_eq_ok_iff.2 hu] at hd
    cases hd
  | @badValue before c f after s fault hz hc hs he =>
    obtain ⟨v, t, ht, hv⟩ := hf.number c f (by simp [hz]) hc
    rw [hs.unique ht, hv] at he
    cases he
  | @repeatedColumn c hc hn =>
    have := hu c hc
    omega

theorem row_of_length_ne {r : Record} (h : r.fields.length ≠ names.length) :
    row k names r = .error (.fieldCount names.length r.fields.length) := by
  rw [row, if_pos h]
  rfl

theorem row_of_length_eq {r : Record} (h : r.fields.length = names.length) :
    row k names r = texts r.start 0 (r.fields.map (Text.trimBy isAsciiBlank)) >>= fun ss =>
      Row.read k (names.zip ss) := by
  rw [row, if_neg (by simpa using h)]

/-- The values of a row, each column of the kind by its name. -/
def Gives (k : LogKind) (names : List String) (fields : List (List UInt8)) (row : Row) : Prop :=
  ∀ c f, (c, f) ∈ names.zip fields → c ∈ k.columns →
    ∃ v, HoldsNumber f v ∧ row.lookup c = some v

theorem map_fst_zip {ss : List (List Char)} (h : ss.length = names.length) :
    (names.zip ss).map Prod.fst = names := List.map_fst_zip (by omega)

theorem forall₂_holds_of_texts {start : Start} {fields : List (List UInt8)}
    {ss : List (List Char)}
    (h : texts start 0 (fields.map (Text.trimBy isAsciiBlank)) = .ok ss) :
    List.Forall₂ Holds fields ss := by
  rw [texts_eq_ok_iff, List.forall₂_map_left_iff] at h
  exact h.imp fun _ _ => holds_trimBy.1

theorem fits_of_row {r : Record} {w : Row} (h : row k names r = .ok w) :
    Fits k names r.fields ∧ Unrepeated k names ∧ Gives k names r.fields w := by
  by_cases hl : r.fields.length = names.length
  · rw [row_of_length_eq hl, Outcome.bind_eq_ok_iff] at h
    obtain ⟨ss, hss, hw⟩ := h
    have hs := forall₂_holds_of_texts hss
    have hls : ss.length = names.length := hs.length_eq ▸ hl
    have hg : Gives k names r.fields w := by
      intro c f hm hc
      obtain ⟨⟨d, s⟩, hz, rfl, hf⟩ := Aligned.exists_right_of_mem (Aligned.zip names hs) hm
      obtain ⟨v, hv, hlook⟩ := Row.value_of_readFrom hw hz hc
      exact ⟨v, ⟨s, hf, hv⟩, hlook⟩
    refine ⟨⟨hl, ?_, ?_⟩, ?_, hg⟩
    · intro f hf
      obtain ⟨s, -, hfs⟩ := Aligned.exists_right_of_mem hs hf
      exact exists_encode_iff.2 ⟨s, hfs⟩
    · intro c f hm hc
      obtain ⟨v, hv, -⟩ := hg c f hm hc
      exact ⟨v, hv⟩
    · intro c hc
      have hn := Row.count_of_readFrom hw hc
      rw [map_fst_zip hls] at hn
      omega
  · rw [row_of_length_ne hl] at h
    cases h

theorem rowFault_of_row {r : Record} {e : LogFault} (h : row k names r = .error e) :
    RowFault k names r e := by
  by_cases hl : r.fields.length = names.length
  · rw [row_of_length_eq hl] at h
    cases ht : texts r.start 0 (r.fields.map (Text.trimBy isAsciiBlank)) with
    | error d =>
      rw [ht] at h
      cases h
      obtain ⟨before, g, after, good, hm, hb, hg, rfl⟩ := exists_of_texts_eq_error ht
      obtain ⟨bs, gs, hr, rfl, hgs⟩ := List.map_eq_append_iff.1 hm
      obtain ⟨f, as, rfl, rfl, -⟩ := List.map_eq_cons_iff.1 hgs
      rw [List.length_map, Nat.zero_add]
      refine .notUtf8 hr ?_ hg
      intro x hx
      obtain ⟨s, hs⟩ := hb _ (List.mem_map_of_mem hx)
      exact exists_encode_iff.2 ⟨s, holds_trimBy.1 hs⟩
    | ok ss =>
      rw [ht] at h
      have hs := forall₂_holds_of_texts ht
      have hls : ss.length = names.length := hs.length_eq ▸ hl
      obtain ⟨before, c, s, after, hz, hc, he⟩ := Row.exists_of_readFrom_eq_error h
      have ha := Aligned.zip names hs
      rw [hz] at ha
      obtain ⟨before', ⟨d, f⟩, after', hz', hb, hd, hf⟩ := Aligned.exists_of_append ha
      obtain rfl : c = d := hd.symm
      rcases he with ⟨rfl, hr⟩ | ⟨fault, rfl, hv⟩
      · refine .repeatedColumn hc ?_
        have hm : c ∈ before.map Prod.fst := by simpa using hr
        have hpos := List.count_pos_iff.2 hm
        rw [← map_fst_zip hls, hz, List.map_append, List.count_append, List.map_cons,
          List.count_cons_self]
        omega
      · rw [← hb.length_eq, Nat.zero_add]
        exact .badValue hz' hc hf hv
  · rw [row_of_length_ne hl] at h
    cases h
    exact .fieldCount hl

end Log

end LatencyDigest
