import LatencyDigest.Log.Reader
import LatencyDigest.Proofs.Log.Integer
import LatencyDigest.Proofs.Outcome
import LatencyDigest.Proofs.Text.Utf8

/-! When a record is a row of a log, and what is wrong with one that is not. -/

namespace LatencyDigest

namespace Log

open Delimited (Record Start)

/-- A field holds its characters without the white space around them. -/
def Holds (f : List UInt8) (s : List Char) : Prop := ∃ u, f = Text.encode u ∧ s = Text.trim u

def HoldsNumber (f : List UInt8) (v : Int64) : Prop := ∃ s, Holds f s ∧ Integer.read s = .ok v

theorem Holds.unique {f : List UInt8} {s t : List Char} (hs : Holds f s) (ht : Holds f t) :
    s = t := by
  obtain ⟨u, rfl, rfl⟩ := hs
  obtain ⟨v, hv, rfl⟩ := ht
  rw [Text.encode_injective hv]

theorem HoldsNumber.unique {f : List UInt8} {v w : Int64} (hv : HoldsNumber f v)
    (hw : HoldsNumber f w) : v = w := by
  obtain ⟨s, hs, hv⟩ := hv
  obtain ⟨t, ht, hw⟩ := hw
  rw [hs.unique ht, hw] at hv
  exact (Except.ok.inj hv).symm

theorem isAsciiBlank_iff {b : UInt8} : isAsciiBlank b ↔
    b.toNat = 9 ∨ b.toNat = 10 ∨ b.toNat = 12 ∨ b.toNat = 13 ∨ b.toNat = 32 := by
  simp [isAsciiBlank, ← UInt8.toNat_inj, or_assoc]

theorem lt_of_isAsciiBlank (b : UInt8) (h : isAsciiBlank b) : b.toNat < 0x80 := by
  have := isAsciiBlank_iff.1 h
  omega

theorem isBlank_of_onAscii (c : Char) (h : Text.onAscii isAsciiBlank c) : Text.isBlank c := by
  simp only [Text.onAscii, Bool.and_eq_true, decide_eq_true_eq] at h
  have hb := isAsciiBlank_iff.1 h.2
  rw [UInt8.toNat_ofNat'] at hb
  simp only [Text.isBlank]
  simp
  omega

/-- Taking the plain blanks off the bytes first leaves the same text. -/
theorem holds_trimBy {f : List UInt8} {s : List Char} :
    Holds (Text.trimBy isAsciiBlank f) s ↔ Holds f s := by
  constructor
  · rintro ⟨u, hu, rfl⟩
    obtain ⟨before, after, hf, hbefore, hafter⟩ := Text.exists_trimBy isAsciiBlank f
    obtain ⟨b, rfl, hb⟩ := Text.exists_encode_of_ascii lt_of_isAsciiBlank hbefore
    obtain ⟨a, rfl, ha⟩ := Text.exists_encode_of_ascii lt_of_isAsciiBlank hafter
    refine ⟨b ++ u ++ a, ?_, ?_⟩
    · rw [hf, hu, Text.encode_append, Text.encode_append]
    · rw [Text.trim_append (fun c hc => isBlank_of_onAscii c (hb c hc))
        fun c hc => isBlank_of_onAscii c (ha c hc)]
  · rintro ⟨u, rfl, rfl⟩
    rw [Text.trimBy_encode lt_of_isAsciiBlank]
    exact ⟨_, rfl, (Text.trimBy_trimBy isBlank_of_onAscii).symm⟩

theorem texts_eq_ok_iff {start : Start} {i : Nat} {fs : List (List UInt8)} {ss : List (List Char)} :
    texts start i fs = .ok ss ↔ List.Forall₂ Holds fs ss := by
  induction fs generalizing i ss with
  | nil =>
    rw [texts, List.forall₂_nil_left_iff]
    constructor
    · intro h
      exact (Except.ok.inj h).symm
    · rintro rfl
      rfl
  | cons f fs ih =>
    rw [texts, List.forall₂_cons_left_iff]
    split
    · next good hd =>
      constructor
      · intro h
        cases h
      · rintro ⟨s, _, ⟨u, hu, -⟩, -⟩
        rw [Text.decode_eq_ok_iff.2 hu] at hd
        cases hd
    · next u hd =>
      have hf := Text.decode_eq_ok_iff.1 hd
      rw [Outcome.bind_eq_ok_iff]
      constructor
      · rintro ⟨ts, ht, h⟩
        exact ⟨_, ts, ⟨u, hf, rfl⟩, ih.1 ht, (Except.ok.inj h).symm⟩
      · rintro ⟨s, ts, hs, ht, rfl⟩
        refine ⟨ts, ih.2 ht, ?_⟩
        rw [hs.unique ⟨u, hf, rfl⟩]
        rfl

theorem exists_of_texts_eq_error {start : Start} {i : Nat} {fs : List (List UInt8)} {e : LogFault}
    (h : texts start i fs = .error e) : ∃ before f after good,
      fs = before ++ f :: after ∧ (∀ g ∈ before, ∃ s, Holds g s) ∧ Text.decode f = .error good ∧
        e = .notUtf8 start (i + before.length) good := by
  induction fs generalizing i with
  | nil => cases h
  | cons f fs ih =>
    rw [texts] at h
    split at h
    · next good hd =>
      cases h
      exact ⟨[], f, fs, good, rfl, by simp, hd, rfl⟩
    · next u hd =>
      have hf := Text.decode_eq_ok_iff.1 hd
      cases ht : texts start (i + 1) fs with
      | ok ts =>
        rw [ht] at h
        cases h
      | error d =>
        rw [ht] at h
        cases h
        obtain ⟨before, g, after, good, rfl, hb, hg, rfl⟩ := ih ht
        refine ⟨f :: before, g, after, good, rfl, ?_, hg, ?_⟩
        · intro x hx
          rcases List.mem_cons.1 hx with rfl | hx
          · exact ⟨_, u, hf, rfl⟩
          · exact hb x hx
        · rw [List.length_cons, Nat.add_right_comm, Nat.add_assoc]

end Log

namespace Row

variable {k : LogKind}

theorem lookup_of_readFrom {i : Nat} {seen row : Row} {fields : List (String × List Char)}
    (h : readFrom k i seen fields = .ok row) {c : String} {v : Int64}
    (hc : seen.lookup c = some v) : row.lookup c = some v := by
  fun_induction readFrom k i seen fields with
  | case1 i seen => rwa [← Except.ok.inj h]
  | case2 => cases h
  | case3 i seen name text r hk hs w hw ih =>
    apply ih h
    rw [List.lookup_cons]
    split
    · next he =>
      rw [beq_iff_eq.1 he] at hc
      simp [hc] at hs
    · exact hc
  | case4 => cases h
  | case5 i seen name text r hk ih => exact ih h hc

theorem value_of_readFrom {i : Nat} {seen row : Row} {fields : List (String × List Char)}
    (h : readFrom k i seen fields = .ok row) {c : String} {s : List Char} (hm : (c, s) ∈ fields)
    (hc : c ∈ k.columns) : ∃ v, Integer.read s = .ok v ∧ row.lookup c = some v := by
  fun_induction readFrom k i seen fields with
  | case1 => simp at hm
  | case2 => cases h
  | case3 i seen name text r hk hs w hw ih =>
    rcases List.mem_cons.1 hm with he | hm
    · cases he
      exact ⟨w, hw, lookup_of_readFrom h (by simp)⟩
    · exact ih h hm
  | case4 => cases h
  | case5 i seen name text r hk ih =>
    rcases List.mem_cons.1 hm with he | hm
    · cases he
      exact absurd hc hk
    · exact ih h hm

/-- A row is read with each column of the kind once at most. -/
theorem count_of_readFrom {i : Nat} {seen row : Row} {fields : List (String × List Char)}
    (h : readFrom k i seen fields = .ok row) {c : String} (hc : c ∈ k.columns) :
    (fields.map Prod.fst).count c + (if (seen.lookup c).isSome then 1 else 0) ≤ 1 := by
  fun_induction readFrom k i seen fields with
  | case1 =>
    rw [List.map_nil, List.count_nil]
    split <;> omega
  | case2 => cases h
  | case3 i seen name text r hk hs w hw ih =>
    have hr := ih h
    by_cases he : c = name
    · subst he
      simp_all
    · have hb : (c == name) = false := by simpa using he
      rw [List.lookup_cons, hb] at hr
      rwa [List.map_cons, List.count_cons_of_ne (Ne.symm he)]
  | case4 => cases h
  | case5 i seen name text r hk ih =>
    have he : c ≠ name := fun he => hk (he ▸ hc)
    rw [List.map_cons, List.count_cons_of_ne (Ne.symm he)]
    exact ih h

theorem exists_of_readFrom_eq_error {i : Nat} {seen : Row} {fields : List (String × List Char)}
    {e : LogFault} (h : readFrom k i seen fields = .error e) : ∃ before c s after,
      fields = before ++ (c, s) :: after ∧ c ∈ k.columns ∧
        ((e = .repeatedColumn c ∧ ((seen.lookup c).isSome ∨ c ∈ before.map Prod.fst)) ∨
          ∃ fault, e = .badValue (i + before.length) fault ∧ Integer.read s = .error fault) := by
  fun_induction readFrom k i seen fields with
  | case1 => cases h
  | case2 i seen name text r hk hs =>
    cases h
    exact ⟨[], name, text, r, rfl, hk, .inl ⟨rfl, .inl hs⟩⟩
  | case3 i seen name text r hk hs w hw ih =>
    obtain ⟨before, c, s, after, rfl, hc, he⟩ := ih h
    refine ⟨(name, text) :: before, c, s, after, rfl, hc, ?_⟩
    rcases he with ⟨rfl, he⟩ | ⟨fault, rfl, hf⟩
    · refine .inl ⟨rfl, ?_⟩
      by_cases hn : c = name
      · exact .inr (by simp [hn])
      · have hb : (c == name) = false := by simpa using hn
        rw [List.lookup_cons, hb] at he
        exact he.imp id fun hm => by simp [hm]
    · exact .inr ⟨fault, by rw [List.length_cons, Nat.add_right_comm, Nat.add_assoc], hf⟩
  | case4 i seen name text r hk hs e hr =>
    cases h
    exact ⟨[], name, text, r, rfl, hk, .inr ⟨e, rfl, hr⟩⟩
  | case5 i seen name text r hk ih =>
    obtain ⟨before, c, s, after, rfl, hc, he⟩ := ih h
    refine ⟨(name, text) :: before, c, s, after, rfl, hc, ?_⟩
    rcases he with ⟨rfl, he⟩ | ⟨fault, rfl, hf⟩
    · exact .inl ⟨rfl, he.imp id fun hm => by simp [hm]⟩
    · exact .inr ⟨fault, by rw [List.length_cons, Nat.add_right_comm, Nat.add_assoc], hf⟩

end Row

end LatencyDigest
