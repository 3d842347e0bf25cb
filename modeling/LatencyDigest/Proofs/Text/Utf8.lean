import LatencyDigest.Outcome
import LatencyDigest.Proofs.Text.Trimming
import LatencyDigest.Text.Utf8

/-! Decoding and encoding are inverse: what decodes is what encoding gives, and each text is read
back. A byte below `0x80` stands for itself only, so it can be looked for and trimmed on either
side. -/

namespace LatencyDigest.Text

theorem scalar?_eq_some_iff {least code : Nat} {c : Char} :
    scalar? least code = some c ↔ least ≤ code ∧ c.toNat = code := by
  rw [scalar?]
  constructor
  · intro h
    by_cases hv : least ≤ code ∧ code.isValidChar
    · rw [dif_pos hv] at h
      rw [← Option.some.inj h]
      exact ⟨hv.1, rfl⟩
    · rw [dif_neg hv] at h
      cases h
  · rintro ⟨hl, rfl⟩
    have hv : c.toNat.isValidChar := c.valid
    rw [dif_pos ⟨hl, hv⟩]
    rfl

theorem isContinuation_iff {b : UInt8} : isContinuation b ↔ 0x80 ≤ b.toNat ∧ b.toNat < 0xC0 := by
  simp [isContinuation, UInt8.le_iff_toNat_le, UInt8.lt_iff_toNat_lt]

theorem toNat_lt (c : Char) : c.toNat < 0x110000 := by
  have := c.valid
  simp only [UInt32.isValidChar, Nat.isValidChar] at this
  simp only [Char.toNat]
  omega

/-- The bytes of a character: a lead byte by the size of its number, then six bits a byte. -/
inductive CharBytes (c : Char) : List UInt8 → Prop
  | one {a} : c.toNat < 0x80 → a.toNat = c.toNat → CharBytes c [a]
  | two {a b} : 0x80 ≤ c.toNat → c.toNat < 0x800 → a.toNat = 0xC0 + c.toNat / 64 →
      b.toNat = 0x80 + c.toNat % 64 → CharBytes c [a, b]
  | three {a b d} : 0x800 ≤ c.toNat → c.toNat < 0x10000 → a.toNat = 0xE0 + c.toNat / 4096 →
      b.toNat = 0x80 + c.toNat / 64 % 64 → d.toNat = 0x80 + c.toNat % 64 → CharBytes c [a, b, d]
  | four {a b d e} : 0x10000 ≤ c.toNat → a.toNat = 0xF0 + c.toNat / 262144 →
      b.toNat = 0x80 + c.toNat / 4096 % 64 → d.toNat = 0x80 + c.toNat / 64 % 64 →
      e.toNat = 0x80 + c.toNat % 64 → CharBytes c [a, b, d, e]

theorem charBytes_utf8EncodeChar (c : Char) : CharBytes c (String.utf8EncodeChar c) := by
  have hc : c.val.toNat < 0x110000 := toNat_lt c
  simp only [String.utf8EncodeChar]
  split
  · refine .one ?_ ?_ <;> simp only [Char.toNat, UInt8.toNat_ofNat'] <;> omega
  · split
    · refine .two ?_ ?_ ?_ ?_ <;> simp only [Char.toNat, UInt8.toNat_ofNat'] <;> omega
    · split
      · refine .three ?_ ?_ ?_ ?_ ?_ <;> simp only [Char.toNat, UInt8.toNat_ofNat'] <;> omega
      · refine .four ?_ ?_ ?_ ?_ ?_ <;> simp only [Char.toNat, UInt8.toNat_ofNat'] <;> omega

theorem CharBytes.unique {c : Char} {s t : List UInt8} (hs : CharBytes c s) (ht : CharBytes c t) :
    s = t := by
  cases hs <;> cases ht <;> (try omega) <;>
    simp only [List.cons.injEq, ← UInt8.toNat_inj, and_true] <;> omega

theorem firstChar?_of_charBytes {c : Char} {s : List UInt8} (h : CharBytes c s) (r : List UInt8) :
    firstChar? (s ++ r) = some (c, r) := by
  have hc := toNat_lt c
  cases h with
  | @one a hn ha =>
    have hs : scalar? 0 a.toNat = some c := scalar?_eq_some_iff.2 ⟨by omega, by omega⟩
    simp only [List.cons_append, List.nil_append, firstChar?, UInt8.lt_iff_toNat_lt,
      UInt8.reduceToNat]
    rw [if_pos (by omega), hs]
    rfl
  | @two a b hl hn ha hb =>
    have hs : scalar? 0x80 (codeOf (a.toNat % 32) [b]) = some c := by
      rw [scalar?_eq_some_iff, codeOf, List.foldl, List.foldl]
      omega
    have kb : isContinuation b := isContinuation_iff.2 (by omega)
    simp only [List.cons_append, List.nil_append, firstChar?, UInt8.lt_iff_toNat_lt,
      UInt8.reduceToNat]
    rw [if_neg (by omega), if_neg (by omega), if_pos (by omega), if_pos kb, hs]
    rfl
  | @three a b d hl hn ha hb hd =>
    have hs : scalar? 0x800 (codeOf (a.toNat % 16) [b, d]) = some c := by
      rw [scalar?_eq_some_iff, codeOf, List.foldl, List.foldl, List.foldl]
      omega
    have kb : isContinuation b := isContinuation_iff.2 (by omega)
    have kd : isContinuation d := isContinuation_iff.2 (by omega)
    simp only [List.cons_append, List.nil_append, firstChar?, UInt8.lt_iff_toNat_lt,
      UInt8.reduceToNat]
    rw [if_neg (by omega), if_neg (by omega), if_neg (by omega), if_pos (by omega),
      if_pos (by simp [kb, kd]), hs]
    rfl
  | @four a b d e hl ha hb hd he =>
    have hs : scalar? 0x10000 (codeOf (a.toNat % 8) [b, d, e]) = some c := by
      rw [scalar?_eq_some_iff, codeOf, List.foldl, List.foldl, List.foldl, List.foldl]
      omega
    have kb : isContinuation b := isContinuation_iff.2 (by omega)
    have kd : isContinuation d := isContinuation_iff.2 (by omega)
    have ke : isContinuation e := isContinuation_iff.2 (by omega)
    simp only [List.cons_append, List.nil_append, firstChar?, UInt8.lt_iff_toNat_lt,
      UInt8.reduceToNat]
    rw [if_neg (by omega), if_neg (by omega), if_neg (by omega), if_neg (by omega),
      if_pos (by omega), if_pos (by simp [kb, kd, ke]), hs]
    rfl

theorem charBytes_of_firstChar? {s r : List UInt8} {c : Char} (h : firstChar? s = some (c, r)) :
    ∃ w, CharBytes c w ∧ s = w ++ r := by
  unfold firstChar? at h
  repeat' split at h
  all_goals
    simp only [Option.map_eq_some_iff, Prod.mk.injEq, reduceCtorEq, scalar?_eq_some_iff] at h
  all_goals
    obtain ⟨d, ⟨hl, hd⟩, rfl, rfl⟩ := h
    simp only [UInt8.lt_iff_toNat_lt, UInt8.reduceToNat, codeOf, List.foldl, Bool.and_eq_true,
      isContinuation_iff] at *
  · exact ⟨[_], .one (by omega) (by omega), rfl⟩
  · exact ⟨[_, _], .two (by omega) (by omega) (by omega) (by omega), rfl⟩
  · exact ⟨[_, _, _], .three (by omega) (by omega) (by omega) (by omega) (by omega), rfl⟩
  · exact ⟨[_, _, _, _], .four (by omega) (by omega) (by omega) (by omega) (by omega), rfl⟩

@[simp] theorem encode_nil : encode [] = [] := rfl

theorem encode_cons (c : Char) (s : List Char) :
    encode (c :: s) = String.utf8EncodeChar c ++ encode s := rfl

@[simp] theorem encode_append (s t : List Char) : encode (s ++ t) = encode s ++ encode t :=
  List.flatMap_append

theorem firstChar?_encode (c : Char) (s : List Char) (r : List UInt8) :
    firstChar? (encode (c :: s) ++ r) = some (c, encode s ++ r) := by
  rw [encode_cons, List.append_assoc]
  exact firstChar?_of_charBytes (charBytes_utf8EncodeChar c) (encode s ++ r)

theorem decodeFrom_encode (good : Nat) (s : List Char) : decodeFrom good (encode s) = .ok s := by
  induction s generalizing good with
  | nil =>
    rw [decodeFrom]
    rfl
  | cons c s ih =>
    have hf := firstChar?_encode c s []
    simp only [List.append_nil] at hf
    rw [decodeFrom]
    split
    · next d r h =>
      rw [hf] at h
      cases h
      rw [ih]
      rfl
    · next h =>
      rw [hf] at h
      cases h

@[simp] theorem decode_encode (s : List Char) : decode (encode s) = .ok s := decodeFrom_encode 0 s

theorem encode_of_decodeFrom {good : Nat} {f : List UInt8} {s : List Char}
    (h : decodeFrom good f = .ok s) : f = encode s := by
  fun_induction decodeFrom good f generalizing s with
  | case1 good f c r hf _ ih =>
    obtain ⟨t, ht, rfl⟩ := Outcome.map_eq_ok_iff.1 h
    obtain ⟨w, hw, rfl⟩ := charBytes_of_firstChar? hf
    rw [ih ht, hw.unique (charBytes_utf8EncodeChar c)]
    rfl
  | case2 good f hf he =>
    cases h
    simpa using he
  | case3 => cases h

theorem decode_eq_ok_iff {f : List UInt8} {s : List Char} : decode f = .ok s ↔ f = encode s := by
  constructor
  · exact encode_of_decodeFrom
  · rintro rfl
    exact decode_encode s

theorem encode_injective : Function.Injective encode := by
  intro s t h
  have hd := congrArg decode h
  simpa [decode_encode] using hd

theorem utf8EncodeChar_ascii {c : Char} (h : c.toNat < 0x80) :
    String.utf8EncodeChar c = [UInt8.ofNat c.toNat] :=
  (charBytes_utf8EncodeChar c).unique (.one h (by rw [UInt8.toNat_ofNat']; omega))

theorem toNat_of_mem_utf8EncodeChar {c : Char} {b : UInt8} (h : b ∈ String.utf8EncodeChar c)
    (hb : b.toNat < 0x80) : c.toNat = b.toNat := by
  have hc := charBytes_utf8EncodeChar c
  generalize String.utf8EncodeChar c = w at h hc
  cases hc <;> simp only [List.mem_cons, List.not_mem_nil, or_false, ← UInt8.toNat_inj] at h <;>
    omega

/-- A class of bytes below `0x80`, as a class of characters. -/
def onAscii (p : UInt8 → Bool) (c : Char) : Bool := c.toNat < 0x80 && p (UInt8.ofNat c.toNat)

theorem onAscii_of_toNat {p : UInt8 → Bool} {c : Char} {b : UInt8} (h : c.toNat = b.toNat)
    (hb : b.toNat < 0x80) : onAscii p c = p b := by
  simp [onAscii, h, hb]

theorem all_encode {p : UInt8 → Bool} {s : List Char} (h : ∀ c ∈ s, onAscii p c) :
    ∀ b ∈ encode s, p b := by
  intro b hb
  obtain ⟨c, hc, hm⟩ := List.mem_flatMap.1 hb
  have ha := h c hc
  simp only [onAscii, Bool.and_eq_true, decide_eq_true_eq] at ha
  rw [utf8EncodeChar_ascii ha.1, List.mem_singleton] at hm
  rw [hm]
  exact ha.2

section
variable {p : UInt8 → Bool} (hp : ∀ b, p b → b.toNat < 0x80)
include hp

theorem exists_encode_of_ascii {f : List UInt8} (h : ∀ b ∈ f, p b) :
    ∃ s, f = encode s ∧ ∀ c ∈ s, onAscii p c := by
  induction f with
  | nil => exact ⟨[], rfl, by simp⟩
  | cons b f ih =>
    obtain ⟨s, rfl, hs⟩ := ih fun x hx => h x (List.mem_cons_of_mem b hx)
    have hb := hp b (h b List.mem_cons_self)
    obtain ⟨c, hn⟩ : ∃ c : Char, c.toNat = b.toNat :=
      ⟨Char.ofNatAux b.toNat (Or.inl (by omega)), rfl⟩
    refine ⟨c :: s, ?_, ?_⟩
    · rw [encode_cons, utf8EncodeChar_ascii (by omega), hn, UInt8.ofNat_toNat]
      rfl
    · intro d hd
      rcases List.mem_cons.1 hd with rfl | hd
      · rw [onAscii_of_toNat hn hb]
        exact h b List.mem_cons_self
      · exact hs d hd

theorem trimBy_encode (s : List Char) : trimBy p (encode s) = encode (trimBy (onAscii p) s) := by
  obtain ⟨before, after, hs, hb, ha⟩ := exists_trimBy (onAscii p) s
  have hh := head_trimBy (p := onAscii p) (s := s)
  have hl := getLast_trimBy (p := onAscii p) (s := s)
  generalize trimBy (onAscii p) s = m at hs hh hl
  rw [hs, encode_append, encode_append, trimBy_append (all_encode hb) (all_encode ha)]
  -- An end byte in the class is a character in the class by itself.
  apply trimBy_eq_self
  · intro b hb
    cases m with
    | nil => simp at hb
    | cons c m =>
      by_contra hc
      have hc : p b := by simpa using hc
      have hm : b ∈ String.utf8EncodeChar c := by
        rw [encode_cons, List.head?_append_of_ne_nil _ String.utf8EncodeChar_ne_nil] at hb
        exact List.mem_of_mem_head? hb
      have hn := toNat_of_mem_utf8EncodeChar hm (hp b hc)
      rw [← onAscii_of_toNat (p := p) hn (hp b hc), hh c rfl] at hc
      cases hc
  · intro b hb
    cases m using List.reverseRecOn with
    | nil => simp at hb
    | append_singleton m c =>
      by_contra hc
      have hc : p b := by simpa using hc
      have hm : b ∈ String.utf8EncodeChar c := by
        rw [encode_append, encode_cons, encode_nil, List.append_nil,
          List.getLast?_append_of_ne_nil _ String.utf8EncodeChar_ne_nil] at hb
        exact List.mem_of_mem_getLast? hb
      have hn := toNat_of_mem_utf8EncodeChar hm (hp b hc)
      rw [← onAscii_of_toNat (p := p) hn (hp b hc), hl c (by simp)] at hc
      cases hc

end

end LatencyDigest.Text
