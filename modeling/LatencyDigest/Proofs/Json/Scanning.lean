import LatencyDigest.Proofs.Json.Lexeme
import LatencyDigest.Proofs.Outcome

/-! The tokens of a text, one after the other. A token without a fault is that of a lexeme at the
front of the text, and the tokens after it are those of the rest. -/

namespace LatencyDigest.Json

namespace Lexeme

variable {x : Lexeme} {xs ys : List Lexeme} {s r t : List UInt8}

def isString : Lexeme → Bool
  | string _ => true
  | _ => false

/-- A text that begins with those lexemes, and the rest of it. -/
inductive Runs : List Lexeme → List UInt8 → List UInt8 → Prop where
  | nil {s : List UInt8} : Runs [] s s
  | cons {space s r t : List UInt8} {x : Lexeme} {xs : List Lexeme} (h : ∀ b ∈ space, isSpace b)
      (hx : x.Spells s) (hr : Runs xs r t) : Runs (x :: xs) (space ++ (s ++ r)) t

theorem Runs.append (h : Runs xs s r) (h' : Runs ys r t) : Runs (xs ++ ys) s t := by
  induction h with
  | nil => exact h'
  | cons hspace hx _ ih => exact .cons hspace hx (ih h')

theorem Runs.space {b : UInt8} (hb : isSpace b) (h : Runs (x :: xs) s r) :
    Runs (x :: xs) (b :: s) r := by
  cases h with
  | cons hspace hx hr => exact .cons (List.forall_mem_cons.2 ⟨hb, hspace⟩) hx hr

theorem Runs.spaced (h : Runs xs s r) (hr : ∀ b ∈ r, isSpace b) : Spaced xs s := by
  induction h with
  | nil => exact .nil hr
  | cons hspace hx _ ih => exact .cons hspace hx (ih hr)

end Lexeme

namespace Token

open Lexeme (Runs)

variable {t : Token} {ts : List Token} {x : Lexeme} {b : UInt8} {s r content : List UInt8}
  {skipped : Except Stop Unit}

/-- The token is that of the lexeme, and a string reads as nothing but what its text spells. -/
structure Bears (t : Token) (x : Lexeme) : Prop where
  is : t.Is x
  reads : ∀ {content skipped}, t.kind = .string (.ok content) skipped →
    ∃ body, x = .string body ∧ Quoted.Reads body content

theorem Bears.of_kind (h : t.Is x) (hk : ∀ read skipped, t.kind ≠ .string read skipped) :
    t.Bears x :=
  ⟨h, fun hs => absurd hs (hk _ _)⟩

theorem eq_append_of_letters {name : List Char} {n : Nat} (h : letters n name s = .ok ()) :
    ∃ r, s = name.map Char.toUInt8 ++ r := by
  induction name generalizing n s with
  | nil => exact ⟨s, rfl⟩
  | cons c name ih =>
    cases s with
    | nil => cases h
    | cons b s =>
      rw [letters] at h
      split at h
      · next hb =>
        obtain ⟨r, rfl⟩ := ih h
        exact ⟨r, by rw [hb]; rfl⟩
      · cases h

/-- The shapes of a token by its first byte: one byte, the letters of a word, a string, a number,
or none of these. -/
theorem ofByte_cases {motive : Token → Prop} (start : Nat) (b : UInt8) (r : List UInt8)
    (byte : ∀ {kind : Kind} {c : UInt8} {x : Lexeme}, b = c → x.Spells [c] →
      (⟨kind, start, 1⟩ : Token).Is x → (∀ read skipped, kind ≠ .string read skipped) →
      motive ⟨kind, start, 1⟩)
    (letters : ∀ {name : List Char} {value : Scalar} {x : Lexeme},
      x.Spells (name.map Char.toUInt8) → (∀ t : Token, t.kind = .word (.ok value) → t.Is x) →
      motive (word start name value (b :: r)))
    (quote : b = '"'.toUInt8 → motive (string start r)) (digit : motive (number start (b :: r)))
    (none : motive ⟨.other, start, 1⟩) : motive (ofByte start b r) := by
  rw [ofByte]
  by_cases hb : b = '['.toUInt8
  · rw [if_pos hb]
    exact byte (x := .listOpen) hb .listOpen rfl (by simp)
  rw [if_neg hb]
  by_cases hb : b = ']'.toUInt8
  · rw [if_pos hb]
    exact byte (x := .listClose) hb .listClose rfl (by simp)
  rw [if_neg hb]
  by_cases hb : b = '\x7b'.toUInt8
  · rw [if_pos hb]
    exact byte (x := .objectOpen) hb .objectOpen rfl (by simp)
  rw [if_neg hb]
  by_cases hb : b = '\x7d'.toUInt8
  · rw [if_pos hb]
    exact byte (x := .objectClose) hb .objectClose rfl (by simp)
  rw [if_neg hb]
  by_cases hb : b = ','.toUInt8
  · rw [if_pos hb]
    exact byte (x := .comma) hb .comma rfl (by simp)
  rw [if_neg hb]
  by_cases hb : b = ':'.toUInt8
  · rw [if_pos hb]
    exact byte (x := .colon) hb .colon rfl (by simp)
  rw [if_neg hb]
  by_cases hb : b = 'n'.toUInt8
  · rw [if_pos hb]
    exact letters .null fun _ => id
  rw [if_neg hb]
  by_cases hb : b = 't'.toUInt8
  · rw [if_pos hb]
    exact letters .true fun _ => id
  rw [if_neg hb]
  by_cases hb : b = 'f'.toUInt8
  · rw [if_pos hb]
    exact letters .false fun _ => id
  rw [if_neg hb]
  by_cases hb : b = '"'.toUInt8
  · rw [if_pos hb]
    exact quote hb
  rw [if_neg hb]
  by_cases hb : b = '-'.toUInt8 ∨ isDigit b
  · rw [if_pos hb]
    exact digit
  · rw [if_neg hb]
    exact none

/-- What a token without a fault says of the text that it was read from. -/
def Found (t : Token) (text : List UInt8) : Prop :=
  t.isFaulty = false → ∃ x s r, text = s ++ r ∧ x.Spells s ∧ t.size = s.length ∧ t.Bears x

theorem found_word {start : Nat} {name : List Char} {value : Scalar} {text : List UInt8}
    (hx : x.Spells (name.map Char.toUInt8))
    (his : ∀ t : Token, t.kind = .word (.ok value) → t.Is x) :
    Found (word start name value text) text := by
  intro h
  cases hfound : letters 0 name text with
  | error e => simp [word, hfound, isFaulty, Except.mapError, Except.map] at h
  | ok u =>
    obtain ⟨r, rfl⟩ := eq_append_of_letters hfound
    have hkind : (word start name value (name.map Char.toUInt8 ++ r)).kind = .word (.ok value) := by
      rw [word, hfound]
      rfl
    refine ⟨x, _, r, rfl, hx, (List.length_map _).symm, .of_kind (his _ hkind) ?_⟩
    simp [hkind]

theorem found_number (start : Nat) (text : List UInt8) : Found (number start text) text := by
  intro h
  cases hscan : Literal.scan text with
  | error e => simp [number, hscan, isFaulty] at h
  | ok p =>
    obtain ⟨l, n⟩ := p
    obtain ⟨s, r, rfl, hs, rfl⟩ := Literal.spells_of_scan hscan
    have hnumber : number start (s ++ r) = ⟨.number (.ok l), start, s.length⟩ := by
      rw [number, hscan]
    rw [hnumber]
    refine ⟨.number l, s, r, rfl, .number hs, rfl, .of_kind rfl fun read skipped hkind => ?_⟩
    cases hkind

/-- A string that can be read can be passed over. -/
theorem skip_of_read (h : Quoted.read .text 1 [] s = .ok content) :
    ∃ body r, s = body ++ '"'.toUInt8 :: r ∧ Quoted.Reads body content ∧
      Quoted.skip .text 1 s = .ok (1 + body.length + 1) := by
  obtain ⟨body, r, u, rfl, hreads, rfl⟩ := Quoted.reads_of_read h
  exact ⟨body, r, rfl, hreads, Quoted.skip_append hreads.body 1 r⟩

theorem found_string (start : Nat) (text : List UInt8) :
    Found (string start text) ('"'.toUInt8 :: text) := by
  intro h
  cases hskip : Quoted.skip .text 1 text with
  | error e => simp [string, hskip, isFaulty] at h
  | ok n =>
    obtain ⟨body, r, htext, hbody, rfl⟩ := Quoted.body_of_skip hskip
    have hstring : (string start text).kind = .string ((Quoted.read .text 1 [] text).mapError
        fun e => ⟨e.1, some (start + e.2)⟩) (.ok ()) := by
      rw [string, hskip]
    have hsize : (string start text).size = 1 + body.length + 1 := by rw [string, hskip]
    refine ⟨.string body, _, r, ?_, .string hbody, ?_, ⟨⟨_, hstring, fun content hc => ?_⟩, ?_⟩⟩
    · rw [htext]
      simp
    · rw [hsize]
      simp
      omega
    · rw [htext, Quoted.read_append hc]
      rfl
    · intro content skipped hkind
      rw [hstring] at hkind
      have hread := Outcome.mapError_eq_ok_iff.1 (Kind.string.inj hkind).1
      obtain ⟨body', r', htext', hreads, hskip'⟩ := skip_of_read hread
      rw [hskip] at hskip'
      have hlength : body.length = body'.length := by
        have := Except.ok.inj hskip'
        omega
      obtain rfl := (List.append_inj (htext.symm.trans htext') hlength).1
      exact ⟨body, rfl, hreads⟩

theorem found_ofByte (start : Nat) (b : UInt8) (r : List UInt8) :
    Found (ofByte start b r) (b :: r) := by
  refine ofByte_cases (motive := fun t => t.Found (b :: r)) start b r ?_ found_word ?_
    (found_number start _) ?_
  · rintro kind c x rfl hx his hk -
    exact ⟨x, [b], r, rfl, hx, rfl, .of_kind his hk⟩
  · rintro rfl
    exact found_string start r
  · exact fun h => absurd h (by simp [isFaulty])

/-- Those are the tokens from the front of the text on. -/
def Scans (s : List UInt8) (ts : List Token) : Prop := ∃ offset, listFrom offset 0 s = ts

theorem scans_list (s : List UInt8) : Scans s (list s) := ⟨0, rfl⟩

/-- Only spaces have no token. -/
theorem Scans.isSpace (h : Scans s []) : ∀ b ∈ s, isSpace b := by
  obtain ⟨offset, h⟩ := h
  induction s generalizing offset with
  | nil => exact List.forall_mem_nil _
  | cons b s ih =>
    rw [listFrom] at h
    split at h
    · next hb => exact List.forall_mem_cons.2 ⟨hb, ih _ h⟩
    · cases h

theorem Scans.uncons (h : Scans s (t :: ts)) (ht : t.isFaulty = false) :
    ∃ x r, Runs [x] s r ∧ t.Bears x ∧ Scans r ts := by
  obtain ⟨offset, h⟩ := h
  induction s generalizing offset with
  | nil => cases h
  | cons b s ih =>
    rw [listFrom] at h
    split at h
    · next hb =>
      obtain ⟨x, r, hruns, hx, hr⟩ := ih _ h
      exact ⟨x, r, hruns.space hb, hx, hr⟩
    · obtain ⟨rfl, hrest⟩ := List.cons.inj h
      rw [if_neg (by simp [ht])] at hrest
      obtain ⟨x, w, r, htext, hx, hsize, hbears⟩ := found_ofByte offset b s ht
      refine ⟨x, r, ?_, hbears, ?_⟩
      · rw [htext]
        exact .cons (List.forall_mem_nil _) hx .nil
      · obtain ⟨c, w, rfl⟩ : ∃ c w', w = c :: w' := by
          cases hx with
          | number h =>
            obtain ⟨c, w, rfl, -⟩ := h.head
            exact ⟨c, w, rfl⟩
          | _ => exact ⟨_, _, rfl⟩
        have hs : s = w ++ r := (List.cons.inj htext).2
        rw [hsize, listFrom_drop, List.length_cons, Nat.add_sub_cancel, hs, List.drop_left] at hrest
        exact ⟨_, hrest⟩

theorem kind_number (start : Nat) (text : List UInt8) :
    ∃ value, (number start text).kind = .number value := by
  rw [number]
  split <;> exact ⟨_, rfl⟩

theorem isFaulty_string {start : Nat} (h : (string start r).kind = .string (.ok content) skipped) :
    (string start r).isFaulty = false := by
  have hread : ∃ content, Quoted.read .text 1 [] r = .ok content := by
    rw [string] at h
    split at h <;> exact ⟨content, Outcome.mapError_eq_ok_iff.1 (Kind.string.inj h).1⟩
  obtain ⟨content, hread⟩ := hread
  obtain ⟨_, _, _, _, hskip⟩ := skip_of_read hread
  rw [string, hskip]
  rfl

/-- A string that can be read is no fault for one who passes over it. -/
theorem isFaulty_ofByte {start : Nat} :
    (ofByte start b r).kind = .string (.ok content) skipped →
      (ofByte start b r).isFaulty = false := by
  refine ofByte_cases (motive := fun t => t.kind = .string (.ok content) skipped →
    t.isFaulty = false) start b r ?_ ?_ (fun _ => isFaulty_string) ?_ ?_
  · exact fun _ _ _ hk h => absurd h (hk _ _)
  · exact fun _ _ h => by cases h
  · intro h
    obtain ⟨value, hvalue⟩ := kind_number start (b :: r)
    rw [hvalue] at h
    cases h
  · exact fun h => by cases h

theorem isFaulty_of_read (h : Scans s (t :: ts)) (ht : t.kind = .string (.ok content) skipped) :
    t.isFaulty = false := by
  obtain ⟨offset, h⟩ := h
  induction s generalizing offset with
  | nil => cases h
  | cons b s ih =>
    rw [listFrom] at h
    split at h
    · exact ih _ h
    · obtain ⟨rfl, -⟩ := List.cons.inj h
      exact isFaulty_ofByte ht

theorem Is.eq {y : Lexeme} (hx : t.Is x) (hy : t.Is y) (hs : y.isString = false) : x = y := by
  cases x <;> cases y <;> simp_all [Is, Lexeme.isString]

theorem Scans.uncons_of_is (h : Scans s (t :: ts)) (hx : t.Is x) (hs : x.isString = false) :
    ∃ r, Runs [x] s r ∧ Scans r ts := by
  obtain ⟨y, r, hruns, hy, hr⟩ := h.uncons hx.isFaulty
  obtain rfl := hy.is.eq hx hs
  exact ⟨r, hruns, hr⟩

theorem Scans.uncons_of_read (h : Scans s (t :: ts))
    (ht : t.kind = .string (.ok content) skipped) :
    ∃ body r, Runs [.string body] s r ∧ Quoted.Reads body content ∧ Scans r ts := by
  obtain ⟨x, r, hruns, hx, hr⟩ := h.uncons (isFaulty_of_read h ht)
  obtain ⟨body, rfl, hreads⟩ := hx.reads ht
  exact ⟨body, r, hruns, hreads, hr⟩

end Token

end LatencyDigest.Json
