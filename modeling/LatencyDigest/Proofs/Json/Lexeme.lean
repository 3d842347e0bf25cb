import LatencyDigest.Json.Token
import LatencyDigest.Proofs.Json.Literal
import LatencyDigest.Proofs.Json.Quoted
import Mathlib.Data.List.Chain
import Mathlib.Data.List.Forall2

/-! What a JSON text is made of. White space may stand in front of each lexeme and behind the last;
the tokens of the text are those of its lexemes. -/

namespace LatencyDigest.Json

inductive Lexeme where
  | listOpen
  | listClose
  | objectOpen
  | objectClose
  | comma
  | colon
  | null
  | boolean (b : Bool)
  | number (l : Literal)
  | string (body : List UInt8)

namespace Lexeme

inductive Spells : Lexeme → List UInt8 → Prop where
  | listOpen : Spells .listOpen ['['.toUInt8]
  | listClose : Spells .listClose [']'.toUInt8]
  | objectOpen : Spells .objectOpen ['\x7b'.toUInt8]
  | objectClose : Spells .objectClose ['\x7d'.toUInt8]
  | comma : Spells .comma [','.toUInt8]
  | colon : Spells .colon [':'.toUInt8]
  | null : Spells .null (['n', 'u', 'l', 'l'].map Char.toUInt8)
  | true : Spells (.boolean true) (['t', 'r', 'u', 'e'].map Char.toUInt8)
  | false : Spells (.boolean false) (['f', 'a', 'l', 's', 'e'].map Char.toUInt8)
  | number {l : Literal} {s : List UInt8} (h : l.Spells s) : Spells (.number l) s
  | string {body : List UInt8} (h : Quoted.Body body) :
      Spells (.string body) ('"'.toUInt8 :: (body ++ ['"'.toUInt8]))

def isNumber : Lexeme → Bool
  | number _ => true
  | _ => false

/-- Two numbers run into one another where no space is between them. -/
def Apart (x y : Lexeme) : Prop := x.isNumber = false ∨ y.isNumber = false

/-- The texts of a list of lexemes. -/
inductive Spaced : List Lexeme → List UInt8 → Prop where
  | nil {space : List UInt8} (h : ∀ b ∈ space, isSpace b) : Spaced [] space
  | cons {space s r : List UInt8} {x : Lexeme} {xs : List Lexeme} (h : ∀ b ∈ space, isSpace b)
      (hx : x.Spells s) (hr : Spaced xs r) : Spaced (x :: xs) (space ++ (s ++ r))

/-- A lexeme with nothing in front of it. -/
theorem Spaced.next {x : Lexeme} {xs : List Lexeme} {s r : List UInt8} (hx : x.Spells s)
    (hr : Spaced xs r) : Spaced (x :: xs) (s ++ r) :=
  .cons (List.forall_mem_nil _) hx hr

end Lexeme

namespace Token

/-- The token of a lexeme. A string is known by what it reads as, if it reads as anything. -/
def Is (t : Token) : Lexeme → Prop
  | .listOpen => t.kind = .listOpen
  | .listClose => t.kind = .listClose
  | .objectOpen => t.kind = .objectOpen
  | .objectClose => t.kind = .objectClose
  | .comma => t.kind = .comma
  | .colon => t.kind = .colon
  | .null => t.kind = .word (.ok .null)
  | .boolean b => t.kind = .word (.ok (.boolean b))
  | .number l => t.kind = .number (.ok l)
  | .string body => ∃ read, t.kind = .string read (.ok ()) ∧
      ∀ s, Quoted.Reads body s → read = .ok s

variable {t : Token} {x : Lexeme} {b : UInt8} {s r : List UInt8}

theorem Is.isFaulty (h : t.Is x) : t.isFaulty = false := by
  cases x with
  | string body =>
    obtain ⟨read, h, -⟩ := h
    rw [Token.isFaulty, h]
  | _ => rw [Token.isFaulty, (h : t.kind = _)]

theorem ne_of_isDigit {c : UInt8} (hb : isDigit b) (hc : isDigit c = false) : b ≠ c := by
  rintro rfl
  rw [hb] at hc
  cases hc

theorem ofByte_number (start : Nat) (h : b = '-'.toUInt8 ∨ isDigit b) (r : List UInt8) :
    ofByte start b r = number start (b :: r) := by
  rcases h with rfl | hb
  · rfl
  · rw [ofByte]
    repeat rw [if_neg (ne_of_isDigit hb rfl)]
    rw [if_pos (.inr hb)]

theorem isSpace_number (h : b = '-'.toUInt8 ∨ isDigit b) : isSpace b = false := by
  rcases h with rfl | hb
  · rfl
  · have hne {c : UInt8} (hc : isDigit c = false) : b ≠ c := ne_of_isDigit hb hc
    simp only [isSpace, Bool.or_eq_false_iff, decide_eq_false_iff_not]
    exact ⟨⟨⟨hne rfl, hne rfl⟩, hne rfl⟩, hne rfl⟩

/-- The token at the first byte of a lexeme. -/
theorem is_ofByte (start : Nat) (h : x.Spells (b :: s))
    (hr : x.isNumber → NoneNext Literal.goesOn r) :
    (ofByte start b (s ++ r)).Is x ∧ (ofByte start b (s ++ r)).size = s.length + 1 ∧
      isSpace b = false := by
  generalize ht : b :: s = text at h
  cases h with
  | number h =>
    subst ht
    obtain ⟨_, _, hhead, hb⟩ := h.head
    cases hhead
    have hscan := Literal.scan_append h (hr rfl)
    rw [List.cons_append] at hscan
    rw [ofByte_number start hb, number, hscan]
    exact ⟨rfl, rfl, isSpace_number hb⟩
  | @string body h =>
    cases ht
    have hskip := Quoted.skip_append h 1 r
    have hr : body ++ ['"'.toUInt8] ++ r = body ++ '"'.toUInt8 :: r := by simp
    change (string start (body ++ ['"'.toUInt8] ++ r)).Is _ ∧
      (string start (body ++ ['"'.toUInt8] ++ r)).size = _ ∧ _
    rw [string, hr, hskip]
    refine ⟨⟨_, rfl, fun t ht => ?_⟩, ?_, rfl⟩
    · rw [Quoted.read_append ht]
      rfl
    · change 1 + body.length + 1 = _
      rw [List.length_append, List.length_singleton]
      omega
  | _ =>
    cases ht
    exact ⟨rfl, rfl, rfl⟩

theorem listFrom_drop (offset n : Nat) (s : List UInt8) :
    listFrom offset n s = listFrom (offset + n) 0 (s.drop n) := by
  induction n generalizing offset s with
  | zero => rfl
  | succ n ih =>
    cases s with
    | nil => simp [listFrom]
    | cons b r =>
      rw [listFrom, ih, List.drop_succ_cons]
      congr 1
      omega

theorem listFrom_space (offset : Nat) (hs : ∀ b ∈ s, isSpace b) (r : List UInt8) :
    listFrom offset 0 (s ++ r) = listFrom (offset + s.length) 0 r := by
  induction s generalizing offset with
  | nil => rfl
  | cons b s ih =>
    obtain ⟨hb, hs⟩ := List.forall_mem_cons.1 hs
    rw [List.cons_append, listFrom, if_pos hb, ih _ hs, List.length_cons]
    congr 1
    omega

theorem listFrom_lexeme (offset : Nat) (h : x.Spells s)
    (hr : x.isNumber → NoneNext Literal.goesOn r) :
    ∃ t, t.Is x ∧ listFrom offset 0 (s ++ r) = t :: listFrom (offset + s.length) 0 r := by
  obtain ⟨b, s, rfl⟩ : ∃ b s', s = b :: s' := by
    cases h with
    | number h =>
      obtain ⟨b, t, rfl, -⟩ := h.head
      exact ⟨b, t, rfl⟩
    | _ => exact ⟨_, _, rfl⟩
  obtain ⟨his, hsize, hspace⟩ := is_ofByte offset h hr
  refine ⟨_, his, ?_⟩
  rw [List.cons_append, listFrom, if_neg (by simp [hspace])]
  dsimp only
  rw [if_neg (by simp [his.isFaulty]), hsize, listFrom_drop, Nat.add_sub_cancel, List.drop_left,
    List.length_cons]
  congr 2
  omega

end Token

namespace Lexeme

variable {x : Lexeme} {xs : List Lexeme} {s r : List UInt8}

theorem goesOn_of_isSpace {b : UInt8} (h : isSpace b) : Literal.goesOn b = false := by
  simp only [isSpace, Bool.or_eq_true, decide_eq_true_eq] at h
  rcases h with ((rfl | rfl) | rfl) | rfl <;> rfl

/-- A number does not run into what follows it, unless that is a number. -/
theorem Spaced.noneNext (h : Spaced xs r) (hxs : ∀ x ∈ xs.head?, x.isNumber = false) :
    NoneNext Literal.goesOn r := by
  intro b hb
  cases h with
  | nil hspace => exact goesOn_of_isSpace (hspace b (List.mem_of_mem_head? hb))
  | @cons space s r x xs hspace hx =>
    cases space with
    | cons c space =>
      cases hb
      exact goesOn_of_isSpace (hspace _ List.mem_cons_self)
    | nil =>
      cases hx with
      | number => cases hxs _ rfl
      | _ =>
        cases hb
        rfl

/-- The tokens of a text are those of its lexemes. -/
theorem Spaced.is_listFrom (h : Spaced xs s) (hxs : xs.IsChain Apart) (offset : Nat) :
    List.Forall₂ Token.Is (Token.listFrom offset 0 s) xs := by
  induction h generalizing offset with
  | @nil space hspace =>
    rw [← List.append_nil space, Token.listFrom_space offset hspace, Token.listFrom]
    exact .nil
  | @cons space s r x xs hspace hx hr ih =>
    have hnext : x.isNumber → NoneNext Literal.goesOn r := by
      intro hnumber
      refine hr.noneNext fun y hy => ?_
      obtain ⟨xs, rfl⟩ : ∃ ys, xs = y :: ys := by
        cases xs with
        | nil => cases hy
        | cons z xs =>
          cases hy
          exact ⟨xs, rfl⟩
      rcases hxs.rel with hx | hy
      · rw [hnumber] at hx
        cases hx
      · exact hy
    rw [Token.listFrom_space offset hspace]
    obtain ⟨t, ht, hlist⟩ := Token.listFrom_lexeme (offset + space.length) hx hnext
    rw [hlist]
    exact .cons ht (ih hxs.tail _)

end Lexeme

end LatencyDigest.Json
