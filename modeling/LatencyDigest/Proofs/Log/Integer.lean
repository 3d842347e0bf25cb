import LatencyDigest.Log.Integer
import LatencyDigest.Proofs.Text.Trimming

/-! A number of 64 bits is read back from the digits that it is printed with. -/

namespace LatencyDigest.Integer

open Text

theorem digit?_of_isDigit {c : Char} (h : c.isDigit) :
    digit? 10 c = some (c.toNat - '0'.toNat) := by
  have hc : '0'.toNat ≤ c.toNat ∧ c.toNat ≤ '9'.toNat := toNat_of_isDigit h
  have hn : '0'.toNat = 48 ∧ '9'.toNat = 57 := by decide
  simp only [digit?]
  rw [if_pos hc, Option.filter_some, if_pos (by simp only [decide_eq_true_eq]; omega)]

theorem le_ofDigitChars (n : Nat) (s : List Char) : n ≤ Nat.ofDigitChars 10 s n := by
  induction s generalizing n with
  | nil => simp
  | cons c s ih =>
    rw [Nat.ofDigitChars_cons]
    have h := ih (10 * n + (c.toNat - '0'.toNat))
    omega

theorem digits_eq_ok {limit : Nat} {beyond : IntegerFault} {n : Nat} {s : List Char}
    (hd : ∀ c ∈ s, c.isDigit) (hl : Nat.ofDigitChars 10 s n ≤ limit) :
    digits 10 limit beyond n s = .ok (Nat.ofDigitChars 10 s n) := by
  induction s generalizing n with
  | nil => rfl
  | cons c s ih =>
    rw [Nat.ofDigitChars_cons, Nat.mul_comm 10 n] at hl ⊢
    simp only [digits, digit?_of_isDigit (hd c List.mem_cons_self)]
    rw [if_pos ((le_ofDigitChars _ s).trans hl)]
    exact ih (fun x hx => hd x (List.mem_cons_of_mem c hx)) hl

theorem isDigit_of_mem_toDigits {n : Nat} {c : Char} (h : c ∈ Nat.toDigits 10 n) : c.isDigit :=
  Nat.isDigit_of_mem_toDigits (by decide) (by decide) h

theorem digits_toDigits {limit n : Nat} {beyond : IntegerFault} (h : n ≤ limit) :
    digits 10 limit beyond 0 (Nat.toDigits 10 n) = .ok n := by
  have hn := Nat.ofDigitChars_ten_toDigits (n := n)
  rw [digits_eq_ok (fun c hc => isDigit_of_mem_toDigits hc) (by omega), hn]

theorem mem_chars {i : Int64} {c : Char} (h : c ∈ chars i) : c = '-' ∨ c.isDigit := by
  simp only [chars] at h
  split at h
  · rcases List.mem_cons.1 h with h | h
    · exact .inl h
    · exact .inr (isDigit_of_mem_toDigits h)
  · exact .inr (isDigit_of_mem_toDigits h)

theorem chars_ne_nil (i : Int64) : chars i ≠ [] := by
  simp only [chars]
  split
  · simp
  · exact Nat.toDigits_ne_nil

theorem isBlank_eq_false_of_mem_chars {i : Int64} {c : Char} (h : c ∈ chars i) :
    isBlank c = false := by
  rcases mem_chars h with rfl | h
  · decide
  · have hc := toNat_of_isDigit h
    exact isBlank_of_toNat (by omega)

@[simp] theorem trim_chars (i : Int64) : trim (chars i) = chars i := by
  apply trim_eq_self
  · intro c hc
    exact isBlank_eq_false_of_mem_chars (List.mem_of_mem_head? hc)
  · intro c hc
    exact isBlank_eq_false_of_mem_chars (List.mem_of_mem_getLast? hc)

theorem ofBase_minus {s : List Char} (hn : s ≠ []) :
    ofBase 10 ('-' :: s) =
      (digits 10 (maxValue + 1) .tooSmall 0 s).map fun n => Int64.ofInt (-n) := by
  cases s with
  | nil => exact absurd rfl hn
  | cons c s => rfl

/-- Before digits stands neither a sign nor the mark of base sixteen. -/
theorem read_of_isDigit {s : List Char} (hn : s ≠ []) (hd : ∀ c ∈ s, c.isDigit) :
    read s = (digits 10 maxValue .tooLarge 0 s).map fun n => Int64.ofInt n := by
  have hx : ∀ r, s ≠ '0' :: 'x' :: r := by
    rintro r rfl
    exact absurd (hd 'x' (by simp)) (by decide)
  have hb : read s = ofBase 10 s := by
    rw [read]
    exact hx
  have hm : ∀ r, s ≠ '-' :: r := by
    rintro r rfl
    exact absurd (hd '-' (by simp)) (by decide)
  have hp : ∀ r, s ≠ '+' :: r := by
    rintro r rfl
    exact absurd (hd '+' (by simp)) (by decide)
  rw [hb, ofBase]
  · exact hn
  · exact hp []
  · exact hm []
  · exact hm
  · exact hp

@[simp] theorem read_chars (i : Int64) : read (chars i) = .ok i := by
  have hlow := i.le_toInt
  have hhigh := i.toInt_lt
  have hmax : maxValue = 9223372036854775807 := by decide
  simp only [chars]
  split
  · next h =>
    have hi : -(i.toInt.natAbs : Int) = i.toInt := by omega
    change ofBase 10 ('-' :: _) = _
    rw [ofBase_minus Nat.toDigits_ne_nil, digits_toDigits (by omega)]
    change Except.ok (Int64.ofInt (-(i.toInt.natAbs : Int))) = _
    rw [hi, Int64.ofInt_toInt]
  · next h =>
    have hi : (i.toInt.natAbs : Int) = i.toInt := by omega
    rw [read_of_isDigit Nat.toDigits_ne_nil fun c hc => isDigit_of_mem_toDigits hc,
      digits_toDigits (by omega)]
    change Except.ok (Int64.ofInt (i.toInt.natAbs : Int)) = _
    rw [hi, Int64.ofInt_toInt]

end LatencyDigest.Integer
