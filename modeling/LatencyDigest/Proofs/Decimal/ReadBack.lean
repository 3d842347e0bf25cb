import LatencyDigest.Decimal.Notation
import LatencyDigest.Proofs.Decimal.Numeral

/-! A number is read back from the shortest decimal that it is written with: the decimal lies in the
cell of the number, and reading rounds all of a cell to one rank. -/

namespace LatencyDigest

namespace Decimal

open Binary64 (infinityRank magnitudeAt middle nearestRank)

/-! The shortest decimal lies in its cell. -/

theorem Cell.low_ofRank_succ (p : Nat) : (Cell.ofRank (p + 1)).low = least * middle p := by
  unfold ofRank least
  generalize Nat.pow 5 places = d
  exact Nat.mul_comm _ _

theorem Cell.high_ofRank (n : Nat) : (Cell.ofRank n).high = least * middle n := by
  unfold ofRank least
  generalize Nat.pow 5 places = d
  exact Nat.mul_comm _ _

theorem Cell.contains_of_onGrid {c : Cell} {tie : Tie} {v step u : Nat}
    (h : c.onGrid tie v step = some u) : c.contains u := by
  simp only [onGrid] at h
  split at h <;> grind

theorem Cell.contains_ofRank_iff {n u : Nat} : (Cell.ofRank n).contains u ↔
    ((Cell.ofRank n).low < 2 * u ∨ (Cell.ofRank n).low = 2 * u ∧ n % 2 = 0) ∧
      (2 * u < (Cell.ofRank n).high ∨ 2 * u = (Cell.ofRank n).high ∧ n % 2 = 0) := by
  have hclosed : (Cell.ofRank n).closed = decide (n % 2 = 0) := rfl
  rw [contains, hclosed]
  split <;> grind

theorem Cell.contains_exact (n : Nat) : (Cell.ofRank n).contains (magnitudeAt n * least) := by
  rw [contains_ofRank_iff, high_ofRank, middle, Nat.mul_add, Nat.mul_comm _ least]
  have hhigh := Nat.mul_lt_mul_of_pos_left (Binary64.magnitudeAt_lt_succ n) least_pos
  refine ⟨?_, by omega⟩
  cases n with
  | zero => exact .inr ⟨by simp [ofRank], rfl⟩
  | succ p =>
    have hlow := Nat.mul_lt_mul_of_pos_left (Binary64.magnitudeAt_lt_succ p) least_pos
    rw [low_ofRank_succ, middle, Nat.mul_add]
    omega

theorem contains_shortest (tie : Tie) (n : Nat) : (Cell.ofRank n).contains (shortest tie n) := by
  rcases Option.getD_eq_iff.1 (Eq.refl (shortest tie n)) with h | ⟨-, h⟩
  · obtain ⟨i, -, hi⟩ := List.exists_of_findSome?_eq_some h
    exact Cell.contains_of_onGrid hi
  · rw [← h, mul_least]
    exact Cell.contains_exact n

/-- All of a cell is rounded to its rank. -/
theorem nearestRank_of_contains {n u : Nat} (hn : n < infinityRank)
    (h : (Cell.ofRank n).contains u) : nearestRank u least = n := by
  obtain ⟨hlow, hhigh⟩ := Cell.contains_ofRank_iff.1 h
  apply Nat.le_antisymm
  · rw [Binary64.nearestRank_le_iff least_pos hn, ← Cell.high_ofRank]
    exact hhigh
  · cases n with
    | zero => exact Nat.zero_le _
    | succ p =>
      refine Nat.lt_of_not_le fun hle => ?_
      have hbelow := (Binary64.nearestRank_le_iff least_pos (Nat.lt_of_succ_lt hn)).1 hle
      rw [Cell.low_ofRank_succ] at hlow
      omega

/-! The digits that are written count the units. -/

theorem dropTrailingZeros_append (s : List Char) :
    ∃ n, dropTrailingZeros s ++ List.replicate n '0' = s := by
  have hzeros : s.rtakeWhile (· = '0') = List.replicate (s.rtakeWhile (· = '0')).length '0' := by
    refine List.eq_replicate_of_mem fun c hc => ?_
    simpa using List.mem_rtakeWhile_imp hc
  refine ⟨(s.rtakeWhile (· = '0')).length, ?_⟩
  rw [← hzeros]
  exact List.rdropWhile_append_rtakeWhile

theorem length_padded {width n : Nat} (hw : 0 < width) (h : n < 10 ^ width) :
    (padded width n).length = width := by
  have hle := (Nat.length_toDigits_le_iff (by decide) hw).2 h
  rw [padded, List.length_append, List.length_replicate]
  omega

theorem ofDigitChars_padded (width n : Nat) : Nat.ofDigitChars 10 (padded width n) 0 = n := by
  rw [padded, Nat.ofDigitChars_append, Nat.ofDigitChars_replicate_zero, Nat.mul_zero,
    Nat.ofDigitChars_ten_toDigits]

theorem isDigit_of_mem_padded {width n : Nat} {c : Char} (h : c ∈ padded width n) : c.isDigit := by
  rcases List.mem_append.1 h with h | h
  · rw [(List.mem_replicate.1 h).2]
    rfl
  · exact Nat.isDigit_of_mem_toDigits (by decide) (by decide) h

theorem isDigit_of_mem_fraction {u : Nat} {c : Char} (h : c ∈ fraction u) : c.isDigit := by
  obtain ⟨n, hn⟩ := dropTrailingZeros_append (padded places (u % unit))
  have hpadded : c ∈ padded places (u % unit) := hn ▸ List.mem_append_left _ h
  exact isDigit_of_mem_padded hpadded

/-- The zeros that are left off would stand for the rest of the places. -/
theorem ofDigitChars_fraction (u : Nat) : (fraction u).length ≤ places ∧
    Nat.ofDigitChars 10 (Nat.toDigits 10 (u / unit) ++ fraction u) 0 *
      10 ^ (places - (fraction u).length) = u := by
  obtain ⟨n, hn⟩ := dropTrailingZeros_append (padded places (u % unit))
  have hpart : u % unit < 10 ^ places := unit_eq_pow ▸ Nat.mod_lt _ unit_pos
  have hlength := congrArg List.length hn
  rw [List.length_append, List.length_replicate, length_padded (by decide) hpart] at hlength
  have hvalue : 10 ^ n * Nat.ofDigitChars 10 (fraction u) (u / unit) = u := by
    rw [← Nat.ofDigitChars_replicate_zero, ← Nat.ofDigitChars_append, fraction, hn,
      Nat.ofDigitChars_eq_ofDigitChars_zero, length_padded (by decide) hpart,
      ofDigitChars_padded, ← unit_eq_pow, Nat.div_add_mod]
  have hn' : places - (fraction u).length = n := by
    rw [fraction]
    omega
  refine ⟨by rw [fraction]; omega, ?_⟩
  rw [hn', Nat.ofDigitChars_append, Nat.ofDigitChars_ten_toDigits, Nat.mul_comm, hvalue]

theorem unsigned?_positional (u : Nat) : unsigned? (positional u) =
    some (Nat.ofDigitChars 10 (Nat.toDigits 10 (u / unit) ++ fraction u) 0,
      -((fraction u).length : Int)) := by
  have hwhole : (Nat.toDigits 10 (u / unit)).all Char.isDigit :=
    List.all_eq_true.2 fun c hc => Nat.isDigit_of_mem_toDigits (by decide) (by decide) hc
  have hplaces : (fraction u).all Char.isDigit :=
    List.all_eq_true.2 fun c hc => isDigit_of_mem_fraction hc
  rw [positional]
  split
  · next hf =>
    rw [hf, List.append_nil]
    exact unsigned?_whole Nat.toDigits_ne_nil hwhole
  · exact unsigned?_point (.inl Nat.toDigits_ne_nil) hwhole hplaces

theorem isDigit_or_eq_of_mem_positional {u : Nat} {c : Char} (h : c ∈ positional u) :
    c.isDigit ∨ c = '.' := by
  rw [positional] at h
  rcases List.mem_append.1 h with h | h
  · exact .inl (Nat.isDigit_of_mem_toDigits (by decide) (by decide) h)
  · split at h
    · simp at h
    · rcases List.mem_cons.1 h with h | h
      · exact .inr h
      · exact .inl (isDigit_of_mem_fraction h)

theorem isDigit_or_eq_of_mem_fixed {places q : Nat} {c : Char} (h : c ∈ fixed places q) :
    c.isDigit ∨ c = '.' := by
  rw [fixed, List.mem_append, List.mem_cons] at h
  rcases h with h | h | h
  · exact .inl (Nat.isDigit_of_mem_toDigits (by decide) (by decide) h)
  · exact .inr h
  · exact .inl (isDigit_of_mem_padded h)

theorem exists_positional_eq_cons (u : Nat) : ∃ c r, positional u = c :: r ∧ c.isDigit := by
  obtain ⟨c, r, h⟩ := List.exists_cons_of_ne_nil (Nat.toDigits_ne_nil (n := u / unit) (b := 10))
  refine ⟨c, _, by rw [positional, h, List.cons_append], ?_⟩
  exact Nat.isDigit_of_mem_toDigits (n := u / unit) (by decide) (by decide)
    (h ▸ List.mem_cons_self)

end Decimal

namespace Binary64

theorem takeSign_signChars (x : Binary64) {c : Char} (hc : 46 ≤ c.toNat) (r : List Char) :
    takeSign (x.signChars ++ c :: r) = (x.negative, c :: r) := by
  rw [signChars]
  cases x.negative with
  | false => exact takeSign_of_toNat hc r
  | true => rfl

/-- What stands in the text of a number beside digits. -/
theorem isDigit_or_mem_of_mem_written {x : Binary64} {s : List Char} {c : Char}
    (hs : ∀ d ∈ s, d.isDigit ∨ d = '.') (h : c ∈ x.written s) :
    c.isDigit ∨ c ∈ ['-', '.', 'i', 'n', 'f', 'N', 'a'] := by
  rw [written] at h
  split at h
  · right
    simp only [List.mem_cons] at h ⊢
    tauto
  · rcases List.mem_append.1 h with h | h
    · right
      rw [signChars] at h
      split at h <;> simp_all
    · split at h
      · right
        simp only [List.mem_cons] at h ⊢
        tauto
      · rcases hs c h with h | rfl
        · exact .inl h
        · right
          decide

theorem isDigit_or_mem_of_mem_chars {x : Binary64} {c : Char} (h : c ∈ x.chars) :
    c.isDigit ∨ c ∈ ['-', '.', 'i', 'n', 'f', 'N', 'a'] :=
  isDigit_or_mem_of_mem_written (fun _ => Decimal.isDigit_or_eq_of_mem_positional) h

theorem isDigit_or_mem_of_mem_fixedChars {places : Nat} {x : Binary64} {c : Char}
    (h : c ∈ x.fixedChars places) : c.isDigit ∨ c ∈ ['-', '.', 'i', 'n', 'f', 'N', 'a'] :=
  isDigit_or_mem_of_mem_written (fun _ => Decimal.isDigit_or_eq_of_mem_fixed) h

theorem isBlank_of_mem_chars {x : Binary64} {c : Char} (h : c ∈ x.chars) :
    Text.isBlank c = false := by
  rcases isDigit_or_mem_of_mem_chars h with h | h
  · have hc := Text.toNat_of_isDigit h
    exact Text.isBlank_of_toNat (by omega)
  · have hsigns : ['-', '.', 'i', 'n', 'f', 'N', 'a'].all fun c => !Text.isBlank c := by decide
    simpa using List.all_eq_true.1 hsigns c h

theorem not_mem_chars {c : Char} (hd : c.isDigit = false)
    (hc : c ∉ ['-', '.', 'i', 'n', 'f', 'N', 'a']) (x : Binary64) : c ∉ x.chars := by
  intro h
  rcases isDigit_or_mem_of_mem_chars h with h | h
  · simp [hd] at h
  · exact hc h

@[simp] theorem trim_chars (x : Binary64) : Text.trim x.chars = x.chars :=
  Text.trim_eq_self (fun _ hc => isBlank_of_mem_chars (List.mem_of_mem_head? hc))
    fun _ hc => isBlank_of_mem_chars (List.mem_of_mem_getLast? hc)

theorem chars_ne_nil (x : Binary64) : x.chars ≠ [] := by
  rw [chars, written]
  split
  · simp
  · split
    · simp
    · obtain ⟨c, r, h, -⟩ := Decimal.exists_positional_eq_cons (Decimal.shortest .up x.rank)
      simp [h]

theorem ofChars?_chars {x : Binary64} (h : x.isNaN = false) : ofChars? x.chars = some x := by
  rw [chars, written, if_neg (by simp [h])]
  split
  · next hi =>
    obtain ⟨negative, rank, hlt⟩ := x
    obtain rfl : rank = infinityRank := of_decide_eq_true hi
    simp [ofChars?, takeSign_signChars, infinity]
  · next hi =>
    have hrank : x.rank < infinityRank := by
      simp only [isNaN, isInfinite, decide_eq_true_eq, decide_eq_false_iff_not] at h hi
      omega
    obtain ⟨hplaces, hvalue⟩ := Decimal.ofDigitChars_fraction (Decimal.shortest .up x.rank)
    obtain ⟨c, r, hcons, hdigit⟩ :=
      Decimal.exists_positional_eq_cons (Decimal.shortest .up x.rank)
    have hc := Text.toNat_of_isDigit hdigit
    rw [hcons, ofChars?_of_sign (takeSign_signChars x (by omega) r) (by omega), ← hcons,
      Decimal.unsigned?_positional, Option.map_some, ofDecimal_eq_ofRatio _ _ hplaces, hvalue]
    simp only [ofRatio, Decimal.nearestRank_of_contains hrank (Decimal.contains_shortest .up _)]

theorem chars_injective {x y : Binary64} (hx : x.isNaN = false) (hy : y.isNaN = false)
    (h : x.chars = y.chars) : x = y := by
  rw [← Option.some_inj, ← ofChars?_chars hx, h, ofChars?_chars hy]

end Binary64

end LatencyDigest
