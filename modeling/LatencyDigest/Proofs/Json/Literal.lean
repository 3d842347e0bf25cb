import LatencyDigest.Json.Literal
import LatencyDigest.Outcome

/-! The texts that spell a number literal, and the scanner on each of them. A literal ends where
nothing follows that would go on with it. What the scanner finds is spelled by what it has read. -/

namespace LatencyDigest.Json

def digitsOf (s : List UInt8) : List Nat := s.map fun b => (b - 0x30).toNat

/-- No byte of that class comes next. -/
def NoneNext (p : UInt8 → Bool) (r : List UInt8) : Prop := ∀ b ∈ r.head?, p b = false

theorem takeDigits_append {s r : List UInt8} (hs : ∀ b ∈ s, isDigit b) (hr : NoneNext isDigit r) :
    takeDigits (s ++ r) = (digitsOf s, r) := by
  rw [takeDigits, List.takeWhile_append_of_pos hs, List.dropWhile_append_of_pos hs]
  cases r with
  | nil => simp [digitsOf]
  | cons b r =>
    have hb := hr b rfl
    simp [digitsOf, hb]

namespace Literal

inductive Whole : List Nat → List UInt8 → Prop where
  | zero : Whole [0] ['0'.toUInt8]
  | digits {b : UInt8} {s : List UInt8} (hb : isDigit b) (hne : b ≠ '0'.toUInt8)
      (hs : ∀ c ∈ s, isDigit c) : Whole (digitsOf (b :: s)) (b :: s)

inductive Places : List Nat → List UInt8 → Prop where
  | absent : Places [] []
  | point {s : List UInt8} (hne : s ≠ []) (hs : ∀ c ∈ s, isDigit c) :
      Places (digitsOf s) ('.'.toUInt8 :: s)

inductive Sign : Bool → List UInt8 → Prop where
  | absent : Sign false []
  | plus : Sign false ['+'.toUInt8]
  | minus : Sign true ['-'.toUInt8]

inductive Power : Option (Bool × List Nat) → List UInt8 → Prop where
  | absent : Power none []
  | mark {e : UInt8} {minus : Bool} {sign s : List UInt8} (he : e = 'e'.toUInt8 ∨ e = 'E'.toUInt8)
      (hsign : Sign minus sign) (hne : s ≠ []) (hs : ∀ c ∈ s, isDigit c) :
      Power (some (minus, digitsOf s)) (e :: (sign ++ s))

/-- The texts of a literal. -/
inductive Spells : Literal → List UInt8 → Prop where
  | mk {negative : Bool} {whole places : List Nat} {power : Option (Bool × List Nat)}
      {w p e : List UInt8} (hw : Whole whole w) (hp : Places places p) (he : Power power e) :
      Spells ⟨negative, whole, places, power⟩
        ((if negative then ['-'.toUInt8] else []) ++ (w ++ (p ++ e)))

variable {whole places : List Nat} {power : Option (Bool × List Nat)} {s r : List UInt8}

def isPoint (b : UInt8) : Bool := b = '.'.toUInt8

def isMark (b : UInt8) : Bool := b = 'e'.toUInt8 || b = 'E'.toUInt8

/-- A byte that would go on with a literal. -/
def goesOn (b : UInt8) : Bool := isDigit b || isPoint b || isMark b

theorem goesOn_eq_false {b : UInt8} :
    goesOn b = false ↔ isDigit b = false ∧ isPoint b = false ∧ isMark b = false := by
  simp [goesOn, and_assoc]

theorem Places.noneNext (h : Places places s) (hr : NoneNext isDigit r) :
    NoneNext isDigit (s ++ r) := by
  cases h with
  | absent => exact hr
  | point =>
    rintro b ⟨⟩
    decide

theorem Power.noneNext {p : UInt8 → Bool} (h : Power power s) (hr : NoneNext p r)
    (he : p 'e'.toUInt8 = false) (hE : p 'E'.toUInt8 = false) : NoneNext p (s ++ r) := by
  cases h with
  | absent => exact hr
  | mark hmark =>
    rintro b ⟨⟩
    rcases hmark with rfl | rfl
    · exact he
    · exact hE

theorem scanWhole_append (n : Nat) (h : Whole whole s) (hr : NoneNext isDigit r) :
    scanWhole n (s ++ r) = .ok (whole, n + s.length, r) := by
  cases h with
  | zero =>
    cases r with
    | nil => rfl
    | cons b r =>
      have hb := hr b rfl
      simp [scanWhole, hb]
  | @digits b s hb hne hs =>
    have hdigits : takeDigits (b :: s ++ r) = (digitsOf (b :: s), r) :=
      takeDigits_append (List.forall_mem_cons.2 ⟨hb, hs⟩) hr
    rw [List.cons_append] at hdigits ⊢
    simp [scanWhole, hne, hb, hdigits, digitsOf]

theorem scanPlaces_append (n : Nat) (h : Places places s) (hr : NoneNext isDigit r)
    (hp : NoneNext isPoint r) : scanPlaces n (s ++ r) = .ok (places, n + s.length, r) := by
  cases h with
  | absent =>
    cases r with
    | nil => rfl
    | cons b r =>
      have hb : b ≠ '.'.toUInt8 := by simpa [isPoint] using hp b rfl
      simp [scanPlaces, hb]
  | @point s hne hs =>
    have hdigits := takeDigits_append hs hr
    obtain ⟨b, t, rfl⟩ := List.exists_cons_of_ne_nil hne
    rw [List.cons_append, scanPlaces, if_pos rfl, hdigits]
    simp [digitsOf]
    omega

theorem scanPower_append (n : Nat) (h : Power power s) (hr : NoneNext isDigit r)
    (hm : NoneNext isMark r) : scanPower n (s ++ r) = .ok (power, n + s.length) := by
  cases h with
  | absent =>
    cases r with
    | nil => rfl
    | cons b r =>
      have hb : ¬(b = 'e'.toUInt8 ∨ b = 'E'.toUInt8) := by simpa [isMark] using hm b rfl
      simp [scanPower, hb]
  | @mark e minus sign s he hsign hne hs =>
    have hdigits := takeDigits_append hs hr
    obtain ⟨b, t, rfl⟩ := List.exists_cons_of_ne_nil hne
    have hb : isDigit b := hs b List.mem_cons_self
    have hminus : b ≠ '-'.toUInt8 := by rintro rfl; exact absurd hb (by decide)
    have hplus : b ≠ '+'.toUInt8 := by rintro rfl; exact absurd hb (by decide)
    rw [List.cons_append] at hdigits
    have hsigns : '+'.toUInt8 ≠ '-'.toUInt8 := by decide
    cases hsign with
    | absent =>
      simp [scanPower, he, hminus, hplus, hb, hdigits, digitsOf]
      omega
    | plus =>
      simp [scanPower, he, hsigns, hb, hdigits, digitsOf]
      omega
    | minus =>
      simp [scanPower, he, hb, hdigits, digitsOf]
      omega

theorem Whole.head (h : Whole whole s) : ∃ b t, s = b :: t ∧ isDigit b := by
  cases h with
  | zero => exact ⟨_, _, rfl, by decide⟩
  | digits hb => exact ⟨_, _, rfl, hb⟩

theorem Spells.head {l : Literal} (h : Spells l s) :
    ∃ b t, s = b :: t ∧ (b = '-'.toUInt8 ∨ isDigit b) := by
  obtain @⟨negative, whole, places, power, w, p, e, hw, -, -⟩ := h
  cases negative with
  | true => exact ⟨_, _, rfl, .inl rfl⟩
  | false =>
    obtain ⟨b, t, rfl, hb⟩ := hw.head
    exact ⟨b, _, rfl, .inr hb⟩

theorem scan_append {l : Literal} (h : Spells l s) (hr : NoneNext goesOn r) :
    scan (s ++ r) = .ok (l, s.length) := by
  obtain @⟨negative, whole, places, power, w, p, e, hw, hp, he⟩ := h
  have hdigit : NoneNext isDigit r := fun b hb => (goesOn_eq_false.1 (hr b hb)).1
  have hpoint : NoneNext isPoint r := fun b hb => (goesOn_eq_false.1 (hr b hb)).2.1
  have hmark : NoneNext isMark r := fun b hb => (goesOn_eq_false.1 (hr b hb)).2.2
  have heDigit : NoneNext isDigit (e ++ r) := he.noneNext hdigit rfl rfl
  have hePoint : NoneNext isPoint (e ++ r) := he.noneNext hpoint rfl rfl
  have hwhole := fun n => scanWhole_append n hw (hp.noneNext heDigit)
  have hplaces := fun n => scanPlaces_append n hp heDigit hePoint
  have hpower := fun n => scanPower_append n he hdigit hmark
  cases negative with
  | true =>
    simp [scan, bind, Except.bind, pure, Except.pure, hwhole, hplaces, hpower]
    omega
  | false =>
    obtain ⟨b, t, rfl, hb⟩ := hw.head
    have hminus : b ≠ '-'.toUInt8 := by rintro rfl; exact absurd hb (by decide)
    simp at hwhole
    simp [scan, hminus, bind, Except.bind, pure, Except.pure, hwhole, hplaces, hpower]
    omega

/-! The other way round. -/

/-- A text begins with digits, which are none if it begins with something else. -/
theorem exists_takeDigits (s : List UInt8) :
    ∃ w r, s = w ++ r ∧ (∀ b ∈ w, isDigit b) ∧ NoneNext isDigit r := by
  induction s with
  | nil => exact ⟨[], [], rfl, nofun, nofun⟩
  | cons b s ih =>
    cases hb : isDigit b with
    | true =>
      obtain ⟨w, r, rfl, hw, hr⟩ := ih
      exact ⟨b :: w, r, rfl, List.forall_mem_cons.2 ⟨hb, hw⟩, hr⟩
    | false =>
      refine ⟨[], b :: s, rfl, nofun, ?_⟩
      rintro _ ⟨⟩
      exact hb

theorem whole_of_scanWhole {n m : Nat} (h : scanWhole n s = .ok (whole, m, r)) :
    ∃ w, s = w ++ r ∧ Whole whole w ∧ m = n + w.length := by
  cases s with
  | nil => cases h
  | cons b t =>
    rw [scanWhole] at h
    split at h
    · next hb =>
      split at h
      · cases h
      · cases h
        exact ⟨['0'.toUInt8], by rw [hb]; rfl, .zero, rfl⟩
    · next hne =>
      split at h
      · next hb =>
        obtain ⟨w, rest, rfl, hw, hrest⟩ := exists_takeDigits t
        rw [← List.cons_append, takeDigits_append (List.forall_mem_cons.2 ⟨hb, hw⟩) hrest] at h
        cases h
        exact ⟨b :: w, rfl, .digits hb hne hw, by simp [digitsOf]⟩
      · cases h

theorem places_of_scanPlaces {n m : Nat} (h : scanPlaces n s = .ok (places, m, r)) :
    ∃ p, s = p ++ r ∧ Places places p ∧ m = n + p.length := by
  cases s with
  | nil =>
    cases h
    exact ⟨[], rfl, .absent, rfl⟩
  | cons b t =>
    rw [scanPlaces] at h
    split at h
    · next hb =>
      obtain ⟨w, rest, rfl, hw, hrest⟩ := exists_takeDigits t
      rw [takeDigits_append hw hrest] at h
      cases w with
      | nil => cases rest <;> cases h
      | cons c w =>
        cases h
        exact ⟨b :: c :: w, rfl, hb ▸ .point (List.cons_ne_nil c w) hw, by simp [digitsOf]; omega⟩
    · cases h
      exact ⟨[], rfl, .absent, rfl⟩

/-- The digits of a power, once its sign has been read. -/
theorem exists_digits_of_power {minus : Bool} {n m : Nat}
    (h : (match s with
      | [] => .error ⟨true, n⟩
      | b :: t => if isDigit b then .ok (some (minus, (takeDigits (b :: t)).1),
          n + (takeDigits (b :: t)).1.length) else .error ⟨false, n + 1⟩ :
        Except Literal.Fault (Option (Bool × List Nat) × Nat)) = .ok (power, m)) :
    ∃ w r, s = w ++ r ∧ w ≠ [] ∧ (∀ b ∈ w, isDigit b) ∧ power = some (minus, digitsOf w) ∧
      m = n + w.length := by
  cases s with
  | nil => cases h
  | cons b t =>
    dsimp only at h
    split at h
    · next hb =>
      obtain ⟨w, r, rfl, hw, hr⟩ := exists_takeDigits t
      have hall : ∀ c ∈ b :: w, isDigit c := List.forall_mem_cons.2 ⟨hb, hw⟩
      rw [← List.cons_append, takeDigits_append hall hr] at h
      cases h
      exact ⟨b :: w, r, rfl, List.cons_ne_nil b w, hall, rfl, by simp [digitsOf]⟩
    · cases h

theorem power_of_scanPower {n m : Nat} (h : scanPower n s = .ok (power, m)) :
    ∃ e r, s = e ++ r ∧ Power power e ∧ m = n + e.length := by
  cases s with
  | nil =>
    cases h
    exact ⟨[], [], rfl, .absent, rfl⟩
  | cons b t =>
    rw [scanPower] at h
    split at h
    · next hb =>
      obtain ⟨minus, sign, u, rfl, hsign, hread⟩ : ∃ minus sign u, t = sign ++ u ∧
          Sign minus sign ∧ (match u with
            | [] => .error ⟨true, n + 1 + sign.length⟩
            | c :: v => if isDigit c then .ok (some (minus, (takeDigits (c :: v)).1),
                n + 1 + sign.length + (takeDigits (c :: v)).1.length)
              else .error ⟨false, n + 1 + sign.length + 1⟩ :
              Except Literal.Fault (Option (Bool × List Nat) × Nat)) = .ok (power, m) := by
        cases t with
        | nil => exact ⟨false, [], [], rfl, .absent, h⟩
        | cons c v =>
          by_cases hminus : c = '-'.toUInt8
          · subst hminus
            exact ⟨true, ['-'.toUInt8], v, rfl, .minus, h⟩
          · by_cases hplus : c = '+'.toUInt8
            · subst hplus
              exact ⟨false, ['+'.toUInt8], v, rfl, .plus, h⟩
            · simp only [List.head?_cons, Option.some.injEq, hminus, hplus, decide_false,
                or_self, if_false] at h
              exact ⟨false, [], c :: v, rfl, .absent, h⟩
      obtain ⟨w, r, rfl, hne, hw, rfl, rfl⟩ := exists_digits_of_power hread
      refine ⟨b :: (sign ++ w), r, by simp, .mark hb hsign hne hw, ?_⟩
      rw [List.length_cons, List.length_append]
      omega
    · cases h
      exact ⟨[], b :: t, rfl, .absent, rfl⟩

theorem scan_eq (s : List UInt8) (minus : Bool) (h : decide (s.head? = some '-'.toUInt8) = minus) :
    scan s = scanWhole (if minus then 1 else 0) (if minus then s.tail else s) >>= fun p =>
      scanPlaces p.2.1 p.2.2 >>= fun q => scanPower q.2.1 q.2.2 >>= fun e =>
        .ok (⟨minus, p.1, q.1, e.1⟩, e.2) := by
  rw [scan, h]
  cases minus with
  | true => rw [if_pos (of_decide_eq_true h)]; rfl
  | false => rw [if_neg (of_decide_eq_false h)]; rfl

theorem spells_of_scan {l : Literal} {n : Nat} (h : scan s = .ok (l, n)) :
    ∃ text r, s = text ++ r ∧ l.Spells text ∧ n = text.length := by
  generalize hminus : decide (s.head? = some '-'.toUInt8) = minus
  rw [scan_eq s minus hminus] at h
  obtain ⟨⟨whole, n₁, s₁⟩, hwhole, h⟩ := Outcome.bind_eq_ok_iff.1 h
  obtain ⟨⟨places, n₂, s₂⟩, hplaces, h⟩ := Outcome.bind_eq_ok_iff.1 h
  obtain ⟨⟨power, n₃⟩, hpower, h⟩ := Outcome.bind_eq_ok_iff.1 h
  cases h
  obtain ⟨w, hw, hspells, rfl⟩ := whole_of_scanWhole hwhole
  obtain ⟨p, rfl, hp, rfl⟩ := places_of_scanPlaces hplaces
  obtain ⟨e, r, rfl, he, rfl⟩ := power_of_scanPower hpower
  refine ⟨_, r, ?_, .mk hspells hp he, ?_⟩
  · cases minus with
    | true =>
      obtain ⟨t, rfl⟩ := List.head?_eq_some_iff.1 (of_decide_eq_true hminus)
      have hw : t = w ++ (p ++ (e ++ r)) := hw
      simp [hw]
    | false =>
      have hw : s = w ++ (p ++ (e ++ r)) := hw
      simp [hw]
  · cases minus <;> simp <;> omega

end Literal

end LatencyDigest.Json
