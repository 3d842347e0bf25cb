import LatencyDigest.Proofs.Ranges.Bounds
import LatencyDigest.Settings

/-! Which texts are read as bounds. The pieces between the commas are read from the left, and the
first that is not a number, or not one for a bound, decides. The order is looked at last. -/

namespace LatencyDigest

namespace Binary64

theorem not_zero_le_iff {x : Binary64} : ¬zero ≤ x ↔ x.isNaN ∨ x < zero := by
  simp [not_le_iff_lt_or, or_comm, show zero.isNaN = false from rfl]

end Binary64

namespace Ranges

/-- What is wrong with the pieces: the first that is not admitted, else their order. -/
inductive Rejects : List (List Char) → RangeFault → Prop
  | notNumber : (∀ p ∈ before, ∃ x, Admits p x) → Binary64.ofChars? (Text.trim piece) = none →
      Rejects (before ++ piece :: after) (.notNumber (String.ofList piece))
  | negative : (∀ p ∈ before, ∃ x, Admits p x) → Binary64.ofChars? (Text.trim piece) = some x →
      x.isNaN ∨ x < Binary64.zero → Rejects (before ++ piece :: after) .negative
  | notAscending : List.Forall₂ Admits pieces xs → ¬xs.IsChain (· < ·) →
      Rejects pieces .notAscending

section
variable {piece : List Char} {pieces : List (List Char)} {xs : List Binary64} {s : String}

theorem bound_eq_error_iff {e : RangeFault} : bound piece = .error e ↔
    Binary64.ofChars? (Text.trim piece) = none ∧ e = .notNumber (String.ofList piece) ∨
    (∃ x, Binary64.ofChars? (Text.trim piece) = some x ∧ (x.isNaN ∨ x < Binary64.zero)) ∧
      e = .negative := by
  rw [bound]
  split
  · next h => simp [h, @eq_comm _ e]
  · next y h =>
    split
    · next hy => simp [h, ← Binary64.not_zero_le_iff, hy]
    · next hy => simp [h, ← Binary64.not_zero_le_iff, hy, @eq_comm _ e]

theorem ascending_iff_of_isNaN (h : ∀ b ∈ xs, b.isNaN = false) :
    ascending xs ↔ xs.IsChain (· < ·) := by
  rw [ascending_iff_isChain, isChain_iff_pairwise_of_isNaN h, List.isChain_iff_pairwise]

/-- There is a piece always, so there is a bound always. -/
theorem ne_nil_of_admits (h : List.Forall₂ Admits (Text.split ',' s.toList) xs) : xs ≠ [] := by
  rintro rfl
  exact Text.split_ne_nil _ _ (List.forall₂_nil_right_iff.1 h)

theorem parse_of_admits (h : List.Forall₂ Admits (Text.split ',' s.toList) xs) :
    parse s = if xs.IsChain (· < ·) then .ok ⟨xs⟩ else .error .notAscending := by
  have hvalues : (Text.split ',' s.toList).mapM bound = .ok xs :=
    Outcome.mapM_eq_ok_iff.2 (h.imp fun _ _ => bound_eq_ok_iff.2)
  rw [parse, hvalues]
  change ofBounds xs = _
  rw [ofBounds, if_neg (ne_nil_of_admits h)]
  simp only [ascending_iff_of_isNaN (isNaN_of_admits h)]

theorem parse_eq_ok_iff {r : Ranges} : parse s = .ok r ↔
    List.Forall₂ Admits (Text.split ',' s.toList) r.bounds ∧ r.bounds.IsChain (· < ·) := by
  constructor
  · intro h
    obtain ⟨xs, hxs, hr⟩ := Outcome.bind_eq_ok_iff.1 h
    have hadmits := (Outcome.mapM_eq_ok_iff.1 hxs).imp fun _ _ => bound_eq_ok_iff.1
    obtain ⟨-, hascending, rfl⟩ := ofBounds_eq_ok_iff.1 hr
    exact ⟨hadmits, (ascending_iff_of_isNaN (isNaN_of_admits hadmits)).1 hascending⟩
  · rintro ⟨hadmits, hchain⟩
    rw [parse_of_admits hadmits, if_pos hchain]

theorem parse_eq_error_of_bound {before after : List (List Char)} {e : RangeFault}
    (hs : Text.split ',' s.toList = before ++ piece :: after)
    (hb : ∀ p ∈ before, ∃ x, Admits p x) (he : bound piece = .error e) : parse s = .error e := by
  rw [parse, hs, Outcome.mapM_eq_error (fun p hp => ?_) he]
  · rfl
  · obtain ⟨x, hx⟩ := hb p hp
    exact ⟨x, bound_eq_ok_iff.2 hx⟩

theorem parse_eq_error_iff {e : RangeFault} :
    parse s = .error e ↔ Rejects (Text.split ',' s.toList) e := by
  constructor
  · intro h
    cases hvalues : (Text.split ',' s.toList).mapM bound with
    | ok xs =>
      have hadmits := (Outcome.mapM_eq_ok_iff.1 hvalues).imp fun _ _ => bound_eq_ok_iff.1
      rw [parse_of_admits hadmits] at h
      split at h
      · cases h
      · next hchain =>
        cases h
        exact .notAscending hadmits hchain
    | error d =>
      rw [parse, hvalues] at h
      cases h
      obtain ⟨before, piece, after, hs, hb, he⟩ := Outcome.exists_of_mapM_eq_error hvalues
      have hbefore : ∀ p ∈ before, ∃ x, Admits p x := fun p hp =>
        (hb p hp).imp fun _ => bound_eq_ok_iff.1
      rw [hs]
      rcases bound_eq_error_iff.1 he with ⟨hnone, rfl⟩ | ⟨⟨x, hx, hlow⟩, rfl⟩
      · exact .notNumber hbefore hnone
      · exact .negative hbefore hx hlow
  · intro h
    generalize hs : Text.split ',' s.toList = pieces at h
    cases h with
    | notNumber hb hnone =>
      exact parse_eq_error_of_bound hs hb (bound_eq_error_iff.2 (.inl ⟨hnone, rfl⟩))
    | negative hb hx hlow =>
      exact parse_eq_error_of_bound hs hb (bound_eq_error_iff.2 (.inr ⟨⟨_, hx, hlow⟩, rfl⟩))
    | notAscending hadmits hchain =>
      subst hs
      rw [parse_of_admits hadmits, if_neg hchain]

end

end Ranges

namespace ReportSettings

theorem ofEnvironment_eq_error_iff {directory : String} {env : Environment} {failure : Failure} :
    ofEnvironment directory env = .error failure ↔ ∃ text fault, env .ranges = some text ∧
      Ranges.parse text = .error fault ∧ failure = .ranges "LATENCY_RANGES_US" fault := by
  have hranges : ofEnvironment directory env = .error failure ↔
      rangesOf env = .error failure := by
    rw [ofEnvironment]
    cases rangesOf env <;> simp [bind, Except.bind, pure, Except.pure]
  rw [hranges, rangesOf]
  cases env .ranges with
  | none => simp
  | some text =>
    change (Ranges.parse text).mapError (Failure.ranges "LATENCY_RANGES_US") = _ ↔ _
    rw [Outcome.mapError_eq_error_iff]
    constructor
    · rintro ⟨fault, hfault, rfl⟩
      exact ⟨text, fault, rfl, hfault, rfl⟩
    · rintro ⟨_, fault, htext, hfault, rfl⟩
      cases htext
      exact ⟨fault, hfault, rfl⟩

end ReportSettings

namespace Ranges

theorem parse_accepts_exactly (s directory : String) (env : Environment) :
    (∀ r, parse s = .ok r ↔
      List.Forall₂ Admits (Text.split ',' s.toList) r.bounds ∧ r.bounds.IsChain (· < ·)) ∧
    (∀ r, parse s = .ok r → r.bounds ≠ [] ∧ (∀ b ∈ r.bounds, b.isNaN = false) ∧
      r.bounds.Pairwise (· < ·)) ∧
    (∀ fault, parse s = .error fault ↔ Rejects (Text.split ',' s.toList) fault) ∧
    parse s ≠ .error .noBounds ∧
    ∀ failure, ReportSettings.ofEnvironment directory env = .error failure ↔
      ∃ text fault, env .ranges = some text ∧ parse text = .error fault ∧
        failure = .ranges "LATENCY_RANGES_US" fault := by
  refine ⟨fun r => parse_eq_ok_iff, fun r h => ?_, fun fault => parse_eq_error_iff, fun h => ?_,
    fun failure => ReportSettings.ofEnvironment_eq_error_iff⟩
  · obtain ⟨hadmits, hchain⟩ := parse_eq_ok_iff.1 h
    exact ⟨ne_nil_of_admits hadmits, isNaN_of_admits hadmits, List.isChain_iff_pairwise.1 hchain⟩
  · have hrejects := parse_eq_error_iff.1 h
    generalize Text.split ',' s.toList = pieces at hrejects
    cases hrejects

/-- Bounds with blanks beside them, and several faults in one text. -/
theorem parse_accepts_exactly_mixed :
    let r : Ranges := ⟨[-Binary64.zero, .ofNat 1000, Binary64.infinity]⟩
    parse "-0, 1e3 ,inf" = .ok r ∧
      List.Forall₂ Admits (Text.split ',' "-0, 1e3 ,inf".toList) r.bounds ∧
      r.bounds.Pairwise (· < ·) ∧ Rejects (Text.split ',' "2,1, x,nan".toList) (.notNumber " x") ∧
      ReportSettings.ofEnvironment "." (fun _ => some "2,1, nan,x") =
        .error (.ranges "LATENCY_RANGES_US" .negative) := by
  intro r
  have hr : parse "-0, 1e3 ,inf" = .ok r := by decide +kernel
  have hx : parse "2,1, x,nan" = .error (.notNumber " x") := by decide +kernel
  have hnan : parse "2,1, nan,x" = .error .negative := by decide +kernel
  let env : Environment := fun _ => some "2,1, nan,x"
  obtain ⟨hok, hbounds, -⟩ := parse_accepts_exactly "-0, 1e3 ,inf" "." env
  obtain ⟨-, -, herror, -, hsettings⟩ := parse_accepts_exactly "2,1, x,nan" "." env
  exact ⟨hr, ((hok r).1 hr).1, (hbounds r hr).2.2, (herror _).1 hx,
    (hsettings _).2 ⟨_, _, rfl, hnan, rfl⟩⟩

end Ranges

end LatencyDigest
