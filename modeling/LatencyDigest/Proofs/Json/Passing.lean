import LatencyDigest.Proofs.Json.Grammar
import LatencyDigest.Proofs.Json.Scanning

/-! Whatever is passed over is a value. What the open frames ask for after a value is said by the
lexemes that close them, and each token that is accepted leaves less to be closed. -/

namespace LatencyDigest.Json

variable {e e' : Expect} {fs fs' : List Frame} {xs ys zs : List Lexeme} {t : Token}
  {ts rest : List Token} {s : List UInt8}

/-- What closes the open frames after a value, from the innermost outward. -/
inductive Closes : List Frame → List Lexeme → Prop where
  | nil : Closes [] []
  | list {fs : List Frame} {ys : List Lexeme} (h : Closes fs ys) :
      Closes (.list :: fs) (.listClose :: ys)
  | items {fs : List Frame} {xs ys : List Lexeme} (hx : Grammar .items xs) (h : Closes fs ys) :
      Closes (.list :: fs) (.comma :: (xs ++ .listClose :: ys))
  | object {fs : List Frame} {ys : List Lexeme} (h : Closes fs ys) :
      Closes (.object :: fs) (.objectClose :: ys)
  | members {fs : List Frame} {xs ys : List Lexeme} (hx : Grammar .members xs) (h : Closes fs ys) :
      Closes (.object :: fs) (.comma :: (xs ++ .objectClose :: ys))

/-- What meets an expectation and closes the open frames. -/
inductive Completes : Expect → List Frame → List Lexeme → Prop where
  | value {fs : List Frame} {xs ys : List Lexeme} (hx : Grammar .value xs) (h : Closes fs ys) :
      Completes .value fs (xs ++ ys)
  | listEnd {f : Frame} {fs : List Frame} {ys : List Lexeme} (h : Closes fs ys) :
      Completes .listItem (f :: fs) (.listClose :: ys)
  | listItem {fs : List Frame} {xs : List Lexeme} (h : Completes .value fs xs) :
      Completes .listItem fs xs
  | objectEnd {f : Frame} {fs : List Frame} {ys : List Lexeme} (h : Closes fs ys) :
      Completes .objectItem (f :: fs) (.objectClose :: ys)
  | objectItem {fs : List Frame} {xs : List Lexeme} (h : Completes .key fs xs) :
      Completes .objectItem fs xs
  | key {fs : List Frame} {body : List UInt8} {xs : List Lexeme} (h : Completes .colon fs xs) :
      Completes .key fs (.string body :: xs)
  | colon {fs : List Frame} {xs : List Lexeme} (h : Completes .value fs xs) :
      Completes .colon fs (.colon :: xs)
  | more {fs : List Frame} {ys : List Lexeme} (h : Closes fs ys) : Completes .more fs ys

namespace Completes

/-- A value in a list is the first of its items. -/
theorem items (h : Completes .value (.list :: fs) zs) :
    ∃ xs ys, zs = xs ++ .listClose :: ys ∧ Grammar .items xs ∧ Closes fs ys := by
  obtain ⟨hv, hcloses⟩ := h
  cases hcloses with
  | list h => exact ⟨_, _, rfl, .lastItem hv, h⟩
  | items hx h => exact ⟨_, _, by simp, .item hv hx, h⟩

theorem members (h : Completes .key (.object :: fs) zs) :
    ∃ xs ys, zs = xs ++ .objectClose :: ys ∧ Grammar .members xs ∧ Closes fs ys := by
  cases h with
  | @key _ body _ h =>
    cases h with
    | colon h =>
      cases h with
      | value hv hcloses =>
        cases hcloses with
        | object h => exact ⟨_, _, rfl, .lastMember hv, h⟩
        | members hx h => exact ⟨_, _, by simp, @Grammar.member body _ _ hv hx, h⟩

theorem listOpen (h : Completes .listItem (.list :: fs) zs) :
    Completes .value fs (.listOpen :: zs) := by
  cases h with
  | listEnd h => exact .value .emptyList h
  | listItem h =>
    obtain ⟨xs, ys, rfl, hx, hcloses⟩ := h.items
    simpa using Completes.value (.list hx) hcloses

theorem objectOpen (h : Completes .objectItem (.object :: fs) zs) :
    Completes .value fs (.objectOpen :: zs) := by
  cases h with
  | objectEnd h => exact .value .emptyObject h
  | objectItem h =>
    obtain ⟨xs, ys, rfl, hx, hcloses⟩ := h.members
    simpa using Completes.value (.object hx) hcloses

end Completes

theorem Token.kind_of_isFaulty (h : t.isFaulty) :
    (∃ stop, t.kind = .word (.error stop)) ∨ (∃ fault, t.kind = .number (.error fault)) ∨
      (∃ read stop, t.kind = .string read (.error stop)) ∨ t.kind = .other := by
  unfold Token.isFaulty at h
  split at h
  · next hk => exact .inl ⟨_, hk⟩
  · next hk => exact .inr (.inl ⟨_, hk⟩)
  · next hk => exact .inr (.inr (.inl ⟨_, _, hk⟩))
  · next hk => exact .inr (.inr (.inr hk))
  · cases h

/-- Nobody passes over a faulty token. -/
theorem isFaulty_of_skipToken (h : skipToken e fs t = .ok (e', fs')) : t.isFaulty = false := by
  by_contra ht
  rcases Token.kind_of_isFaulty (by simpa using ht) with
    ⟨_, hk⟩ | ⟨_, hk⟩ | ⟨_, _, hk⟩ | hk <;>
  · unfold skipToken at h
    split at h <;> simp_all [skipValue, skipKey, Token.skipScalar, Except.map]

/-! What a token does to what is still to be completed. -/

section
variable {x : Lexeme}

theorem Completes.of_more (h : Completes .more fs ys) : Closes fs ys := by
  cases h with
  | more h => exact h

theorem completes_of_skipValue (h : skipValue fs t = .ok (e', fs')) (ht : t.Is x)
    (hc : Completes e' fs' ys) : Completes .value fs (x :: ys) := by
  have hscalar (hx : Grammar .value [x]) (h : (.more, fs) = (e', fs')) :
      Completes .value fs (x :: ys) := by
    cases h
    exact .value hx hc.of_more
  unfold skipValue at h
  cases x with
  | listOpen =>
    rw [show t.kind = _ from ht] at h
    cases h
    exact hc.listOpen
  | objectOpen =>
    rw [show t.kind = _ from ht] at h
    cases h
    exact hc.objectOpen
  | null =>
    rw [Token.skipScalar, show t.kind = _ from ht] at h
    exact hscalar .null (Except.ok.inj h)
  | boolean =>
    rw [Token.skipScalar, show t.kind = _ from ht] at h
    exact hscalar .boolean (Except.ok.inj h)
  | number =>
    rw [Token.skipScalar, show t.kind = _ from ht] at h
    exact hscalar .number (Except.ok.inj h)
  | string =>
    obtain ⟨read, ht, -⟩ := ht
    rw [Token.skipScalar, ht] at h
    exact hscalar .string (Except.ok.inj h)
  | _ =>
    rw [Token.skipScalar, show t.kind = _ from ht] at h
    cases h

theorem completes_of_skipKey (h : skipKey fs t = .ok (e', fs')) (ht : t.Is x)
    (hc : Completes e' fs' ys) : Completes .key fs (x :: ys) := by
  unfold skipKey at h
  cases x with
  | string =>
    obtain ⟨read, ht, -⟩ := ht
    rw [ht] at h
    cases h
    exact .key hc
  | _ =>
    rw [show t.kind = _ from ht] at h
    cases h

theorem completes_of_skipToken (h : skipToken e fs t = .ok (e', fs')) (ht : t.Is x)
    (hc : Completes e' fs' ys) : Completes e fs (x :: ys) := by
  have his {y : Lexeme} (hy : t.Is y) (hs : y.isString = false) : x = y := ht.eq hy hs
  unfold skipToken at h
  split at h
  · exact completes_of_skipValue h ht hc
  · next hk =>
    cases h
    rw [his (y := .listClose) hk rfl]
    exact .listEnd hc.of_more
  · exact .listItem (completes_of_skipValue h ht hc)
  · next hk =>
    cases h
    rw [his (y := .objectClose) hk rfl]
    exact .objectEnd hc.of_more
  · exact .objectItem (completes_of_skipKey h ht hc)
  · exact completes_of_skipKey h ht hc
  · next hk =>
    cases h
    rw [his (y := .colon) hk rfl]
    exact .colon hc
  · cases h
  · next hk =>
    cases h
    rw [his (y := .comma) hk rfl]
    obtain ⟨xs, ys, rfl, hx, h⟩ := hc.items
    exact .more (.items hx h)
  · next hk =>
    cases h
    rw [his (y := .comma) hk rfl]
    obtain ⟨xs, ys, rfl, hx, h⟩ := hc.members
    exact .more (.members hx h)
  · next hk =>
    cases h
    rw [his (y := .listClose) hk rfl]
    exact .more (.list hc.of_more)
  · next hk =>
    cases h
    rw [his (y := .objectClose) hk rfl]
    exact .more (.object hc.of_more)
  · cases h
  · cases h

end

theorem eq_of_isDone (h : e.isDone fs) : e = .more ∧ fs = [] := by
  unfold Expect.isDone at h
  split at h
  · exact ⟨rfl, rfl⟩
  · cases h

/-- What has been passed over is what was still to be completed. -/
theorem completes_of_skip (h : skip e fs ts = .ok rest) (hs : Token.Scans s ts) :
    ∃ xs r, Lexeme.Runs xs s r ∧ Token.Scans r rest ∧ Completes e fs xs := by
  -- on the tokens, for whatever is expected in whatever frames
  induction ts generalizing e fs s with
  | nil => cases h
  | cons t ts ih =>
    rw [skip] at h
    split at h
    · cases h
    · next e' fs' htoken =>
      obtain ⟨x, r, hruns, hx, hr⟩ := hs.uncons (isFaulty_of_skipToken htoken)
      split at h
      · next hdone =>
        obtain ⟨rfl, rfl⟩ := eq_of_isDone hdone
        cases h
        exact ⟨[x], r, hruns, hr, completes_of_skipToken htoken hx.is (.more .nil)⟩
      · obtain ⟨xs, r', hruns', hrest, hc⟩ := ih h hr
        exact ⟨x :: xs, r', hruns.append hruns', hrest, completes_of_skipToken htoken hx.is hc⟩

/-- A value that is passed over is one of the grammar. -/
theorem grammar_of_skip (h : skip .value [] ts = .ok rest) (hs : Token.Scans s ts) :
    ∃ xs r, Lexeme.Runs xs s r ∧ Token.Scans r rest ∧ Grammar .value xs := by
  obtain ⟨xs, r, hruns, hr, hc⟩ := completes_of_skip h hs
  cases hc with
  | value hx h =>
    cases h
    rw [List.append_nil] at hruns
    exact ⟨_, r, hruns, hr, hx⟩

end LatencyDigest.Json
