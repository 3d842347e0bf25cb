import LatencyDigest.Json.Skip
import LatencyDigest.Proofs.Aligned
import LatencyDigest.Proofs.Json.Lexeme

/-! The grammar of JSON values over lexemes. A value that nobody asks for is passed over whole,
however deep it is. -/

namespace LatencyDigest.Json

/-- What a stretch of a text can be: a value, the items of a list, or the members of an object. -/
inductive Part where
  | value
  | items
  | members

inductive Grammar : Part → List Lexeme → Prop where
  | null : Grammar .value [.null]
  | boolean {b : Bool} : Grammar .value [.boolean b]
  | number {l : Literal} : Grammar .value [.number l]
  | string {body : List UInt8} : Grammar .value [.string body]
  | emptyList : Grammar .value [.listOpen, .listClose]
  | list {xs : List Lexeme} (h : Grammar .items xs) :
      Grammar .value (.listOpen :: (xs ++ [.listClose]))
  | emptyObject : Grammar .value [.objectOpen, .objectClose]
  | object {xs : List Lexeme} (h : Grammar .members xs) :
      Grammar .value (.objectOpen :: (xs ++ [.objectClose]))
  | lastItem {xs : List Lexeme} (h : Grammar .value xs) : Grammar .items xs
  | item {xs ys : List Lexeme} (hx : Grammar .value xs) (hy : Grammar .items ys) :
      Grammar .items (xs ++ .comma :: ys)
  | lastMember {body : List UInt8} {xs : List Lexeme} (h : Grammar .value xs) :
      Grammar .members (.string body :: .colon :: xs)
  | member {body : List UInt8} {xs ys : List Lexeme} (hx : Grammar .value xs)
      (hy : Grammar .members ys) : Grammar .members (.string body :: .colon :: (xs ++ .comma :: ys))

namespace Lexeme

variable {x : Lexeme} {xs ys : List Lexeme}

theorem isChain_cons (hx : x.isNumber = false) (hxs : xs.IsChain Apart) :
    (x :: xs).IsChain Apart :=
  List.isChain_cons.2 ⟨fun _ _ => .inl hx, hxs⟩

theorem isChain_around (hx : x.isNumber = false) (hxs : xs.IsChain Apart) (hys : ys.IsChain Apart) :
    (xs ++ x :: ys).IsChain Apart :=
  hxs.append (isChain_cons hx hys) fun _ _ y hy => by
    cases hy
    exact .inr hx

theorem isChain_between (hx : x.isNumber = false) {y : Lexeme} (hy : y.isNumber = false)
    (hxs : xs.IsChain Apart) : (x :: (xs ++ [y])).IsChain Apart :=
  isChain_cons hx (isChain_around hy hxs .nil)

/-- Stretches of lexemes with commas between them. -/
def separated : List (List Lexeme) → List Lexeme
  | [] => []
  | xs :: rest => xs ++ rest.flatMap fun ys => .comma :: ys

theorem isChain_flatMap {rest : List (List Lexeme)} (hxs : xs.IsChain Apart)
    (hrest : ∀ ys ∈ rest, ys.IsChain Apart) :
    (xs ++ rest.flatMap fun ys => .comma :: ys).IsChain Apart := by
  induction rest generalizing xs with
  | nil => simpa using hxs
  | cons ys rest ih =>
    obtain ⟨hys, hrest⟩ := List.forall_mem_cons.1 hrest
    rw [List.flatMap_cons, List.cons_append]
    exact isChain_around rfl hxs (ih hys hrest)

theorem isChain_separated {parts : List (List Lexeme)} (h : ∀ xs ∈ parts, xs.IsChain Apart) :
    (separated parts).IsChain Apart := by
  cases parts with
  | nil => exact .nil
  | cons xs rest =>
    obtain ⟨hxs, hrest⟩ := List.forall_mem_cons.1 h
    exact isChain_flatMap hxs hrest

end Lexeme

namespace Grammar

variable {part : Part} {xs : List Lexeme}

/-- No two numbers are next to each other. -/
theorem isChain (h : Grammar part xs) : xs.IsChain Lexeme.Apart := by
  induction h with
  | null | boolean | number | string => exact .singleton _
  | emptyList | emptyObject => exact Lexeme.isChain_cons rfl (.singleton _)
  | list _ ih | object _ ih => exact Lexeme.isChain_between rfl rfl ih
  | lastItem _ ih => exact ih
  | item _ _ ihx ihy => exact Lexeme.isChain_around rfl ihx ihy
  | lastMember _ ih => exact Lexeme.isChain_cons rfl (Lexeme.isChain_cons rfl ih)
  | member _ _ ihx ihy =>
    have hrest := Lexeme.isChain_around (x := .comma) rfl ihx ihy
    exact Lexeme.isChain_cons rfl (Lexeme.isChain_cons rfl hrest)

theorem head_ne_listClose (h : Grammar part xs) :
    ∃ x ys, xs = x :: ys ∧ x ≠ .listClose ∧ (part = .members → ∃ body, x = .string body) := by
  induction h with
  | lastItem _ ih =>
    obtain ⟨x, ys, rfl, hx, -⟩ := ih
    exact ⟨x, ys, rfl, hx, nofun⟩
  | item _ _ ihx _ =>
    obtain ⟨x, ys, rfl, hx, -⟩ := ihx
    exact ⟨x, _, rfl, hx, nofun⟩
  | lastMember | member => exact ⟨_, _, rfl, nofun, fun _ => ⟨_, rfl⟩⟩
  | _ => exact ⟨_, _, rfl, nofun, nofun⟩

end Grammar

theorem Token.Is.kind_ne_listClose {t : Token} {x : Lexeme} (h : t.Is x) (hx : x ≠ .listClose) :
    t.kind ≠ .listClose := by
  intro ht
  cases x with
  | listClose => exact hx rfl
  | string body =>
    obtain ⟨read, h, -⟩ := h
    rw [ht] at h
    cases h
  | _ =>
    have h : t.kind = _ := h
    rw [ht] at h
    cases h

/-! What one token does to what is expected. -/

section
variable {e e' : Expect} {f : Frame} {fs fs' : List Frame} {t : Token} {ts : List Token}

/-- What follows a value: nothing that is passed over, or more of the frame around it. -/
def resume : List Frame → List Token → Except Stop (List Token)
  | [], ts => .ok ts
  | f :: fs, ts => skip .more (f :: fs) ts

theorem skip_more (h : skipToken e fs t = .ok (.more, fs')) (ts : List Token) :
    skip e fs (t :: ts) = resume fs' ts := by
  rw [skip, h]
  cases fs' <;> rfl

theorem skip_on (h : skipToken e fs t = .ok (e', fs')) (he : e'.isDone fs' = false)
    (ts : List Token) : skip e fs (t :: ts) = skip e' fs' ts := by
  rw [skip, h]
  dsimp only
  rw [he]
  rfl

theorem skip_listItem (ht : t.kind ≠ .listClose) (f : Frame) (fs : List Frame) (ts : List Token) :
    skip .listItem (f :: fs) (t :: ts) = skip .value (f :: fs) (t :: ts) := by
  have h : skipToken .listItem (f :: fs) t = skipToken .value (f :: fs) t := by
    rw [skipToken_value]
    unfold skipToken
    split <;> simp_all
  rw [skip, skip, h]

theorem skip_key {body : List UInt8} (ht : t.Is (.string body)) (fs : List Frame)
    (ts : List Token) : skip .key fs (t :: ts) = skip .colon fs ts := by
  obtain ⟨read, hkind, -⟩ := ht
  have h : skipToken .key fs t = .ok (.colon, fs) := by simp [skipToken, skipKey, hkind, Except.map]
  exact skip_on h rfl ts

theorem skip_objectItem {body : List UInt8} (ht : t.Is (.string body)) (f : Frame)
    (fs : List Frame) (ts : List Token) :
    skip .objectItem (f :: fs) (t :: ts) = skip .key (f :: fs) (t :: ts) := by
  obtain ⟨read, hkind, hread⟩ := ht
  have h : skipToken .objectItem (f :: fs) t = .ok (.colon, f :: fs) := by
    simp [skipToken, skipKey, hkind, Except.map]
  rw [skip_key ⟨read, hkind, hread⟩]
  exact skip_on h rfl ts

theorem skip_colon (ht : t.kind = .colon) (fs : List Frame) (ts : List Token) :
    skip .colon fs (t :: ts) = skip .value fs ts := by
  have h : skipToken .colon fs t = .ok (.value, fs) := by simp [skipToken, ht]
  exact skip_on h rfl ts

theorem skip_listComma (ht : t.kind = .comma) (fs : List Frame) (ts : List Token) :
    skip .more (.list :: fs) (t :: ts) = skip .value (.list :: fs) ts := by
  have h : skipToken .more (.list :: fs) t = .ok (.value, .list :: fs) := by simp [skipToken, ht]
  exact skip_on h rfl ts

theorem skip_objectComma (ht : t.kind = .comma) (fs : List Frame) (ts : List Token) :
    skip .more (.object :: fs) (t :: ts) = skip .key (.object :: fs) ts := by
  have h : skipToken .more (.object :: fs) t = .ok (.key, .object :: fs) := by simp [skipToken, ht]
  exact skip_on h rfl ts

theorem skip_listOpen (ht : t.kind = .listOpen) (fs : List Frame) (ts : List Token) :
    skip .value fs (t :: ts) = skip .listItem (.list :: fs) ts := by
  have h : skipToken .value fs t = .ok (.listItem, .list :: fs) := by
    simp [skipToken, skipValue, ht]
  exact skip_on h rfl ts

theorem skip_objectOpen (ht : t.kind = .objectOpen) (fs : List Frame) (ts : List Token) :
    skip .value fs (t :: ts) = skip .objectItem (.object :: fs) ts := by
  have h : skipToken .value fs t = .ok (.objectItem, .object :: fs) := by
    simp [skipToken, skipValue, ht]
  exact skip_on h rfl ts

theorem skip_listClose (ht : t.kind = .listClose) (he : e = .listItem ∨ e = .more)
    (fs : List Frame) (ts : List Token) : skip e (.list :: fs) (t :: ts) = resume fs ts := by
  have h : skipToken e (.list :: fs) t = .ok (.more, fs) := by
    rcases he with rfl | rfl <;> simp [skipToken, ht]
  exact skip_more h ts

theorem skip_objectClose (ht : t.kind = .objectClose) (he : e = .objectItem ∨ e = .more)
    (fs : List Frame) (ts : List Token) : skip e (.object :: fs) (t :: ts) = resume fs ts := by
  have h : skipToken e (.object :: fs) t = .ok (.more, fs) := by
    rcases he with rfl | rfl <;> simp [skipToken, ht]
  exact skip_more h ts

theorem skip_scalar (ht : skipValue fs t = .ok (.more, fs)) (ts : List Token) :
    skip .value fs (t :: ts) = resume fs ts :=
  skip_more (by rw [skipToken_value, ht]) ts

end

/-- What is expected at the front of a part. -/
def Part.expect : Part → Expect
  | value | items => .value
  | members => .key

/-- The frames that are open within a part. -/
def Part.within : Part → List Frame → List Frame
  | value, fs => fs
  | items, fs => .list :: fs
  | members, fs => .object :: fs

/-- The tokens of a part are passed over, and none of those after it. -/
theorem skip_grammar {part : Part} {xs : List Lexeme} (h : Grammar part xs) {ts : List Token}
    (hts : List.Forall₂ Token.Is ts xs) (fs : List Frame) (rest : List Token) :
    skip part.expect (part.within fs) (ts ++ rest) = resume (part.within fs) rest := by
  induction h generalizing ts fs rest with
  | null | boolean | number =>
    obtain ⟨t, _, ht, hnil, rfl⟩ := List.forall₂_cons_right_iff.1 hts
    cases hnil
    have ht : t.kind = _ := ht
    exact skip_scalar (by simp [skipValue, Token.skipScalar, ht, Except.map]) rest
  | string =>
    obtain ⟨t, _, ⟨read, ht, -⟩, hnil, rfl⟩ := List.forall₂_cons_right_iff.1 hts
    cases hnil
    exact skip_scalar (by simp [skipValue, Token.skipScalar, ht, Except.map]) rest
  | emptyList =>
    obtain ⟨t, _, ht, hclose, rfl⟩ := List.forall₂_cons_right_iff.1 hts
    obtain ⟨u, _, hu, hnil, rfl⟩ := List.forall₂_cons_right_iff.1 hclose
    cases hnil
    exact (skip_listOpen ht fs _).trans (skip_listClose hu (.inl rfl) fs rest)
  | emptyObject =>
    obtain ⟨t, _, ht, hclose, rfl⟩ := List.forall₂_cons_right_iff.1 hts
    obtain ⟨u, _, hu, hnil, rfl⟩ := List.forall₂_cons_right_iff.1 hclose
    cases hnil
    exact (skip_objectOpen ht fs _).trans (skip_objectClose hu (.inl rfl) fs rest)
  | list h ih =>
    obtain ⟨t, us, u, rfl, ht, hus, hu⟩ := Aligned.exists_between hts
    have hvalue := ih hus fs (u :: rest)
    obtain ⟨x, ys, rfl, hx, -⟩ := h.head_ne_listClose
    obtain ⟨v, vs, hv, -, rfl⟩ := List.forall₂_cons_right_iff.1 hus
    calc skip .value fs (t :: (v :: vs ++ [u]) ++ rest)
        = skip .listItem (.list :: fs) (v :: vs ++ u :: rest) := by
          rw [List.cons_append, skip_listOpen ht, List.append_assoc]
          rfl
      _ = skip .value (.list :: fs) (v :: vs ++ u :: rest) :=
          skip_listItem (hv.kind_ne_listClose hx) .list fs _
      _ = skip .more (.list :: fs) (u :: rest) := hvalue
      _ = resume fs rest := skip_listClose hu (.inr rfl) fs rest
  | object h ih =>
    obtain ⟨t, us, u, rfl, ht, hus, hu⟩ := Aligned.exists_between hts
    have hvalue := ih hus fs (u :: rest)
    obtain ⟨x, ys, rfl, -, hx⟩ := h.head_ne_listClose
    obtain ⟨body, rfl⟩ := hx rfl
    obtain ⟨v, vs, hv, -, rfl⟩ := List.forall₂_cons_right_iff.1 hus
    calc skip .value fs (t :: (v :: vs ++ [u]) ++ rest)
        = skip .objectItem (.object :: fs) (v :: vs ++ u :: rest) := by
          rw [List.cons_append, skip_objectOpen ht, List.append_assoc]
          rfl
      _ = skip .key (.object :: fs) (v :: vs ++ u :: rest) := skip_objectItem hv .object fs _
      _ = skip .more (.object :: fs) (u :: rest) := hvalue
      _ = resume fs rest := skip_objectClose hu (.inr rfl) fs rest
  | lastItem h ih => exact ih hts (.list :: fs) rest
  | item hx hy ihx ihy =>
    obtain ⟨us, _, rfl, hus, hmore⟩ := Aligned.exists_append hts
    obtain ⟨c, vs, hc, hvs, rfl⟩ := List.forall₂_cons_right_iff.1 hmore
    calc skip .value (.list :: fs) (us ++ c :: vs ++ rest)
        = skip .value (.list :: fs) (us ++ c :: (vs ++ rest)) := by rw [List.append_assoc]; rfl
      _ = skip .more (.list :: fs) (c :: (vs ++ rest)) := ihx hus (.list :: fs) _
      _ = skip .value (.list :: fs) (vs ++ rest) := skip_listComma hc fs _
      _ = skip .more (.list :: fs) rest := ihy hvs fs rest
  | lastMember h ih =>
    obtain ⟨k, _, hk, hcolon, rfl⟩ := List.forall₂_cons_right_iff.1 hts
    obtain ⟨c, vs, hc, hvs, rfl⟩ := List.forall₂_cons_right_iff.1 hcolon
    exact (skip_key hk _ _).trans ((skip_colon hc _ _).trans (ih hvs (.object :: fs) rest))
  | member hx hy ihx ihy =>
    obtain ⟨k, _, hk, hcolon, rfl⟩ := List.forall₂_cons_right_iff.1 hts
    obtain ⟨c, _, hc, hvalue, rfl⟩ := List.forall₂_cons_right_iff.1 hcolon
    obtain ⟨us, _, rfl, hus, hmore⟩ := Aligned.exists_append hvalue
    obtain ⟨d, vs, hd, hvs, rfl⟩ := List.forall₂_cons_right_iff.1 hmore
    calc skip .key (.object :: fs) (k :: c :: (us ++ d :: vs) ++ rest)
        = skip .colon (.object :: fs) (c :: (us ++ d :: vs) ++ rest) := skip_key hk _ _
      _ = skip .value (.object :: fs) (us ++ d :: (vs ++ rest)) := by
          rw [List.cons_append, skip_colon hc, List.append_assoc]
          rfl
      _ = skip .more (.object :: fs) (d :: (vs ++ rest)) := ihx hus (.object :: fs) _
      _ = skip .key (.object :: fs) (vs ++ rest) := skip_objectComma hd fs _
      _ = skip .more (.object :: fs) rest := ihy hvs fs rest

end LatencyDigest.Json
