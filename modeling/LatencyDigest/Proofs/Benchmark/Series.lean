import LatencyDigest.Benchmark.Reader
import LatencyDigest.Proofs.Json.Grammar

/-! The series of benchmark results: lists of number literals, and the reader on each of them. -/

namespace LatencyDigest

open Json (Lexeme Literal Token Stop)

namespace Json.Literal

def ofDigits (ds : List Nat) : Nat := ds.foldl (fun n d => n * 10 + d) 0

/-- The literal is digits alone, and they are those of a word. -/
structure IsCount (l : Literal) (n : UInt64) : Prop where
  negative_eq : l.negative = false
  places_eq : l.places = []
  power_eq : l.power = none
  whole_eq : ofDigits l.whole = n.toNat

/-- The time that a literal stands for, if it is within reach. -/
def seconds? (l : Literal) : Option Binary64 :=
  l.number.map fun
  | .natural n => .ofNat n
  | .negative i => .ofInt i
  | .float x => x

theorem le_foldl (ds : List Nat) (n : Nat) : n ≤ ds.foldl (fun n d => n * 10 + d) n := by
  induction ds generalizing n with
  | nil => exact Nat.le_refl n
  | cons d ds ih => exact Nat.le_trans (by omega) (ih (n * 10 + d))

theorem fit_eq {limit n : Nat} {ds : List Nat}
    (h : ds.foldl (fun n d => n * 10 + d) n < limit) :
    fit limit n ds = (ds.foldl (fun n d => n * 10 + d) n, []) := by
  induction ds generalizing n with
  | nil => rfl
  | cons d ds ih =>
    rw [List.foldl_cons] at h ⊢
    rw [fit, if_pos (Nat.lt_of_le_of_lt (le_foldl ds _) h), ih h]

theorem IsCount.number_eq {l : Literal} {n : UInt64} (h : l.IsCount n) :
    l.number = some (.natural n.toNat) := by
  have hfit : fit wordLimit 0 l.whole = (n.toNat, []) := by
    have hlt : ofDigits l.whole < wordLimit := by
      rw [h.whole_eq]
      exact n.toNat_lt
    rw [← h.whole_eq]
    exact fit_eq hlt
  rw [number, hfit]
  simp [h.places_eq, h.power_eq, h.negative_eq]

end Json.Literal

namespace Benchmark

variable {α : Type} {element : Token → Except Stop α} {means : Literal → α → Prop}
  {ls : List Literal} {xs : List α} {t u : Token} {ts rest : List Token}

theorem size_eq {l : Literal} {n : UInt64} (ht : t.Is (.number l)) (h : l.IsCount n) :
    size t = .ok n := by
  have ht : t.kind = .number (.ok l) := ht
  simp [size, number, ht, h.number_eq, bind, Except.bind, pure, Except.pure]

theorem seconds_eq {l : Literal} {x : Binary64} (ht : t.Is (.number l))
    (h : l.seconds? = some x) : seconds t = .ok x := by
  have ht : t.kind = .number (.ok l) := ht
  obtain ⟨n, hn, rfl⟩ := Option.map_eq_some_iff.1 h
  cases n <;> simp [seconds, number, ht, hn, bind, Except.bind, pure, Except.pure]

/-- The lexemes of a series. -/
def seriesOf (ls : List Literal) : List Lexeme :=
  .listOpen :: (Lexeme.separated (ls.map fun l => [.number l]) ++ [.listClose])

theorem isChain_seriesOf (ls : List Literal) : (seriesOf ls).IsChain Lexeme.Apart := by
  refine Lexeme.isChain_between rfl rfl (Lexeme.isChain_separated fun xs hxs => ?_)
  obtain ⟨l, -, rfl⟩ := List.mem_map.1 hxs
  exact .singleton _

section
variable (he : ∀ {t : Token} {l : Literal} {x : α}, t.Is (.number l) → means l x →
  element t = .ok x)
include he

theorem moreElements_append (h : List.Forall₂ means ls xs)
    (hts : List.Forall₂ Token.Is ts (ls.flatMap fun l => [.comma, .number l]))
    (hu : u.kind = .listClose) (rest : List Token) :
    moreElements element (ts ++ u :: rest) = .ok (xs, rest) := by
  obtain ⟨_, start, size⟩ := u
  cases hu
  induction h generalizing ts with
  | nil =>
    cases hts
    rfl
  | @cons l x ls xs hx _ ih =>
    obtain ⟨⟨_, start, size⟩, _, hc, hitem, rfl⟩ := List.forall₂_cons_right_iff.1 hts
    obtain ⟨t, ts, ht, hmore, rfl⟩ := List.forall₂_cons_right_iff.1 hitem
    cases hc
    have hkind : t.kind = .number (.ok l) := ht
    simp [moreElements, hkind, he ht hx, ih hmore, bind, Except.bind, pure, Except.pure]

theorem series_append (h : List.Forall₂ means ls xs)
    (hts : List.Forall₂ Token.Is ts (seriesOf ls)) (rest : List Token) :
    series element (ts ++ rest) = .ok (xs, rest) := by
  obtain ⟨⟨_, start, size⟩, us, u, rfl, ho, hus, hu⟩ := Aligned.exists_between hts
  cases ho
  cases h with
  | nil =>
    cases hus
    obtain ⟨_, _, _⟩ := u
    cases hu
    rfl
  | @cons l x ls xs hx h =>
    obtain ⟨t, vs, ht, hmore, rfl⟩ := List.forall₂_cons_right_iff.1 hus
    obtain ⟨_, start, size⟩ := t
    cases ht
    rw [List.flatMap_map] at hmore
    have hread := moreElements_append he h hmore hu rest
    have hfirst := he rfl hx (t := ⟨.number (.ok l), start, size⟩)
    simp [series, elements, hfirst, hread, bind, Except.bind, pure, Except.pure]

/-! A series in a list of them. -/

theorem nextSeries_first (h : List.Forall₂ means ls xs)
    (hts : List.Forall₂ Token.Is ts (seriesOf ls)) (rest : List Token) :
    nextSeries element 0 (ts ++ rest) = .ok (xs, rest) := by
  rw [← series_append he h hts rest]
  obtain ⟨t, us, ht, -, rfl⟩ := List.forall₂_cons_right_iff.1 hts
  have ht : t.kind = .listOpen := ht
  simp [nextSeries, ht]

theorem nextSeries_comma {count : Nat} (h : List.Forall₂ means ls xs) (hu : u.kind = .comma)
    (hts : List.Forall₂ Token.Is ts (seriesOf ls)) (hcount : count ≠ 0) (rest : List Token) :
    nextSeries element count (u :: ts ++ rest) = .ok (xs, rest) := by
  rw [← series_append he h hts rest]
  obtain ⟨t, us, ht, -, rfl⟩ := List.forall₂_cons_right_iff.1 hts
  have ht : t.kind = .listOpen := ht
  simp [nextSeries, hu, ht, hcount]

end

end Benchmark

end LatencyDigest
