import LatencyDigest.Proofs.Benchmark.Document
import LatencyDigest.Proofs.Json.Passing

/-! What is read as benchmark results is a document of them. The reader is followed from the front
of the text to its end, and with each token a lexeme of the document is found. -/

namespace LatencyDigest

open Json (Grammar Lexeme Literal Quoted.Reads Stop Token)
open Json.Lexeme (Runs)
open Json.Token (Scans)

namespace Json.Literal

variable {limit n : Nat} {ds : List Nat} {l : Literal}

theorem fit_lt (hn : n < limit) (ds : List Nat) : (fit limit n ds).1 < limit := by
  induction ds generalizing n with
  | nil => exact hn
  | cons d ds ih =>
    rw [fit]
    split
    · next h => exact ih h
    · exact hn

theorem foldl_of_fit (h : (fit limit n ds).2 = []) :
    ds.foldl (fun n d => n * 10 + d) n = (fit limit n ds).1 := by
  induction ds generalizing n with
  | nil => rfl
  | cons d ds ih =>
    rw [fit] at h ⊢
    split at h
    · next hlt =>
      rw [if_pos hlt]
      exact ih h
    · cases h

theorem isCount_of_number (h : l.number = some (.natural n)) : l.IsCount (UInt64.ofNat n) := by
  rw [number] at h
  have hlt : (fit wordLimit 0 l.whole).1 < wordLimit := fit_lt (Nat.two_pow_pos 64) l.whole
  have hfold : (fit wordLimit 0 l.whole).2 = [] →
      ofDigits l.whole = (fit wordLimit 0 l.whole).1 := foldl_of_fit
  generalize fit wordLimit 0 l.whole = found at h hlt hfold
  obtain ⟨m, zeros⟩ := found
  dsimp only at h
  split at h
  · next hwhole =>
    obtain ⟨hplaces, hpower, hzeros, -⟩ := hwhole
    cases hnegative : l.negative with
    | true => simp [hnegative] at h
    | false =>
      obtain rfl : m = n := by simpa [hnegative] using h
      refine ⟨hnegative, hplaces, hpower, ?_⟩
      rw [UInt64.toNat_ofNat_of_lt' hlt]
      exact hfold hzeros
  · simp at h

end Json.Literal

namespace Benchmark

section
variable {α : Type} {element : Token → Except Stop α} {means : Literal → α → Prop}
  {xs : List α} {t : Token} {ts rest : List Token} {s : List UInt8}

theorem literal_of_number {wanted : Json.Wanted} {n : Literal.Number}
    (h : number wanted t = .ok n) : ∃ l, t.Is (.number l) ∧ l.number = some n := by
  rw [number] at h
  split at h
  · next l hkind =>
    split at h
    · next hn =>
      cases h
      exact ⟨l, hkind, hn⟩
    · cases h
  · cases h

theorem literal_of_size {n : UInt64} (h : size t = .ok n) :
    ∃ l, t.Is (.number l) ∧ l.IsCount n := by
  obtain ⟨v, hv, h⟩ := Outcome.bind_eq_ok_iff.1 h
  obtain ⟨l, hl, hnumber⟩ := literal_of_number hv
  cases v with
  | natural =>
    cases h
    exact ⟨l, hl, Literal.isCount_of_number hnumber⟩
  | negative | float => cases h

theorem literal_of_seconds {x : Binary64} (h : seconds t = .ok x) :
    ∃ l, t.Is (.number l) ∧ l.seconds? = some x := by
  obtain ⟨v, hv, h⟩ := Outcome.bind_eq_ok_iff.1 h
  obtain ⟨l, hl, hnumber⟩ := literal_of_number hv
  refine ⟨l, hl, ?_⟩
  rw [Literal.seconds?, hnumber]
  cases v <;>
  · cases h
    rfl

/-! The series. -/

theorem seriesOf_cons (l : Literal) (ls : List Literal) :
    seriesOf (l :: ls) = .listOpen :: .number l ::
      ((ls.flatMap fun l => [.comma, .number l]) ++ [.listClose]) := by
  rw [seriesOf, List.map_cons, Lexeme.separated, List.flatMap_map]
  rfl

section
variable (he : ∀ {t : Token} {x : α}, element t = .ok x → ∃ l, t.Is (.number l) ∧ means l x)
include he

theorem runs_of_moreElements (h : moreElements element ts = .ok (xs, rest)) (hs : Scans s ts) :
    ∃ ls r, Runs ((ls.flatMap fun l => [.comma, .number l]) ++ [.listClose]) s r ∧
      Scans r rest ∧ List.Forall₂ means ls xs := by
  fun_induction moreElements element ts generalizing xs s with
  | case1 => cases h
  | case2 =>
    cases h
    obtain ⟨r, hruns, hr⟩ := hs.uncons_of_is (x := .listClose) rfl rfl
    exact ⟨[], r, hruns, hr, .nil⟩
  | case3 => cases h
  | case4 => cases h
  | case5 _ _ t ts _ ih =>
    obtain ⟨x, hx, h⟩ := Outcome.bind_eq_ok_iff.1 h
    obtain ⟨⟨ys, _⟩, hmore, h⟩ := Outcome.bind_eq_ok_iff.1 h
    cases h
    obtain ⟨l, hl, hmeans⟩ := he hx
    obtain ⟨r₁, hcomma, hr₁⟩ := hs.uncons_of_is (x := .comma) rfl rfl
    obtain ⟨r₂, hnumber, hr₂⟩ := hr₁.uncons_of_is hl rfl
    obtain ⟨ls, r, hruns, hr, hys⟩ := ih hmore hr₂
    exact ⟨l :: ls, r, hcomma.append (hnumber.append hruns), hr, .cons hmeans hys⟩
  | case6 => cases h

theorem runs_of_series (h : series element ts = .ok (xs, rest)) (hs : Scans s ts) :
    ∃ ls r, Runs (seriesOf ls) s r ∧ Scans r rest ∧ List.Forall₂ means ls xs := by
  unfold series at h
  split at h
  · cases h
  · obtain ⟨r₁, hopen, hr₁⟩ := hs.uncons_of_is (x := .listOpen) rfl rfl
    unfold elements at h
    split at h
    · cases h
    · cases h
      obtain ⟨r, hclose, hr⟩ := hr₁.uncons_of_is (x := .listClose) rfl rfl
      exact ⟨[], r, hopen.append hclose, hr, .nil⟩
    · obtain ⟨x, hx, h⟩ := Outcome.bind_eq_ok_iff.1 h
      obtain ⟨⟨ys, _⟩, hmore, h⟩ := Outcome.bind_eq_ok_iff.1 h
      cases h
      obtain ⟨l, hl, hmeans⟩ := he hx
      obtain ⟨r₂, hnumber, hr₂⟩ := hr₁.uncons_of_is hl rfl
      obtain ⟨ls, r, hruns, hr, hys⟩ := runs_of_moreElements he hmore hr₂
      refine ⟨l :: ls, r, ?_, hr, .cons hmeans hys⟩
      rw [seriesOf_cons]
      exact hopen.append (hnumber.append hruns)
  · cases h

end

end

/-! The members of an object. -/

namespace Literals

/-- The literals once those of a series are found. -/
def put (lit : Literals) (f : Field) (ls : List Literal) : Literals :=
  match f with
  | .sizes => { lit with sizes := ls }
  | .baseline => { lit with baseline := ls }
  | .optimized => { lit with optimized := ls }

variable {lit : Literals} {f g : Field} {ls : List Literal}

theorem of_put : (lit.put f ls).of f = ls := by cases f <;> rfl

theorem of_put_of_ne (h : g ≠ f) : (lit.put f ls).of g = lit.of g := by
  cases f <;> cases g <;> first | rfl | exact absurd rfl h

end Literals

theorem Field.mem_all (f : Field) : f ∈ Field.all := by cases f <;> decide

theorem Member.congr {lit lit' : Literals} {f? : Option Field} {xs : List Lexeme}
    (h : Member lit f? xs) (hf : ∀ f ∈ f?, lit'.of f = lit.of f) : Member lit' f? xs := by
  cases h with
  | series hkey =>
    rw [← hf _ rfl]
    exact .series hkey
  | other hkey hother hvalue => exact .other hkey hother hvalue

/-- The fields that have been read are those, and the literals stand for what has been read. -/
structure Partial.Holds (p : Partial) (lit : Literals) (done : List Field) : Prop where
  nodup : done.Nodup
  has : ∀ f, p.has f = decide (f ∈ done)
  sizes : ∀ ns ∈ p.sizes, List.Forall₂ Literal.IsCount lit.sizes ns
  baseline : ∀ xs ∈ p.baseline, List.Forall₂ (fun l x => l.seconds? = some x) lit.baseline xs
  optimized : ∀ xs ∈ p.optimized, List.Forall₂ (fun l x => l.seconds? = some x) lit.optimized xs

namespace Partial

variable {p q : Partial} {lit : Literals} {done : List Field} {f : Field} {b : Benchmark}
  {ts rest : List Token} {s : List UInt8}

theorem holds_none (lit : Literals) : Partial.none.Holds lit [] :=
  ⟨List.nodup_nil, fun f => by cases f <;> rfl, nofun, nofun, nofun⟩

theorem has_of_read (h : p.read f ts = .ok (q, rest)) (g : Field) :
    q.has g = (decide (g = f) || p.has g) := by
  cases f <;>
  · obtain ⟨_, -, h⟩ := Outcome.map_eq_ok_iff.1 h
    cases h
    cases g <;> simp [has]

theorem runs_of_read (hp : p.Holds lit done) (hf : f ∉ done) (h : p.read f ts = .ok (q, rest))
    (hs : Scans s ts) :
    ∃ ls r, Runs (seriesOf ls) s r ∧ Scans r rest ∧ q.Holds (lit.put f ls) (f :: done) := by
  have hnodup := List.nodup_cons.2 ⟨hf, hp.nodup⟩
  have hhas : ∀ g, q.has g = decide (g ∈ f :: done) := by
    intro g
    rw [has_of_read h, hp.has, ← Bool.decide_or]
    exact decide_eq_decide.2 List.mem_cons.symm
  cases f with
  | sizes =>
    obtain ⟨_, hread, h⟩ := Outcome.map_eq_ok_iff.1 h
    cases h
    obtain ⟨ls, r, hruns, hr, hmeans⟩ := runs_of_series literal_of_size hread hs
    refine ⟨ls, r, hruns, hr, hnodup, hhas, ?_, hp.baseline, hp.optimized⟩
    rintro _ ⟨⟩
    exact hmeans
  | baseline =>
    obtain ⟨_, hread, h⟩ := Outcome.map_eq_ok_iff.1 h
    cases h
    obtain ⟨ls, r, hruns, hr, hmeans⟩ := runs_of_series literal_of_seconds hread hs
    refine ⟨ls, r, hruns, hr, hnodup, hhas, hp.sizes, ?_, hp.optimized⟩
    rintro _ ⟨⟩
    exact hmeans
  | optimized =>
    obtain ⟨_, hread, h⟩ := Outcome.map_eq_ok_iff.1 h
    cases h
    obtain ⟨ls, r, hruns, hr, hmeans⟩ := runs_of_series literal_of_seconds hread hs
    refine ⟨ls, r, hruns, hr, hnodup, hhas, hp.sizes, hp.baseline, ?_⟩
    rintro _ ⟨⟩
    exact hmeans

/-- When the object is closed, every field has been read once. -/
theorem Holds.finish (hp : p.Holds lit done) (h : p.finish = .ok b) :
    lit.Stands b ∧ done.Perm Field.all := by
  unfold Partial.finish at h
  split at h
  · next sizes baseline optimized hsizes hbaseline hoptimized =>
    cases h
    refine ⟨⟨hp.sizes _ hsizes, hp.baseline _ hbaseline, hp.optimized _ hoptimized⟩, ?_⟩
    have hall : ∀ f, f ∈ done := by
      intro f
      have hhas := hp.has f
      cases f <;> simp_all [Partial.has]
    exact (List.perm_ext_iff_of_nodup hp.nodup (by decide)).2 fun f =>
      iff_of_true (hall f) f.mem_all
  · cases h
  · cases h
  · cases h

end Partial

section
variable {p q : Partial} {lit : Literals} {done : List Field} {f : Field} {b : Benchmark}
  {t : Token} {ts rest : List Token} {s content : List UInt8}

theorem name_of_ofKey? (h : Field.ofKey? content = some f) :
    content = Text.encode f.name.toList := by
  have hname := List.find?_some h
  exact (of_decide_eq_true hname).symm

theorem ne_of_ofKey? (h : Field.ofKey? content = none) (f : Field) :
    content ≠ Text.encode f.name.toList := by
  have hf := List.find?_eq_none.1 h f f.mem_all
  exact fun he => hf (decide_eq_true he.symm)

theorem runs_of_afterColon (h : afterColon ts = .ok rest) (hs : Scans s ts) :
    ∃ r, Runs [.colon] s r ∧ Scans r rest := by
  unfold afterColon at h
  split at h
  · cases h
  · cases h
    exact hs.uncons_of_is (x := .colon) rfl rfl
  · cases h

theorem runs_of_key (h : key t = .ok content) (hs : Scans s (t :: ts)) :
    ∃ body r, Runs [.string body] s r ∧ Quoted.Reads body content ∧ Scans r ts := by
  unfold key at h
  split at h
  · next hkind =>
    rw [h] at hkind
    exact hs.uncons_of_read hkind
  · cases h

/-- One member. What was known of the fields stays known. -/
theorem runs_of_member (hp : p.Holds lit done) (hkey : key t = .ok content)
    (h : member p content ts = .ok (q, rest)) (hs : Scans s (t :: ts)) :
    ∃ f? lit' xs r, Runs xs s r ∧ Scans r rest ∧ Member lit' f? xs ∧
      (∀ f ∈ done, lit'.of f = lit.of f) ∧ q.Holds lit' (f?.toList ++ done) := by
  obtain ⟨body, r₁, hname, hreads, hr₁⟩ := runs_of_key hkey hs
  unfold member at h
  split at h
  · next f hf =>
    split at h
    · cases h
    · next hhas =>
      have hdone : f ∉ done := by simpa [hp.has f] using hhas
      obtain ⟨us, hcolon, h⟩ := Outcome.bind_eq_ok_iff.1 h
      obtain ⟨r₂, hruns₂, hr₂⟩ := runs_of_afterColon hcolon hr₁
      obtain ⟨ls, r, hruns, hr, hq⟩ := Partial.runs_of_read hp hdone h hr₂
      rw [name_of_ofKey? hf] at hreads
      have hmember : Member (lit.put f ls) (some f) (.string body :: .colon :: seriesOf ls) := by
        have hseries := @Member.series (lit.put f ls) f body hreads
        rwa [Literals.of_put] at hseries
      exact ⟨some f, lit.put f ls, _, r, hname.append (hruns₂.append hruns), hr, hmember,
        fun g hg => Literals.of_put_of_ne (ne_of_mem_of_not_mem hg hdone), hq⟩
  · next hf =>
    obtain ⟨us, hcolon, h⟩ := Outcome.bind_eq_ok_iff.1 h
    obtain ⟨r₂, hruns₂, hr₂⟩ := runs_of_afterColon hcolon hr₁
    obtain ⟨_, hskip, h⟩ := Outcome.bind_eq_ok_iff.1 h
    cases h
    obtain ⟨xs, r, hruns, hr, hvalue⟩ := Json.grammar_of_skip hskip hr₂
    exact ⟨none, lit, _, r, hname.append (hruns₂.append hruns), hr,
      .other hreads (ne_of_ofKey? hf) hvalue, fun _ _ => rfl, hp⟩

/-- The members after some, of which the fields that are done have been read. -/
theorem runs_of_moreMembers (hp : p.Holds lit done) (h : moreMembers p ts = .ok (b, rest))
    (hs : Scans s ts) :
    ∃ (lit' : Literals) (members : List (Option Field × List Lexeme)) (r : List UInt8),
      Runs (((members.map Prod.snd).flatMap fun ys => .comma :: ys) ++ [.objectClose]) s r ∧
      Scans r rest ∧ (∀ m ∈ members, Member lit' m.1 m.2) ∧
      (∀ f ∈ done, lit'.of f = lit.of f) ∧ lit'.Stands b ∧
      (members.filterMap Prod.fst ++ done).Perm Field.all := by
  fun_induction moreMembers p ts generalizing lit done s with
  | case1 => cases h
  | case2 p t ts hkind =>
    unfold closed at h
    split at h
    · next hfinish =>
      cases h
      obtain ⟨hstands, hperm⟩ := hp.finish hfinish
      obtain ⟨r, hclose, hr⟩ := hs.uncons_of_is (x := .objectClose) hkind rfl
      exact ⟨lit, [], r, hclose, hr, nofun, fun _ _ => rfl, hstands, hperm⟩
    · cases h
  | case7 p t hkind k ts name hname q us hmember _ _ ih =>
    obtain ⟨r₁, hcomma, hr₁⟩ := hs.uncons_of_is (x := .comma) hkind rfl
    -- the literals of this member are fixed here, and the members after it leave them as they are
    obtain ⟨f?, lit₁, xs, r₂, hruns, hr₂, hm, hsame₁, hq⟩ := runs_of_member hp hname hmember hr₁
    obtain ⟨lit', members, r, hmore, hr, hmembers, hsame, hstands, hperm⟩ := ih hq h hr₂
    refine ⟨lit', (f?, xs) :: members, r, ?_, hr,
      List.forall_mem_cons.2 ⟨hm.congr fun f hf => hsame f (by simp_all), hmembers⟩,
      fun f hf => (hsame f (List.mem_append_right _ hf)).trans (hsame₁ f hf), hstands, ?_⟩
    · simpa using hcomma.append (hruns.append hmore)
    · rw [fields_cons, List.append_assoc]
      exact (List.perm_append_comm_assoc ..).trans hperm
  | _ => cases h

theorem runs_of_members (h : Benchmark.members ts = .ok (b, rest)) (hs : Scans s ts) :
    ∃ (lit : Literals) (members : List (Option Field × List Lexeme)) (r : List UInt8),
      Runs (Lexeme.separated (members.map Prod.snd) ++ [.objectClose]) s r ∧ Scans r rest ∧
      (∀ m ∈ members, Member lit m.1 m.2) ∧ lit.Stands b ∧
      (members.filterMap Prod.fst).Perm Field.all := by
  unfold Benchmark.members at h
  split at h
  · cases h
  · split at h
    · cases h
    · obtain ⟨name, hname, h⟩ := Outcome.bind_eq_ok_iff.1 h
      obtain ⟨⟨p, us⟩, hmember, h⟩ := Outcome.bind_eq_ok_iff.1 h
      obtain ⟨f?, lit₁, xs, r₁, hruns, hr₁, hm, -, hp⟩ :=
        runs_of_member (Partial.holds_none ⟨[], [], []⟩) hname hmember hs
      obtain ⟨lit, members, r, hmore, hr, hmembers, hsame, hstands, hperm⟩ :=
        runs_of_moreMembers hp h hr₁
      refine ⟨lit, (f?, xs) :: members, r, ?_, hr,
        List.forall_mem_cons.2 ⟨hm.congr fun f hf => hsame f (by simp_all), hmembers⟩, hstands, ?_⟩
      · simpa [Lexeme.separated] using hruns.append hmore
      · rw [fields_cons]
        rw [List.append_nil] at hperm
        exact List.perm_append_comm.trans hperm

end

/-! A list of the three series. -/

section
variable {α : Type} {element : Token → Except Stop α} {xs : List α} {b : Benchmark}
  {ts rest : List Token} {s : List UInt8}

theorem series_of_nextSeries_zero (h : nextSeries element 0 ts = .ok (xs, rest)) :
    series element ts = .ok (xs, rest) := by
  unfold nextSeries at h
  split at h
  · cases h
  · split at h
    · cases h
    · exact h
    · exact h

theorem series_of_nextSeries {count : Nat} (hcount : count ≠ 0)
    (h : nextSeries element count ts = .ok (xs, rest)) :
    ∃ u us, ts = u :: us ∧ u.kind = .comma ∧ series element us = .ok (xs, rest) := by
  unfold nextSeries at h
  split at h
  · cases h
  · next u us =>
    split at h
    · cases h
    · next hkind =>
      rw [if_neg hcount] at h
      split at h
      · cases h
      · split at h
        · cases h
        · exact ⟨u, _, rfl, hkind, h⟩
    · rw [if_neg hcount] at h
      cases h

theorem runs_of_closeList (h : closeList ts = .ok rest) (hs : Scans s ts) :
    ∃ r, Runs [.listClose] s r ∧ Scans r rest := by
  unfold closeList at h
  split at h
  · cases h
  · cases h
    exact hs.uncons_of_is (x := .listClose) rfl rfl
  · cases h
  · split at h <;> cases h
  · cases h

theorem runs_of_threeSeries (h : threeSeries ts = .ok (b, rest)) (hs : Scans s ts) :
    ∃ (lit : Literals) (r : List UInt8),
      Runs (Lexeme.separated [seriesOf lit.sizes, seriesOf lit.baseline, seriesOf lit.optimized] ++
        [.listClose]) s r ∧ Scans r rest ∧ lit.Stands b := by
  obtain ⟨⟨sizes, ts₁⟩, hsizes, h⟩ := Outcome.bind_eq_ok_iff.1 h
  obtain ⟨⟨baseline, ts₂⟩, hbaseline, h⟩ := Outcome.bind_eq_ok_iff.1 h
  obtain ⟨⟨optimized, ts₃⟩, hoptimized, h⟩ := Outcome.bind_eq_ok_iff.1 h
  obtain ⟨_, hclose, h⟩ := Outcome.bind_eq_ok_iff.1 h
  cases h
  obtain ⟨u, us, rfl, hu, hbaseline⟩ := series_of_nextSeries (by decide) hbaseline
  obtain ⟨v, vs, rfl, hv, hoptimized⟩ := series_of_nextSeries (by decide) hoptimized
  obtain ⟨ls₀, r₀, hruns₀, hr₀, hmeans₀⟩ :=
    runs_of_series literal_of_size (series_of_nextSeries_zero hsizes) hs
  obtain ⟨r₁, hcomma₁, hr₁⟩ := hr₀.uncons_of_is (x := .comma) hu rfl
  obtain ⟨ls₁, r₂, hruns₁, hr₂, hmeans₁⟩ := runs_of_series literal_of_seconds hbaseline hr₁
  obtain ⟨r₃, hcomma₂, hr₃⟩ := hr₂.uncons_of_is (x := .comma) hv rfl
  obtain ⟨ls₂, r₄, hruns₂, hr₄, hmeans₂⟩ := runs_of_series literal_of_seconds hoptimized hr₃
  obtain ⟨r, hruns, hr⟩ := runs_of_closeList hclose hr₄
  refine ⟨⟨ls₀, ls₁, ls₂⟩, r, ?_, hr, hmeans₀, hmeans₁, hmeans₂⟩
  simpa [Lexeme.separated] using hruns₀.append (hcomma₁.append (hruns₁.append
    (hcomma₂.append (hruns₂.append hruns))))

end

/-- The text is a document of those results. -/
def Written (text : List UInt8) (b : Benchmark) : Prop :=
  ∃ lit xs, lit.Stands b ∧ Document lit xs ∧ Lexeme.Spaced xs text

variable {b : Benchmark} {text : List UInt8}

theorem written_of_ofTokens (h : ofTokens (Token.list text) = .ok b) : Written text b := by
  have hs := Token.scans_list text
  unfold ofTokens at h
  split at h
  · cases h
  · next hlist =>
    rw [hlist] at hs
    split at h
    · next hkind =>
      obtain ⟨⟨_, rest⟩, hread, h⟩ := Outcome.bind_eq_ok_iff.1 h
      cases rest with
      | cons => cases h
      | nil =>
        cases h
        obtain ⟨r₁, hopen, hr₁⟩ := hs.uncons_of_is (x := .objectOpen) hkind rfl
        obtain ⟨lit, members, r, hruns, hr, hmembers, hstands, hperm⟩ := runs_of_members hread hr₁
        exact ⟨lit, _, hstands, .object hmembers hperm, (hopen.append hruns).spaced hr.isSpace⟩
    · next hkind =>
      obtain ⟨⟨_, rest⟩, hread, h⟩ := Outcome.bind_eq_ok_iff.1 h
      cases rest with
      | cons => cases h
      | nil =>
        cases h
        obtain ⟨r₁, hopen, hr₁⟩ := hs.uncons_of_is (x := .listOpen) hkind rfl
        obtain ⟨lit, r, hruns, hr, hstands⟩ := runs_of_threeSeries hread hr₁
        exact ⟨lit, _, hstands, .list, (hopen.append hruns).spaced hr.isSpace⟩
    · cases h

/-- The texts that are read are those that are documents, and what is read is what is written. -/
theorem ofTokens_eq_ok_iff : ofTokens (Token.list text) = .ok b ↔ Written text b := by
  refine ⟨written_of_ofTokens, ?_⟩
  rintro ⟨lit, xs, hstands, hd, hspaced⟩
  exact ofTokens_document hstands hd (hspaced.is_listFrom hd.isChain 0)

end Benchmark

end LatencyDigest
