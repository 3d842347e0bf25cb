import LatencyDigest.Proofs.Benchmark.Series

/-! The texts of benchmark results: an object with the three series among other members, in any
order, or a list of the three. What is read of them is the series and nothing else. -/

namespace LatencyDigest.Benchmark

open Json (Expect Frame Grammar Lexeme Literal Part Quoted.Reads Stop Token)

/-- The literals of each series. -/
structure Literals where
  sizes : List Literal
  baseline : List Literal
  optimized : List Literal

def Literals.of (lit : Literals) : Field → List Literal
  | .sizes => lit.sizes
  | .baseline => lit.baseline
  | .optimized => lit.optimized

/-- The results that the literals stand for. -/
structure Literals.Stands (lit : Literals) (b : Benchmark) : Prop where
  sizes : List.Forall₂ Literal.IsCount lit.sizes b.sizes
  baseline : List.Forall₂ (fun l x => l.seconds? = some x) lit.baseline b.baseline
  optimized : List.Forall₂ (fun l x => l.seconds? = some x) lit.optimized b.optimized

/-- The members of an object. One of another key has any value; the key of a series may be spelled
in any way. -/
inductive Member (lit : Literals) : Option Field → List Lexeme → Prop where
  | series {f : Field} {body : List UInt8}
      (hkey : Json.Quoted.Reads body (Text.encode f.name.toList)) :
      Member lit (some f) (.string body :: .colon :: seriesOf (lit.of f))
  | other {body content : List UInt8} {xs : List Lexeme} (hkey : Json.Quoted.Reads body content)
      (hother : ∀ f : Field, content ≠ Text.encode f.name.toList) (hvalue : Grammar .value xs) :
      Member lit none (.string body :: .colon :: xs)

/-- The lexemes of a text. Each series is there once. -/
inductive Document (lit : Literals) : List Lexeme → Prop where
  | object {members : List (Option Field × List Lexeme)}
      (hmembers : ∀ m ∈ members, Member lit m.1 m.2)
      (honce : (members.filterMap Prod.fst).Perm Field.all) :
      Document lit (.objectOpen :: (Lexeme.separated (members.map Prod.snd) ++ [.objectClose]))
  | list : Document lit (.listOpen ::
      (Lexeme.separated [seriesOf lit.sizes, seriesOf lit.baseline, seriesOf lit.optimized] ++
        [.listClose]))

variable {lit : Literals} {b : Benchmark} {u : Token} {ts rest : List Token} {xs : List Lexeme}
  {f? : Option Field} {done : List Field}

theorem ofKey?_name (f : Field) : Field.ofKey? (Text.encode f.name.toList) = some f := by
  cases f <;> decide +kernel

theorem ofKey?_eq_none {content : List UInt8}
    (h : ∀ f : Field, content ≠ Text.encode f.name.toList) : Field.ofKey? content = none := by
  refine List.find?_eq_none.2 fun f _ => ?_
  simpa using (h f).symm

/-- What has been read of the results when some of the fields have been. -/
def Partial.of (b : Benchmark) (done : List Field) : Partial where
  sizes := if .sizes ∈ done then some b.sizes else .none
  baseline := if .baseline ∈ done then some b.baseline else .none
  optimized := if .optimized ∈ done then some b.optimized else .none

theorem Partial.has_of (b : Benchmark) (done : List Field) (f : Field) :
    (Partial.of b done).has f = decide (f ∈ done) := by
  cases f <;> simp only [Partial.of, Partial.has] <;> split <;> simp_all

theorem Partial.finish_of (h : ∀ f, f ∈ done) : (Partial.of b done).finish = .ok b := by
  simp [Partial.of, Partial.finish, h]

theorem read_seriesOf (h : lit.Stands b) {f : Field}
    (hts : List.Forall₂ Token.Is ts (seriesOf (lit.of f))) (rest : List Token) :
    (Partial.of b done).read f (ts ++ rest) = .ok (Partial.of b (f :: done), rest) := by
  cases f with
  | sizes =>
    have hread := series_append size_eq h.sizes hts rest
    simp [Partial.read, hread, Except.map, Partial.of]
  | baseline =>
    have hread := series_append seconds_eq h.baseline hts rest
    simp [Partial.read, hread, Except.map, Partial.of]
  | optimized =>
    have hread := series_append seconds_eq h.optimized hts rest
    simp [Partial.read, hread, Except.map, Partial.of]

theorem afterColon_eq (hu : u.kind = .colon) (ts : List Token) : afterColon (u :: ts) = .ok ts := by
  obtain ⟨_, start, size⟩ := u
  cases hu
  rfl

/-- One member, after some fields have been read. -/
theorem member_append (h : lit.Stands b) (hm : Member lit f? xs)
    (hts : List.Forall₂ Token.Is ts xs) (hdone : ∀ f ∈ f?, f ∉ done) (rest : List Token) :
    ∃ k vs content, ts = k :: vs ∧ (∃ read, k.kind = .string read (.ok ())) ∧
      key k = .ok content ∧
      member (Partial.of b done) content (vs ++ rest)
        = .ok (Partial.of b (f?.toList ++ done), rest) := by
  cases hm with
  | @series f body hkey =>
    obtain ⟨k, _, ⟨read, hkind, hread⟩, hcolon, rfl⟩ := List.forall₂_cons_right_iff.1 hts
    obtain ⟨c, vs, hc, hvs, rfl⟩ := List.forall₂_cons_right_iff.1 hcolon
    have hkeyed : key k = .ok (Text.encode f.name.toList) := by
      rw [key, hkind]
      exact hread _ hkey
    refine ⟨k, _, _, rfl, ⟨read, hkind⟩, hkeyed, ?_⟩
    rw [member, ofKey?_name]
    dsimp only
    rw [Partial.has_of, decide_eq_false (hdone f rfl), List.cons_append, afterColon_eq hc]
    exact read_seriesOf h hvs rest
  | @other body content xs hkey hother hvalue =>
    obtain ⟨k, _, ⟨read, hkind, hread⟩, hcolon, rfl⟩ := List.forall₂_cons_right_iff.1 hts
    obtain ⟨c, vs, hc, hvs, rfl⟩ := List.forall₂_cons_right_iff.1 hcolon
    have hkeyed : key k = .ok content := by
      rw [key, hkind]
      exact hread _ hkey
    have hskip : Json.skip .value [] (vs ++ rest) = .ok rest :=
      Json.skip_grammar hvalue hvs [] rest
    refine ⟨k, _, _, rfl, ⟨read, hkind⟩, hkeyed, ?_⟩
    rw [member, ofKey?_eq_none hother, List.cons_append, afterColon_eq hc]
    simp [hskip, bind, Except.bind, pure, Except.pure]

section
variable {p q : Partial} {c k : Token} {name : List UInt8}

theorem moreMembers_close (hu : u.kind = .objectClose) (rest : List Token) :
    moreMembers p (u :: rest) = closed p u rest := by
  obtain ⟨_, start, size⟩ := u
  cases hu
  rw [moreMembers.eq_def]

theorem members_key (hk : ∃ read, k.kind = .string read (.ok ())) (hkey : key k = .ok name)
    (hm : member .none name ts = .ok (q, rest)) :
    Benchmark.members (k :: ts) = moreMembers q rest := by
  obtain ⟨read, hk⟩ := hk
  simp [Benchmark.members, hk, hkey, hm, bind, Except.bind]

theorem moreMembers_comma (hc : c.kind = .comma) (hk : ∃ read, k.kind = .string read (.ok ()))
    (hkey : key k = .ok name) (hm : member p name ts = .ok (q, rest)) :
    moreMembers p (c :: k :: ts) = moreMembers q rest := by
  obtain ⟨_, start, size⟩ := c
  cases hc
  obtain ⟨read, hk⟩ := hk
  obtain ⟨_, kstart, ksize⟩ := k
  cases hk
  rw [moreMembers.eq_def]
  dsimp only
  split
  · next hstop =>
    rw [hkey] at hstop
    cases hstop
  · next content hcontent =>
    rw [hkey] at hcontent
    cases hcontent
    split
    · next hstop =>
      rw [hm] at hstop
      cases hstop
    · next hnext =>
      rw [hm] at hnext
      cases hnext
      rfl

end

section
variable {members : List (Option Field × List Lexeme)}

theorem fields_cons (f? : Option Field) (xs : List Lexeme)
    (members : List (Option Field × List Lexeme)) :
    ((f?, xs) :: members).filterMap Prod.fst = f?.toList ++ members.filterMap Prod.fst := by
  cases f? <;> rfl

theorem moreMembers_append (h : lit.Stands b) (hmembers : ∀ m ∈ members, Member lit m.1 m.2)
    (hts : List.Forall₂ Token.Is ts ((members.map Prod.snd).flatMap fun ys => .comma :: ys))
    (hu : u.kind = .objectClose) (honce : (members.filterMap Prod.fst ++ done).Nodup)
    (hall : ∀ f, f ∈ members.filterMap Prod.fst ++ done) (rest : List Token) :
    moreMembers (Partial.of b done) (ts ++ u :: rest) = .ok (b, rest) := by
  induction members generalizing ts done with
  | nil =>
    cases hts
    rw [List.nil_append, moreMembers_close hu, closed, Partial.finish_of (by simpa using hall)]
  | cons m members ih =>
    obtain ⟨f?, xs⟩ := m
    obtain ⟨hm, hmembers⟩ := List.forall_mem_cons.1 hmembers
    obtain ⟨c, _, hc, hmore, rfl⟩ := List.forall₂_cons_right_iff.1 hts
    obtain ⟨us, vs, rfl, hus, hvs⟩ := Aligned.exists_append hmore
    rw [fields_cons] at honce hall
    have hdone : ∀ f ∈ f?, f ∉ done := by
      rintro f rfl hf
      simp [hf] at honce
    obtain ⟨k, ws, content, rfl, hk, hkey, hmember⟩ :=
      member_append h hm hus hdone (vs ++ u :: rest)
    have hperm : (f?.toList ++ members.filterMap Prod.fst ++ done).Perm
        (members.filterMap Prod.fst ++ (f?.toList ++ done)) := by
      rw [List.append_assoc]
      exact List.perm_append_comm_assoc ..
    have hrest := ih hmembers hvs (hperm.nodup_iff.1 honce) fun f => hperm.mem_iff.1 (hall f)
    calc moreMembers (Partial.of b done) (c :: (k :: ws ++ vs) ++ u :: rest)
        = moreMembers (Partial.of b done) (c :: k :: (ws ++ (vs ++ u :: rest))) := by
          simp only [List.cons_append, List.append_assoc]
      _ = moreMembers (Partial.of b (f?.toList ++ done)) (vs ++ u :: rest) :=
          moreMembers_comma hc hk hkey hmember
      _ = .ok (b, rest) := hrest

theorem members_append (h : lit.Stands b) (hmembers : ∀ m ∈ members, Member lit m.1 m.2)
    (honce : (members.filterMap Prod.fst).Perm Field.all)
    (hts : List.Forall₂ Token.Is ts (Lexeme.separated (members.map Prod.snd)))
    (hu : u.kind = .objectClose) (rest : List Token) :
    Benchmark.members (ts ++ u :: rest) = .ok (b, rest) := by
  cases members with
  | nil => cases honce.length_eq
  | cons m members =>
    obtain ⟨f?, xs⟩ := m
    obtain ⟨hm, hmembers⟩ := List.forall_mem_cons.1 hmembers
    obtain ⟨us, vs, rfl, hus, hvs⟩ := Aligned.exists_append hts
    rw [fields_cons] at honce
    have hnone : ∀ f ∈ f?, f ∉ ([] : List Field) := nofun
    obtain ⟨k, ws, content, rfl, hk, hkey, hmember⟩ :=
      member_append h hm hus hnone (vs ++ u :: rest)
    have hperm : (members.filterMap Prod.fst ++ (f?.toList ++ [])).Perm Field.all := by
      rw [List.append_nil]
      exact List.perm_append_comm.trans honce
    have hall : ∀ f : Field, f ∈ Field.all := by
      intro f
      cases f <;> decide
    have hrest := moreMembers_append h hmembers hvs hu (hperm.nodup_iff.2 (by decide))
      (fun f => hperm.mem_iff.2 (hall f)) rest
    calc Benchmark.members (k :: ws ++ vs ++ u :: rest)
        = Benchmark.members (k :: (ws ++ (vs ++ u :: rest))) := by
          rw [List.cons_append, List.cons_append, List.append_assoc]
      _ = moreMembers (Partial.of b (f?.toList ++ [])) (vs ++ u :: rest) :=
          members_key hk hkey hmember
      _ = .ok (b, rest) := hrest

end

theorem closeList_eq (hu : u.kind = .listClose) (ts : List Token) :
    closeList (u :: ts) = .ok ts := by
  obtain ⟨_, start, size⟩ := u
  cases hu
  rfl

theorem threeSeries_append (h : lit.Stands b)
    (hts : List.Forall₂ Token.Is ts (Lexeme.separated
      [seriesOf lit.sizes, seriesOf lit.baseline, seriesOf lit.optimized]))
    (hu : u.kind = .listClose) (rest : List Token) :
    threeSeries (ts ++ u :: rest) = .ok (b, rest) := by
  obtain ⟨ts₀, _, rfl, hts₀, hmore₀⟩ := Aligned.exists_append hts
  rw [List.flatMap_cons, List.flatMap_cons, List.flatMap_nil, List.append_nil] at hmore₀
  obtain ⟨ts₁, ts₂, rfl, hts₁, hts₂⟩ := Aligned.exists_append hmore₀
  obtain ⟨c₁, us₁, hc₁, hus₁, rfl⟩ := List.forall₂_cons_right_iff.1 hts₁
  obtain ⟨c₂, us₂, hc₂, hus₂, rfl⟩ := List.forall₂_cons_right_iff.1 hts₂
  have hsizes := nextSeries_first size_eq h.sizes hts₀ (c₁ :: us₁ ++ (c₂ :: us₂ ++ u :: rest))
  have hbaseline := nextSeries_comma seconds_eq h.baseline hc₁ hus₁ (by decide : 1 ≠ 0)
    (c₂ :: us₂ ++ u :: rest)
  have hoptimized := nextSeries_comma seconds_eq h.optimized hc₂ hus₂ (by decide : 2 ≠ 0)
    (u :: rest)
  have hassoc : ts₀ ++ (c₁ :: us₁ ++ c₂ :: us₂) ++ u :: rest
      = ts₀ ++ (c₁ :: us₁ ++ (c₂ :: us₂ ++ u :: rest)) := by
    rw [List.append_assoc, List.append_assoc]
  rw [threeSeries, hassoc, hsizes]
  dsimp only [bind, Except.bind]
  rw [hbaseline]
  dsimp only
  rw [hoptimized]
  dsimp only
  rw [closeList_eq hu]
  rfl

theorem ofTokens_document (h : lit.Stands b) (hd : Document lit xs)
    (hts : List.Forall₂ Token.Is ts xs) : ofTokens ts = .ok b := by
  cases hd with
  | object hmembers honce =>
    obtain ⟨t, us, u, rfl, ht, hus, hu⟩ := Aligned.exists_between hts
    have ht : t.kind = .objectOpen := ht
    have hread := members_append h hmembers honce hus hu []
    simp [ofTokens, ht, hread, bind, Except.bind, pure, Except.pure]
  | list =>
    obtain ⟨t, us, u, rfl, ht, hus, hu⟩ := Aligned.exists_between hts
    have ht : t.kind = .listOpen := ht
    have hread := threeSeries_append h hus hu []
    simp [ofTokens, ht, hread, bind, Except.bind, pure, Except.pure]

theorem Member.isChain (h : Member lit f? xs) : xs.IsChain Lexeme.Apart := by
  cases h with
  | series => exact Lexeme.isChain_cons rfl (Lexeme.isChain_cons rfl (isChain_seriesOf _))
  | other _ _ hvalue => exact Lexeme.isChain_cons rfl (Lexeme.isChain_cons rfl hvalue.isChain)

theorem Document.isChain (h : Document lit xs) : xs.IsChain Lexeme.Apart := by
  cases h with
  | object hmembers _ =>
    refine Lexeme.isChain_between rfl rfl (Lexeme.isChain_separated fun ys hys => ?_)
    obtain ⟨m, hm, rfl⟩ := List.mem_map.1 hys
    exact (hmembers m hm).isChain
  | list =>
    refine Lexeme.isChain_between rfl rfl (Lexeme.isChain_separated fun ys hys => ?_)
    simp only [List.mem_cons, List.not_mem_nil, or_false] at hys
    rcases hys with rfl | rfl | rfl <;> exact isChain_seriesOf _

/-- What a document gives depends on the literals of its series alone. -/
theorem ofText_of_document {text : List UInt8} (h : lit.Stands b) (hd : Document lit xs)
    (htext : Lexeme.Spaced xs text) :
    ofText text =
        (if b.sizes.length ≠ b.baseline.length ∨ b.sizes.length ≠ b.optimized.length then
          .error (.unequalSeries b.sizes.length b.baseline.length b.optimized.length)
        else if b.sizes = [] then .error (.noValues "benchmark results" "order_sizes")
        else .ok b) ∧
      ∀ ys text', Document lit ys → Lexeme.Spaced ys text' → ofText text' = ofText text := by
  have hread {ys : List Lexeme} {text : List UInt8} (hd : Document lit ys)
      (htext : Lexeme.Spaced ys text) : ofText text = b.validate.map fun _ => b := by
    rw [ofText, Token.list, ofTokens_document h hd (htext.is_listFrom hd.isChain 0)]
    rfl
  refine ⟨?_, fun ys text' hd' htext' => (hread hd' htext').trans (hread hd htext).symm⟩
  rw [hread hd htext]
  unfold validate
  split
  · rfl
  · split <;> rfl

theorem ofText_of_document_noted :
    ofText (Text.encode ("\x7b \"note\":[null,\x7b\x7d],\"optimized_seconds\":[1]," ++
      "\"order_s\\u0069zes\":[3],\"baseline_seconds\":[2]\x7d").toList) =
        .ok ⟨[3], [.ofNat 2], [.ofNat 1]⟩ ∧
      ofText (Text.encode "[[3],[2],[1]]".toList) = .ok ⟨[3], [.ofNat 2], [.ofNat 1]⟩ := by
  let digit (b : UInt8) : Literal := ⟨false, Json.digitsOf [b], [], none⟩
  let lit : Literals := ⟨[digit '3'.toUInt8], [digit '2'.toUInt8], [digit '1'.toUInt8]⟩
  have hstands : lit.Stands ⟨[3], [.ofNat 2], [.ofNat 1]⟩ :=
    ⟨.cons ⟨rfl, rfl, rfl, rfl⟩ .nil, .cons rfl .nil, .cons rfl .nil⟩
  have hseries (b : UInt8) (hb : Json.isDigit b ∧ b ≠ '0'.toUInt8) {xs : List Lexeme}
      {r : List UInt8} (hr : Lexeme.Spaced xs r) :
      Lexeme.Spaced (seriesOf [digit b] ++ xs) ('['.toUInt8 :: b :: ']'.toUInt8 :: r) :=
    have hdigit : (digit b).Spells [b] :=
      .mk (.digits hb.1 hb.2 (List.forall_mem_nil _)) .absent .absent
    .next .listOpen (.next (.number hdigit) (.next .listClose hr))
  have hend : Lexeme.Spaced [] [] := .nil (List.forall_mem_nil _)
  -- The text of the list.
  have hlist := Lexeme.Spaced.next .listOpen <| hseries '3'.toUInt8 (by decide) <|
    .next .comma <| hseries '2'.toUInt8 (by decide) <|
    .next .comma <| hseries '1'.toUInt8 (by decide) <| .next .listClose hend
  have hplain (s : String)
      (hs : ∀ b ∈ Text.encode s.toList, 0x20 ≤ b ∧ b ≠ '"'.toUInt8 ∧ b ≠ '\\'.toUInt8)
      {r t : List UInt8} (hr : Json.Quoted.Reads r t) :
      Json.Quoted.Reads (Text.encode s.toList ++ r) (Text.encode s.toList ++ t) :=
    .plain_append hs hr
  have hescape : Json.Quoted.Hex ['0'.toUInt8, '0'.toUInt8, '6'.toUInt8, '9'.toUInt8] 0x69 :=
    .mk (i := 0) (j := 0) (k := 6) (l := 9) rfl rfl rfl rfl
  have hnote := hplain "note" (by decide +kernel) .nil
  have hsizes := hplain "order_s" (by decide +kernel) <| .unit hescape rfl rfl <|
    hplain "zes" (by decide +kernel) .nil
  have hbaseline := hplain "baseline_seconds" (by decide +kernel) .nil
  have hoptimized := hplain "optimized_seconds" (by decide +kernel) .nil
  -- The text of the object.
  have hobject := Lexeme.Spaced.next .objectOpen <|
    .cons (List.forall_mem_singleton.2 (by decide : Json.isSpace ' '.toUInt8))
      (.string hnote.body) <| .next .colon <|
    .next .listOpen <| .next .null <| .next .comma <| .next .objectOpen <| .next .objectClose <|
    .next .listClose <| .next .comma <|
    .next (.string hoptimized.body) <| .next .colon <| hseries '1'.toUInt8 (by decide) <|
    .next .comma <|
    .next (.string hsizes.body) <| .next .colon <| hseries '3'.toUInt8 (by decide) <|
    .next .comma <|
    .next (.string hbaseline.body) <| .next .colon <| hseries '2'.toUInt8 (by decide) <|
    .next .objectClose hend
  have hvalue : Grammar .value [.listOpen, .null, .comma, .objectOpen, .objectClose, .listClose] :=
    .list (.item .null (.lastItem .emptyObject))
  have hdocument := @Document.object lit
    [(none, _), (some .optimized, _), (some .sizes, _), (some .baseline, _)]
    (List.forall_mem_cons.2 ⟨.other hnote (fun f => by cases f <;> decide +kernel) hvalue,
      List.forall_mem_cons.2 ⟨.series hoptimized, List.forall_mem_cons.2 ⟨.series hsizes,
        List.forall_mem_singleton.2 (.series hbaseline)⟩⟩⟩) (by decide)
  obtain ⟨hread, hall⟩ := ofText_of_document hstands .list hlist
  have hsame := hall _ _ hdocument hobject
  constructor
  · refine Eq.trans (congrArg ofText ?_) (hsame.trans hread)
    decide +kernel
  · refine Eq.trans (congrArg ofText ?_) hread
    decide +kernel

end LatencyDigest.Benchmark
