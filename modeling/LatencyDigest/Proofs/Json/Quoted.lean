import LatencyDigest.Json.Quoted

/-! The texts of strings, up to the closing quote. All of them are passed over; those that spell
text are read; and nothing else is. -/

namespace LatencyDigest.Json.Quoted

/-- The number of four hexadecimal digits. -/
inductive Hex : List UInt8 → Nat → Prop where
  | mk {a b c d : UInt8} {i j k l : Nat} (ha : hexDigit? a = some i) (hb : hexDigit? b = some j)
      (hc : hexDigit? c = some k) (hd : hexDigit? d = some l) :
      Hex [a, b, c, d] (((i * 16 + j) * 16 + k) * 16 + l)

theorem Hex.length_eq {ds : List UInt8} {n : Nat} (h : Hex ds n) : ds.length = 4 := by
  cases h
  rfl

/-- The texts that may stand between two quotes. -/
inductive Body : List UInt8 → Prop where
  | nil : Body []
  | plain {b : UInt8} {s : List UInt8} (hcontrol : 0x20 ≤ b) (hquote : b ≠ '"'.toUInt8)
      (hslash : b ≠ '\\'.toUInt8) (hs : Body s) : Body (b :: s)
  | escape {b : UInt8} {s : List UInt8} (hb : (simpleEscape? b).isSome) (hs : Body s) :
      Body ('\\'.toUInt8 :: b :: s)
  | unit {ds s : List UInt8} {n : Nat} (hds : Hex ds n) (hs : Body s) :
      Body ('\\'.toUInt8 :: 'u'.toUInt8 :: (ds ++ s))

/-- The number of a character beyond those of one unit, from the two halves of its pair. -/
def ofPair (high low : Nat) : Nat := (high - 0xD800) * 0x400 + (low - 0xDC00) + 0x10000

/-- The bytes that such a text spells. -/
inductive Reads : List UInt8 → List UInt8 → Prop where
  | nil : Reads [] []
  | plain {b : UInt8} {s t : List UInt8} (hcontrol : 0x20 ≤ b) (hquote : b ≠ '"'.toUInt8)
      (hslash : b ≠ '\\'.toUInt8) (hs : Reads s t) : Reads (b :: s) (b :: t)
  | escape {b c : UInt8} {s t : List UInt8} (hb : simpleEscape? b = some c) (hs : Reads s t) :
      Reads ('\\'.toUInt8 :: b :: s) (c :: t)
  | unit {ds s t : List UInt8} {n : Nat} (hds : Hex ds n) (hhigh : isHigh n = false)
      (hlow : isLow n = false) (hs : Reads s t) :
      Reads ('\\'.toUInt8 :: 'u'.toUInt8 :: (ds ++ s)) (charBytes n ++ t)
  | pair {ds es s t : List UInt8} {high low : Nat} (hds : Hex ds high) (hes : Hex es low)
      (hhigh : isHigh high) (hlow : isLow low) (hs : Reads s t) :
      Reads ('\\'.toUInt8 :: 'u'.toUInt8 :: (ds ++ '\\'.toUInt8 :: 'u'.toUInt8 :: (es ++ s)))
        (charBytes (ofPair high low) ++ t)

theorem Reads.plain_append {r s t : List UInt8}
    (hr : ∀ b ∈ r, 0x20 ≤ b ∧ b ≠ '"'.toUInt8 ∧ b ≠ '\\'.toUInt8) (hs : Reads s t) :
    Reads (r ++ s) (r ++ t) := by
  induction r with
  | nil => exact hs
  | cons b r ih =>
    obtain ⟨⟨hcontrol, hquote, hslash⟩, hr⟩ := List.forall_mem_cons.1 hr
    exact .plain hcontrol hquote hslash (ih hr)

theorem Reads.body {s t : List UInt8} (h : Reads s t) : Body s := by
  induction h with
  | nil => exact .nil
  | plain hcontrol hquote hslash _ ih => exact .plain hcontrol hquote hslash ih
  | escape hb _ ih => exact .escape (by simp [hb]) ih
  | unit hds _ _ _ ih => exact .unit hds ih
  | pair hds hes _ _ _ ih => exact .unit hds (.unit hes ih)

section
variable {b : UInt8} {ds s r t : List UInt8} {code : Nat}

theorem skip_quote (n : Nat) (r : List UInt8) : skip .text n ('"'.toUInt8 :: r) = .ok (n + 1) := rfl

theorem skip_plain (n : Nat) (hcontrol : 0x20 ≤ b) (hquote : b ≠ '"'.toUInt8)
    (hslash : b ≠ '\\'.toUInt8) (r : List UInt8) :
    skip .text n (b :: r) = skip .text (n + 1) r := by
  change (if b = _ then _ else if b = _ then _ else if b < 0x20 then _ else _) = _
  rw [if_neg hquote, if_neg hslash, if_neg (UInt8.not_lt.2 hcontrol)]

theorem skip_escape (n : Nat) (hb : (simpleEscape? b).isSome) (r : List UInt8) :
    skip .text n ('\\'.toUInt8 :: b :: r) = skip .text (n + 1 + 1) r := by
  have hu : b ≠ 'u'.toUInt8 := by
    rintro rfl
    cases hb
  change (if b = _ then _ else if _ then _ else _) = _
  rw [if_neg hu, if_pos hb]

theorem skip_unit (n : Nat) (h : Hex ds code) (r : List UInt8) :
    skip .text n ('\\'.toUInt8 :: 'u'.toUInt8 :: (ds ++ r)) = skip .text (n + 6) r := by
  obtain ⟨ha, hb, hc, hd⟩ := h
  change (if (moreHex (moreHex (moreHex (moreHex (some 0) _) _) _) _).isSome then _ else _) = _
  simp [moreHex, ha, hb, hc, hd]

theorem skip_append (h : Body s) (n : Nat) (r : List UInt8) :
    skip .text n (s ++ '"'.toUInt8 :: r) = .ok (n + s.length + 1) := by
  induction h generalizing n with
  | nil => exact skip_quote n r
  | plain hcontrol hquote hslash _ ih =>
    rw [List.cons_append, skip_plain n hcontrol hquote hslash, ih, List.length_cons]
    congr 1
    omega
  | escape hb _ ih =>
    rw [List.cons_append, List.cons_append, skip_escape n hb, ih, List.length_cons,
      List.length_cons]
    congr 1
    omega
  | unit hds _ ih =>
    rw [List.cons_append, List.cons_append, List.append_assoc, skip_unit n hds, ih,
      List.length_cons, List.length_cons, List.length_append, hds.length_eq]
    congr 1
    omega

theorem read_quote (n : Nat) (done r : List UInt8) :
    read .text n done ('"'.toUInt8 :: r) = .ok done.reverse := rfl

theorem read_plain (n : Nat) (done : List UInt8) (hcontrol : 0x20 ≤ b) (hquote : b ≠ '"'.toUInt8)
    (hslash : b ≠ '\\'.toUInt8) (r : List UInt8) :
    read .text n done (b :: r) = read .text (n + 1) (b :: done) r := by
  change (if b = _ then _ else if b = _ then _ else if b < 0x20 then _ else _) = _
  rw [if_neg hquote, if_neg hslash, if_neg (UInt8.not_lt.2 hcontrol)]

theorem read_escape (n : Nat) (done : List UInt8) {c : UInt8} (hb : simpleEscape? b = some c)
    (r : List UInt8) :
    read .text n done ('\\'.toUInt8 :: b :: r) = read .text (n + 1 + 1) (c :: done) r := by
  have hu : b ≠ 'u'.toUInt8 := by
    rintro rfl
    cases hb
  have hslash : read .text n done ('\\'.toUInt8 :: b :: r) = read .escape (n + 1) done (b :: r) :=
    rfl
  rw [hslash, read, if_neg hu, hb]

theorem moreHex_eq {n i : Nat} (h : hexDigit? b = some i) :
    moreHex (some n) b = some (n * 16 + i) := by
  rw [moreHex, h]
  rfl

theorem read_hex_digit {count n : Nat} {value high : Option Nat} {done : List UInt8}
    (h : count < 3) : read (.hex count value high) n done (b :: r)
      = read (.hex (count + 1) (moreHex value b) high) (n + 1) done r :=
  if_pos h

theorem read_hex_last {n : Nat} {value high : Option Nat} {done : List UInt8} :
    read (.hex 3 value high) n done (b :: r) = match moreHex value b, high with
      | none, _ => .error (.badEscape, n + 1)
      | some c, none =>
        if isLow c then .error (.loneSurrogate, n + 1)
        else if isHigh c then read (.pair c) (n + 1) done r
        else read .text (n + 1) ((charBytes c).reverse ++ done) r
      | some c, some high =>
        if isLow c then read .text (n + 1) ((charBytes (ofPair high c)).reverse ++ done) r
        else .error (.loneSurrogate, n + 1) := rfl

/-- The number after a backslash and its letter, alone or after the first half of a pair. -/
theorem read_hex (n : Nat) (done : List UInt8) (high : Option Nat) (h : Hex ds code)
    (r : List UInt8) : read (.hex 0 (some 0) high) n done (ds ++ r) =
      match high with
      | none =>
        if isLow code then .error (.loneSurrogate, n + 4)
        else if isHigh code then read (.pair code) (n + 4) done r
        else read .text (n + 4) ((charBytes code).reverse ++ done) r
      | some high =>
        if isLow code then read .text (n + 4) ((charBytes (ofPair high code)).reverse ++ done) r
        else .error (.loneSurrogate, n + 4) := by
  obtain ⟨ha, hb, hc, hd⟩ := h
  rw [List.cons_append, List.cons_append, List.cons_append, List.cons_append, List.nil_append,
    read_hex_digit (by decide), read_hex_digit (by decide), read_hex_digit (by decide),
    read_hex_last, moreHex_eq ha, moreHex_eq hb, moreHex_eq hc, moreHex_eq hd, Nat.zero_mul,
    Nat.zero_add]
  cases high <;> rfl

theorem read_unit (n : Nat) (done : List UInt8) (h : Hex ds code) (hhigh : isHigh code = false)
    (hlow : isLow code = false) (r : List UInt8) :
    read .text n done ('\\'.toUInt8 :: 'u'.toUInt8 :: (ds ++ r))
      = read .text (n + 6) ((charBytes code).reverse ++ done) r := by
  refine (read_hex (n + 2) done none h r).trans ?_
  simp [hhigh, hlow]

theorem read_pair (n : Nat) (done : List UInt8) {es : List UInt8} {high low : Nat}
    (hds : Hex ds high) (hes : Hex es low) (hhigh : isHigh high) (hlow : isLow low)
    (r : List UInt8) :
    read .text n done ('\\'.toUInt8 :: 'u'.toUInt8 ::
        (ds ++ '\\'.toUInt8 :: 'u'.toUInt8 :: (es ++ r)))
      = read .text (n + 12) ((charBytes (ofPair high low)).reverse ++ done) r := by
  have hnot : isLow high = false := by
    simp [isHigh, isLow] at hhigh ⊢
    omega
  have hfirst : read .text n done ('\\'.toUInt8 :: 'u'.toUInt8 ::
        (ds ++ '\\'.toUInt8 :: 'u'.toUInt8 :: (es ++ r)))
      = read (.hex 0 (some 0) (some high)) (n + 8) done (es ++ r) := by
    refine (read_hex (n + 2) done none hds _).trans ?_
    simp [hnot, hhigh]
    rfl
  rw [hfirst, read_hex (n + 8) done (some high) hes r]
  simp [hlow]

/-- A text is read whatever follows its closing quote. -/
theorem read_append (h : Reads s t) (n : Nat) (done r : List UInt8) :
    read .text n done (s ++ '"'.toUInt8 :: r) = .ok (done.reverse ++ t) := by
  induction h generalizing n done with
  | nil => rw [List.nil_append, read_quote, List.append_nil]
  | plain hcontrol hquote hslash _ ih =>
    rw [List.cons_append, read_plain n done hcontrol hquote hslash, ih]
    simp
  | escape hb _ ih =>
    rw [List.cons_append, List.cons_append, read_escape n done hb, ih]
    simp
  | unit hds hhigh hlow _ ih =>
    rw [List.cons_append, List.cons_append, List.append_assoc, read_unit n done hds hhigh hlow, ih]
    simp
  | pair hds hes hhigh hlow _ ih =>
    rw [List.cons_append, List.cons_append, List.append_assoc, List.cons_append, List.cons_append,
      List.append_assoc, read_pair n done hds hes hhigh hlow, ih]
    simp

/-! The other way round. -/

theorem moreHex_eq_some {value : Option Nat} {k : Nat} (h : moreHex value b = some k) :
    ∃ n i, value = some n ∧ hexDigit? b = some i ∧ k = n * 16 + i := by
  obtain ⟨n, rfl, h⟩ := Option.bind_eq_some_iff.1 h
  obtain ⟨i, hi, h⟩ := Option.bind_eq_some_iff.1 h
  cases h
  exact ⟨n, i, rfl, hi, rfl⟩

theorem hex_of_moreHex {a b c d : UInt8}
    (h : moreHex (moreHex (moreHex (moreHex (some 0) a) b) c) d = some code) :
    Hex [a, b, c, d] code := by
  obtain ⟨_, l, h₃, hd, rfl⟩ := moreHex_eq_some h
  obtain ⟨_, k, h₂, hc, rfl⟩ := moreHex_eq_some h₃
  obtain ⟨_, j, h₁, hb, rfl⟩ := moreHex_eq_some h₂
  obtain ⟨_, i, h₀, ha, rfl⟩ := moreHex_eq_some h₁
  cases h₀
  rw [Nat.zero_mul, Nat.zero_add]
  exact .mk ha hb hc hd

theorem hex_of_skip {n m : Nat} (h : skip (.hex 0 (some 0) none) n s = .ok m) :
    ∃ ds r code, s = ds ++ r ∧ Hex ds code ∧ skip .text (n + 4) r = .ok m := by
  rcases s with _ | ⟨a, _ | ⟨b, _ | ⟨c, _ | ⟨d, r⟩⟩⟩⟩
  case cons.cons.cons.cons =>
    change (if (moreHex (moreHex (moreHex (moreHex (some 0) a) b) c) d).isSome then
      skip .text (n + 4) r else .error _) = _ at h
    split at h
    · next hsome =>
      obtain ⟨code, hcode⟩ := Option.isSome_iff_exists.1 hsome
      exact ⟨[a, b, c, d], r, code, rfl, hex_of_moreHex hcode, h⟩
    · cases h
  all_goals cases h

/-- What is passed over is a text up to its closing quote. -/
theorem body_of_skip {n m : Nat} (h : skip .text n s = .ok m) :
    ∃ body r, s = body ++ '"'.toUInt8 :: r ∧ Body body ∧ m = n + body.length + 1 := by
  induction hlength : s.length using Nat.strongRecOn generalizing s n with
  | ind k ih =>
    subst hlength
    cases s with
    | nil => cases h
    | cons b s =>
      change (if b = _ then _ else if b = _ then skip .escape (n + 1) s else if b < 0x20 then _
        else skip .text (n + 1) s) = _ at h
      split at h
      · next hquote =>
        cases h
        exact ⟨[], s, by rw [hquote]; rfl, .nil, rfl⟩
      · next hquote =>
        split at h
        · next hslash =>
          subst hslash
          cases s with
          | nil => cases h
          | cons c s =>
            change (if c = _ then skip (.hex 0 (some 0) none) (n + 2) s else if _ then
              skip .text (n + 2) s else _) = _ at h
            split at h
            · next hu =>
              subst hu
              obtain ⟨ds, r, code, rfl, hds, h⟩ := hex_of_skip h
              have hshorter : r.length < ('\\'.toUInt8 :: 'u'.toUInt8 :: (ds ++ r)).length := by
                simp only [List.length_cons, List.length_append]
                omega
              obtain ⟨body, t, rfl, hbody, rfl⟩ := ih r.length hshorter h rfl
              refine ⟨_, t, ?_, .unit hds hbody, ?_⟩
              · simp
              · simp [hds.length_eq]
                omega
            · split at h
              · next hc =>
                have hshorter : s.length < ('\\'.toUInt8 :: c :: s).length := by
                  simp only [List.length_cons]
                  omega
                obtain ⟨body, t, rfl, hbody, rfl⟩ := ih s.length hshorter h rfl
                exact ⟨_, t, rfl, .escape hc hbody, by simp; omega⟩
              · cases h
        · next hslash =>
          split at h
          · cases h
          · next hcontrol =>
            obtain ⟨body, t, rfl, hbody, rfl⟩ := ih s.length (by simp) h rfl
            exact ⟨b :: body, t, rfl, .plain (UInt8.not_lt.1 hcontrol) hquote hslash hbody,
              by simp; omega⟩

theorem hex_of_read {n : Nat} {high : Option Nat} {done : List UInt8}
    (h : read (.hex 0 (some 0) high) n done s = .ok t) :
    ∃ ds r code, s = ds ++ r ∧ Hex ds code := by
  rcases s with _ | ⟨a, _ | ⟨b, _ | ⟨c, _ | ⟨d, r⟩⟩⟩⟩
  case cons.cons.cons.cons =>
    rw [read_hex_digit (by decide), read_hex_digit (by decide), read_hex_digit (by decide),
      read_hex_last] at h
    cases hcode : moreHex (moreHex (moreHex (moreHex (some 0) a) b) c) d with
    | none =>
      rw [hcode] at h
      cases h
    | some code => exact ⟨[a, b, c, d], r, code, rfl, hex_of_moreHex hcode⟩
  all_goals cases h

/-- The second half of a pair, after the first has been read. -/
theorem pair_of_read {n high : Nat} {done : List UInt8} (h : read (.pair high) n done s = .ok t) :
    ∃ es r low, s = '\\'.toUInt8 :: 'u'.toUInt8 :: (es ++ r) ∧ Hex es low ∧ isLow low ∧
      read .text (n + 6) ((charBytes (ofPair high low)).reverse ++ done) r = .ok t := by
  rcases s with _ | ⟨b, _ | ⟨c, s⟩⟩
  · cases h
  · change (if b = _ then _ else _) = _ at h
    split at h <;> cases h
  · change (if b = _ then if c = _ then read (.hex 0 (some 0) (some high)) (n + 2) done s else _
      else _) = _ at h
    split at h
    · next hb =>
      split at h
      · next hc =>
        obtain ⟨es, r, low, rfl, hes⟩ := hex_of_read h
        rw [read_hex _ _ _ hes] at h
        dsimp only at h
        split at h
        · next hlow => exact ⟨es, r, low, by rw [hb, hc], hes, hlow, h⟩
        · cases h
      · cases h
    · cases h

/-- An escape, after its backslash, and what it adds to what has been read. -/
theorem escape_of_read {n : Nat} {done : List UInt8} (h : read .escape n done s = .ok t) :
    ∃ w r v m, s = w ++ r ∧ read .text m (v.reverse ++ done) r = .ok t ∧
      ∀ {body u}, Reads body u → Reads ('\\'.toUInt8 :: (w ++ body)) (v ++ u) := by
  cases s with
  | nil => cases h
  | cons c s =>
    rw [read] at h
    split at h
    · next hc =>
      subst hc
      obtain ⟨ds, r, code, rfl, hds⟩ := hex_of_read h
      rw [read_hex _ _ _ hds] at h
      dsimp only at h
      split at h
      · cases h
      · next hlow =>
        split at h
        · next hhigh =>
          obtain ⟨es, r, low, rfl, hes, hlow, h⟩ := pair_of_read h
          refine ⟨'u'.toUInt8 :: (ds ++ '\\'.toUInt8 :: 'u'.toUInt8 :: es), r, _, _, by simp, h, ?_⟩
          intro body u hbody
          simpa using Reads.pair hds hes hhigh hlow hbody
        · next hhigh =>
          refine ⟨'u'.toUInt8 :: ds, r, _, _, rfl, h, fun hbody => ?_⟩
          exact .unit hds (by simpa using hhigh) (by simpa using hlow) hbody
    · split at h
      · next v hv => exact ⟨[c], s, [v], _, rfl, h, fun hbody => .escape hv hbody⟩
      · cases h

/-- What is read is spelled by a text up to its closing quote. -/
theorem reads_of_read {n : Nat} {done : List UInt8} (h : read .text n done s = .ok t) :
    ∃ body r u, s = body ++ '"'.toUInt8 :: r ∧ Reads body u ∧ t = done.reverse ++ u := by
  induction hlength : s.length using Nat.strongRecOn generalizing s n done with
  | ind k ih =>
    subst hlength
    cases s with
    | nil => cases h
    | cons b s =>
      change (if b = _ then _ else if b = _ then read .escape (n + 1) done s else if b < 0x20 then _
        else read .text (n + 1) (b :: done) s) = _ at h
      split at h
      · next hquote =>
        cases h
        exact ⟨[], s, [], by rw [hquote]; rfl, .nil, (List.append_nil _).symm⟩
      · next hquote =>
        split at h
        · next hslash =>
          subst hslash
          obtain ⟨w, r, v, m, rfl, hmore, hescape⟩ := escape_of_read h
          have hshorter : r.length < ('\\'.toUInt8 :: (w ++ r)).length := by
            simp only [List.length_cons, List.length_append]
            omega
          obtain ⟨body, rest, u, rfl, hreads, rfl⟩ := ih r.length hshorter hmore rfl
          exact ⟨_, rest, _, by simp, hescape hreads, by simp⟩
        · next hslash =>
          split at h
          · cases h
          · next hcontrol =>
            obtain ⟨body, r, u, rfl, hreads, rfl⟩ := ih s.length (by simp) h rfl
            exact ⟨b :: body, r, b :: u, rfl,
              .plain (UInt8.not_lt.1 hcontrol) hquote hslash hreads, by simp⟩

end

end LatencyDigest.Json.Quoted
