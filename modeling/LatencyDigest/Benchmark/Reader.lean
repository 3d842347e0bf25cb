import LatencyDigest.Benchmark.Basic
import LatencyDigest.Json.Skip
import LatencyDigest.Outcome

/-!
Benchmark results read from a JSON text: an object with a member for each series, among others that
are passed over, or a list of the three series.
-/

namespace LatencyDigest

open Json (Token Stop Fault Found Wanted Literal)

namespace Benchmark

inductive Field where
  | sizes
  | baseline
  | optimized
  deriving DecidableEq

namespace Field

def all : List Field := [sizes, baseline, optimized]

def name : Field → String
  | sizes => "order_sizes"
  | baseline => "baseline_seconds"
  | optimized => "optimized_seconds"

def ofKey? (key : List UInt8) : Option Field :=
  all.find? fun f => Text.encode f.name.toList = key

end Field

def foundText (s : List UInt8) : List Char := (Text.decode s).toOption.getD []

def outOfReach (t : Token) (l : Literal) : Stop :=
  ⟨.numberOutOfRange, some (t.stop - l.powerBeyond)⟩

def numberStop (t : Token) (e : Literal.Fault) : Stop :=
  ⟨if e.cut then .endOfValue else .badNumber, some (t.start + e.size)⟩

def foundNumber : Literal.Number → Found
  | .natural n => .integer n
  | .negative i => .integer i
  | .float x => .float x

def mistyped (wanted : Wanted) (t : Token) : Stop :=
  let wrong := fun found => t.passed (.wrongType found wanted)
  match t.kind with
  | .word (.error stop) | .string (.error stop) _ => stop
  | .word (.ok .null) => wrong .null
  | .word (.ok (.boolean b)) => wrong (.boolean b)
  | .word (.ok _) => t.looked .noValue
  | .number (.error e) => numberStop t e
  | .number (.ok l) => match l.number with
    | some n => wrong (foundNumber n)
    | none => outOfReach t l
  | .string (.ok s) _ => wrong (.string (foundText s))
  | .listOpen => ⟨.wrongType .sequence wanted, some t.start⟩
  | .objectOpen => ⟨.wrongType .map wanted, some t.start⟩
  | _ => t.looked .noValue

def number (wanted : Wanted) (t : Token) : Except Stop Literal.Number :=
  match t.kind with
  | .number (.ok l) => match l.number with
    | some n => .ok n
    | none => .error (outOfReach t l)
  | _ => .error (mistyped wanted t)

def size (t : Token) : Except Stop UInt64 := do
  match ← number .count t with
  | .natural n => return UInt64.ofNat n
  | .negative i => .error (t.passed (.wrongValue (.integer i) .count))
  | .float x => .error (t.passed (.wrongType (.float x) .count))

def seconds (t : Token) : Except Stop Binary64 := do
  match ← number .number t with
  | .natural n => return .ofNat n
  | .negative i => return .ofInt i
  | .float x => return x

/-- The elements after one, up to the bracket that closes the list, and the tokens after that. -/
def moreElements (element : Token → Except Stop α) : List Token → Except Stop (List α × List Token)
  | [] => .error (.atEnd .endOfList)
  | ⟨.listClose, _, _⟩ :: ts => .ok ([], ts)
  | ⟨.comma, _, _⟩ :: [] => .error (.atEnd .endOfValue)
  | ⟨.comma, _, _⟩ :: t :: ts =>
    match t.kind with
    | .listClose => .error (t.looked .trailingComma)
    | _ => do
      let x ← element t
      let (xs, rest) ← moreElements element ts
      return (x :: xs, rest)
  | t :: _ => .error (t.looked .noListEnd)

def elements (element : Token → Except Stop α) : List Token → Except Stop (List α × List Token)
  | [] => .error (.atEnd .endOfList)
  | ⟨.listClose, _, _⟩ :: ts => .ok ([], ts)
  | t :: ts => do
    let x ← element t
    let (xs, rest) ← moreElements element ts
    return (x :: xs, rest)

def series (element : Token → Except Stop α) : List Token → Except Stop (List α × List Token)
  | [] => .error (.atEnd .endOfValue)
  | ⟨.listOpen, _, _⟩ :: ts => elements element ts
  | t :: _ => .error (mistyped .sequence t)

theorem moreElements_length {element : Token → Except Stop α} {ts rest : List Token} {xs : List α}
    (h : moreElements element ts = .ok (xs, rest)) : rest.length < ts.length := by
  fun_induction moreElements element ts generalizing xs with
  | case1 => simp at h
  | case2 => simp at h; simp [← h.2]
  | case3 => simp at h
  | case4 => simp at h
  | case5 _ _ t ts _ ih =>
    obtain ⟨x, _, h⟩ := Outcome.bind_eq_ok_iff.1 h
    obtain ⟨⟨ys, r⟩, hr, h⟩ := Outcome.bind_eq_ok_iff.1 h
    obtain ⟨rfl, rfl⟩ := Prod.mk.injEq .. ▸ Except.ok.inj h
    exact Nat.lt_succ_of_lt (Nat.lt_succ_of_lt (ih hr))
  | case6 => simp at h

theorem elements_length {element : Token → Except Stop α} {ts rest : List Token} {xs : List α}
    (h : elements element ts = .ok (xs, rest)) : rest.length < ts.length := by
  fun_cases elements element ts with
  | case1 => simp [elements] at h
  | case2 => simp [elements] at h; simp [← h.2]
  | case3 t ts hk =>
    simp only [elements] at h
    obtain ⟨x, _, h⟩ := Outcome.bind_eq_ok_iff.1 h
    obtain ⟨⟨ys, r⟩, hr, h⟩ := Outcome.bind_eq_ok_iff.1 h
    obtain ⟨rfl, rfl⟩ := Prod.mk.injEq .. ▸ Except.ok.inj h
    exact Nat.lt_succ_of_lt (moreElements_length hr)

theorem series_length {element : Token → Except Stop α} {ts rest : List Token} {xs : List α}
    (h : series element ts = .ok (xs, rest)) : rest.length < ts.length := by
  fun_cases series element ts with
  | case1 => simp [series] at h
  | case2 => exact Nat.lt_succ_of_lt (elements_length h)
  | case3 => simp_all [series]

structure Partial where
  sizes : Option (List UInt64)
  baseline : Option (List Binary64)
  optimized : Option (List Binary64)

namespace Partial

def none : Partial := ⟨.none, .none, .none⟩

def has (p : Partial) : Field → Bool
  | .sizes => p.sizes.isSome
  | .baseline => p.baseline.isSome
  | .optimized => p.optimized.isSome

def read (p : Partial) (f : Field) (ts : List Token) : Except Stop (Partial × List Token) :=
  match f with
  | .sizes => (series size ts).map fun (xs, rest) => ({ p with sizes := some xs }, rest)
  | .baseline => (series seconds ts).map fun (xs, rest) => ({ p with baseline := some xs }, rest)
  | .optimized => (series seconds ts).map fun (xs, rest) => ({ p with optimized := some xs }, rest)

/-- The results, or the first field that is absent. -/
def finish (p : Partial) : Except Field Benchmark :=
  match p.sizes, p.baseline, p.optimized with
  | some sizes, some baseline, some optimized => .ok ⟨sizes, baseline, optimized⟩
  | .none, _, _ => .error .sizes
  | _, .none, _ => .error .baseline
  | _, _, .none => .error .optimized

end Partial

/-- Where a fault of an object as a whole is told: after its closing brace if that comes next, and
before the next token if not. -/
def objectStop (fault : Fault) : List Token → Stop
  | [] => .atEnd fault
  | t :: _ => match t.kind with
    | .objectClose => t.passed fault
    | _ => ⟨fault, some t.start⟩

def afterColon : List Token → Except Stop (List Token)
  | [] => .error (.atEnd .endOfObject)
  | ⟨.colon, _, _⟩ :: ts => .ok ts
  | t :: _ => .error (t.looked .noColon)

def key (t : Token) : Except Stop (List UInt8) :=
  match t.kind with
  | .string read _ => read
  | _ => .error (t.looked .keyNotString)

/-- The member of that key, whose colon and value follow. -/
def member (p : Partial) (key : List UInt8) (ts : List Token) :
    Except Stop (Partial × List Token) :=
  match Field.ofKey? key with
  | some f =>
    if p.has f then .error (objectStop (.repeatedField f.name) ts)
    else do p.read f (← afterColon ts)
  | none => do
    let rest ← Json.skip .value [] (← afterColon ts)
    return (p, rest)

theorem Partial.read_length {p q : Partial} {f : Field} {ts rest : List Token}
    (h : p.read f ts = .ok (q, rest)) : rest.length < ts.length := by
  cases f <;> simp only [Partial.read] at h <;>
    obtain ⟨⟨xs, r⟩, hr, h⟩ := Outcome.map_eq_ok_iff.1 h <;>
    obtain ⟨rfl, rfl⟩ := Prod.mk.injEq .. ▸ h <;>
    exact series_length hr

theorem afterColon_length {ts rest : List Token} (h : afterColon ts = .ok rest) :
    rest.length < ts.length := by
  fun_cases afterColon ts <;> simp_all [afterColon]

theorem member_length {p q : Partial} {key : List UInt8} {ts rest : List Token}
    (h : member p key ts = .ok (q, rest)) : rest.length < ts.length := by
  unfold member at h
  split at h
  · split at h
    · simp at h
    · obtain ⟨us, hc, h⟩ := Outcome.bind_eq_ok_iff.1 h
      exact Nat.lt_trans (Partial.read_length h) (afterColon_length hc)
  · obtain ⟨us, hc, h⟩ := Outcome.bind_eq_ok_iff.1 h
    obtain ⟨r, hs, h⟩ := Outcome.bind_eq_ok_iff.1 h
    obtain ⟨rfl, rfl⟩ := Prod.mk.injEq .. ▸ Except.ok.inj h
    exact Nat.lt_trans (Json.skip_length hs) (afterColon_length hc)

/-- The results, once the object has been closed by `t`. -/
def closed (p : Partial) (t : Token) (ts : List Token) : Except Stop (Benchmark × List Token) :=
  match p.finish with
  | .ok b => .ok (b, ts)
  | .error f => .error (t.passed (.absentField f.name))

def moreMembers (p : Partial) : List Token → Except Stop (Benchmark × List Token)
  | [] => .error (.atEnd .endOfObject)
  | t :: ts =>
    match t.kind with
    | .objectClose => closed p t ts
    | .comma =>
      match ts with
      | [] => .error (.atEnd .endOfValue)
      | k :: ts =>
        match k.kind with
        | .objectClose => .error (k.looked .trailingComma)
        | _ =>
          match key k with
          | .error stop => .error stop
          | .ok name =>
            match h : member p name ts with
            | .error stop => .error stop
            | .ok (q, rest) =>
              have := member_length h
              moreMembers q rest
    | _ => .error (t.looked .noObjectEnd)
termination_by ts => ts.length

def members : List Token → Except Stop (Benchmark × List Token)
  | [] => .error (.atEnd .endOfObject)
  | t :: ts =>
    match t.kind with
    | .objectClose => closed .none t ts
    | _ => do
      let (p, rest) ← member .none (← key t) ts
      moreMembers p rest

/-- The series in a list that comes after `count` others. -/
def nextSeries (element : Token → Except Stop α) (count : Nat) (ts : List Token) :
    Except Stop (List α × List Token) :=
  match ts with
  | [] => .error (.atEnd .endOfList)
  | t :: rest =>
    match t.kind with
    | .listClose => .error (t.passed (.wrongLength count 3))
    | .comma =>
      if count = 0 then series element ts
      else match rest with
        | [] => .error (.atEnd .endOfValue)
        | u :: _ => match u.kind with
          | .listClose => .error (u.looked .trailingComma)
          | _ => series element rest
    | _ => if count = 0 then series element ts else .error (t.looked .noListEnd)

def closeList : List Token → Except Stop (List Token)
  | [] => .error (.atEnd .endOfList)
  | ⟨.listClose, _, _⟩ :: ts => .ok ts
  | ⟨.comma, _, _⟩ :: [] => .error (.atEnd .trailingCharacters)
  | ⟨.comma, _, _⟩ :: t :: _ => match t.kind with
    | .listClose => .error (t.looked .trailingComma)
    | _ => .error (t.looked .trailingCharacters)
  | t :: _ => .error (t.looked .trailingCharacters)

def threeSeries (ts : List Token) : Except Stop (Benchmark × List Token) := do
  let (sizes, ts) ← nextSeries size 0 ts
  let (baseline, ts) ← nextSeries seconds 1 ts
  let (optimized, ts) ← nextSeries seconds 2 ts
  return (⟨sizes, baseline, optimized⟩, ← closeList ts)

def ofTokens (ts : List Token) : Except Stop Benchmark := do
  let (b, rest) ← match ts with
    | [] => .error (.atEnd .endOfValue)
    | t :: ts => match t.kind with
      | .objectOpen => members ts
      | .listOpen => threeSeries ts
      | _ => .error (mistyped .results t)
  match rest with
  | [] => return b
  | t :: _ => .error (t.looked .trailingCharacters)

/-- A stop with the line and the column at which the text was read. -/
def located (text : List UInt8) (stop : Stop) : Failure :=
  let done := match stop.offset with
    | some n => text.take n
    | none => text
  .json stop.fault (done.count 0x0A + 1) (done.reverse.takeWhile (· ≠ 0x0A)).length

def ofText (text : List UInt8) : Except Failure Benchmark := do
  let b ← (ofTokens (Token.list text)).mapError (located text)
  b.validate
  return b

end Benchmark

end LatencyDigest
