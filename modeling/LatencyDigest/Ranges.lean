import LatencyDigest.Binary64.Order
import LatencyDigest.Decimal.Notation
import LatencyDigest.Decimal.Numeral
import LatencyDigest.Text.Blank
import LatencyDigest.Text.Split

/-!
Latency ranges: `n` bounds in ascending order, and the `n + 1` buckets between them. A value that is
equal to a bound belongs to the bucket below it.
-/

namespace LatencyDigest

inductive RangeFault where
  | noBounds
  | notAscending
  | negative
  | notNumber (piece : String)
  deriving DecidableEq

def RangeFault.message : RangeFault → String
  | .noBounds => "No valid latency range values provided"
  | .notAscending => "Latency range values must be in ascending order"
  | .negative => "Latency range values must be non-negative"
  | .notNumber piece => "Invalid latency range value: " ++ piece

structure Ranges where
  bounds : List Binary64
  deriving DecidableEq

namespace Ranges

/-- No bound is at most the one before it. -/
def ascending : List Binary64 → Bool
  | a :: b :: r => !decide (b ≤ a) && ascending (b :: r)
  | _ => true

def ofBounds (bounds : List Binary64) : Except RangeFault Ranges :=
  if bounds = [] then .error .noBounds
  else if ascending bounds then .ok ⟨bounds⟩
  else .error .notAscending

/-- The bounds in microseconds that are used when none are given. -/
def standard : Ranges := ⟨[1, 5, 10, 50, 100, 500, 1000, 5000].map Binary64.ofNat⟩

instance : Inhabited Ranges := ⟨standard⟩

def bound (piece : List Char) : Except RangeFault Binary64 :=
  match Binary64.ofChars? (Text.trim piece) with
  | none => .error (.notNumber (String.ofList piece))
  | some x => if Binary64.zero ≤ x then .ok x else .error .negative

def parse (s : String) : Except RangeFault Ranges :=
  (Text.split ',' s.toList).mapM bound >>= ofBounds

def bucketCount (r : Ranges) : Nat := r.bounds.length + 1

def firstLabel : List Binary64 → List String
  | [] => []
  | b :: _ => ["≤ " ++ b.text ++ "us"]

def innerLabels : List Binary64 → List String
  | a :: b :: r => (a.text ++ "us < v ≤ " ++ b.text ++ "us") :: innerLabels (b :: r)
  | _ => []

def lastLabel : List Binary64 → List String
  | [] => []
  | [b] => ["> " ++ b.text ++ "us"]
  | _ :: b :: r => lastLabel (b :: r)

def labels (r : Ranges) : List String :=
  firstLabel r.bounds ++ innerLabels r.bounds ++ lastLabel r.bounds

/-- Where the elements that pass `p` end, found by halving. In each step the element in the middle
decides which half is kept. -/
def boundary (p : α → Bool) : List α → Nat
  | [] => 0
  | [a] => if p a then 1 else 0
  | a :: b :: r =>
    let half := (r.length + 2) / 2
    let upper := (a :: b :: r).drop half
    let lower := (a :: b :: r).take (r.length + 2 - half)
    if upper.head?.any p then half + boundary p upper else boundary p lower
termination_by xs => xs.length
decreasing_by
  · simp only [List.length_drop, List.length_cons]
    omega
  · simp only [List.length_take, List.length_cons]
    omega

/-- The bucket of a value: the number of bounds below it. -/
def bucket (r : Ranges) (v : Binary64) : Nat := boundary (fun b => decide (b < v)) r.bounds

def count (r : Ranges) (values : List Binary64) : List Nat :=
  (List.range r.bucketCount).map fun i => values.countP fun v => r.bucket v = i

end Ranges

end LatencyDigest
