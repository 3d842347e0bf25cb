import LatencyDigest.Text.Split

/-!
Paths: names with slashes between them. A path that begins with a slash starts at the root, any
other in the directory where the program runs.
-/

namespace LatencyDigest.Path

/-- The path `q` seen from the directory `p`. -/
def join (p q : String) : String :=
  match q.toList, p.toList.getLast? with
  | '/' :: _, _ => q
  | _, none | _, some '/' => p ++ q
  | _, _ => p ++ "/" ++ q

/-- The names that lead nowhere. -/
def isIdle (name : List Char) : Bool := name = [] || name = ['.']

/-- The paths that end at each of the names, which come from the last one backwards. -/
def endings : List (List Char) → List (List Char)
  | [] => []
  | name :: above =>
    if isIdle name then endings above
    else Text.join '/' (name :: above).reverse :: endings above

/-- A path and the directories that it goes through, from the path itself outward. -/
def ancestors (path : String) : List String :=
  let ends := fun r => endings (Text.split '/' r).reverse
  let all := match path.toList with
    | '/' :: r => (ends r).map ('/' :: ·) ++ [['/']]
    | ['.'] => [['.'], []]
    | '.' :: '/' :: r => (ends r).map (['.', '/'] ++ ·) ++ [['.'], []]
    | r => ends r ++ [[]]
  all.map String.ofList

/-- The directory that a path is in. The empty path and the root are in none. -/
def parent? (path : String) : Option String := (ancestors path)[1]?

end LatencyDigest.Path
