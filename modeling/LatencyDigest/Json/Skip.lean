import LatencyDigest.Json.Token

/-!
Passing over a value that nobody asks for. The lists and objects that are open are kept on a stack,
so that no depth is too deep.
-/

namespace LatencyDigest.Json

inductive Frame where
  | list
  | object

/-- What must come next: a value; what may stand first in a list or an object; a key; the colon
after it; or what may follow a value in the frame around it. -/
inductive Expect where
  | value
  | listItem
  | objectItem
  | key
  | colon
  | more

def Stop.atEnd (fault : Fault) : Stop := ⟨fault, none⟩

def Frame.unclosed : Frame → Fault
  | .list => .endOfList
  | .object => .endOfObject

def Frame.unseparated : Frame → Fault
  | .list => .noListEnd
  | .object => .noObjectEnd

/-- The fault of a text that ends too early. -/
def Expect.unfinished : Expect → List Frame → Fault
  | .value, _ => .endOfValue
  | .listItem, _ => .endOfList
  | .more, f :: _ => f.unclosed
  | _, _ => .endOfObject

/-- Passes over a token that is a whole value. -/
def Token.skipScalar (t : Token) : Except Stop Unit :=
  match t.kind with
  | .word value => value.map fun _ => ()
  | .number (.ok _) => .ok ()
  | .number (.error e) => .error ⟨.badNumber, some (t.start + e.size)⟩
  | .string _ skipped => skipped
  | _ => .error (t.looked .noValue)

def skipValue (fs : List Frame) (t : Token) : Except Stop (Expect × List Frame) :=
  match t.kind with
  | .listOpen => .ok (.listItem, .list :: fs)
  | .objectOpen => .ok (.objectItem, .object :: fs)
  | _ => t.skipScalar.map fun _ => (.more, fs)

def skipKey (fs : List Frame) (t : Token) : Except Stop (Expect × List Frame) :=
  match t.kind with
  | .string _ skipped => skipped.map fun _ => (.colon, fs)
  | _ => .error (t.looked .keyNotString)

/-- What is expected after a token, and in which frames. -/
def skipToken (e : Expect) (fs : List Frame) (t : Token) : Except Stop (Expect × List Frame) :=
  match e, fs, t.kind with
  | .value, fs, _ => skipValue fs t
  | .listItem, _ :: fs, .listClose => .ok (.more, fs)
  | .listItem, fs, _ => skipValue fs t
  | .objectItem, _ :: fs, .objectClose => .ok (.more, fs)
  | .objectItem, fs, _ => skipKey fs t
  | .key, fs, _ => skipKey fs t
  | .colon, fs, .colon => .ok (.value, fs)
  | .colon, _, _ => .error (t.looked .noColon)
  | .more, .list :: fs, .comma => .ok (.value, .list :: fs)
  | .more, .object :: fs, .comma => .ok (.key, .object :: fs)
  | .more, .list :: fs, .listClose => .ok (.more, fs)
  | .more, .object :: fs, .objectClose => .ok (.more, fs)
  | .more, f :: _, _ => .error (t.looked f.unseparated)
  | .more, [], _ => .error (t.looked .trailingCharacters)

theorem skipToken_value (fs : List Frame) (t : Token) :
    skipToken .value fs t = skipValue fs t := by
  rw [skipToken]

def Expect.isDone : Expect → List Frame → Bool
  | .more, [] => true
  | _, _ => false

/-- The tokens after the value that is expected. -/
def skip (e : Expect) (fs : List Frame) : List Token → Except Stop (List Token)
  | [] => .error (.atEnd (e.unfinished fs))
  | t :: ts =>
    match skipToken e fs t with
    | .error stop => .error stop
    | .ok (e, fs) => if e.isDone fs then .ok ts else skip e fs ts

theorem skip_length {e : Expect} {fs : List Frame} {ts rest : List Token}
    (h : skip e fs ts = .ok rest) : rest.length < ts.length := by
  fun_induction skip e fs ts with
  | case1 => simp at h
  | case2 => simp at h
  | case3 => simp_all
  | case4 e fs t ts e' fs' _ _ ih => exact Nat.lt_succ_of_lt (ih h)

end LatencyDigest.Json
