import LatencyDigest.Files.Tree

/-! Where a path leads. The place is told from the names alone, if there is one at all; and a tree
that has another file at one place leads the paths that keep clear of it to the same places. -/

namespace LatencyDigest

namespace Place

/-- Where the names lead from a place if all of them are there. -/
def walk (place : Place) : List String → Place
  | [] => place
  | "" :: r | "." :: r => place.walk r
  | ".." :: r => walk place.tail r
  | name :: r => walk (name :: place) r

/-- The places that the names come to, one after the other. -/
def way (place : Place) : List String → List Place
  | [] => []
  | "" :: r | "." :: r => place.way r
  | ".." :: r => way place.tail r
  | name :: r => (name :: place) :: way (name :: place) r

theorem walk_of_all_isEmpty (place : Place) {names : List String}
    (h : names.all String.isEmpty = true) : place.walk names = place := by
  induction names with
  | nil => rfl
  | cons name names ih =>
    rw [List.all_cons, Bool.and_eq_true] at h
    obtain rfl := String.isEmpty_iff.1 h.1
    exact ih h.2

end Place

/-- The place that a spot is. A name that is too long has none. -/
def Spot.place? : Spot → Option Place
  | directory place | file place _ _ | vacant place _ => some place
  | overlong _ => none

namespace FileTree

variable {t u : FileTree} {place : Place} {path : String}

def namesOf (path : String) : List String := (Text.split '/' path.toList).map String.ofList

/-- Where the names of a path begin. -/
def startOf (t : FileTree) (path : String) : Place :=
  if (namesOf path).head? = some "" then [] else t.here

/-- The place that a path names, whether there is anything or not. -/
def placeOf (t : FileTree) (path : String) : Place := (t.startOf path).walk (namesOf path)

/-- The places that a path comes to on its way. -/
def wayOf (t : FileTree) (path : String) : List Place := (t.startOf path).way (namesOf path)

theorem placeOf_congr (h : u.here = t.here) (path : String) : u.placeOf path = t.placeOf path := by
  rw [placeOf, placeOf, startOf, startOf, h]

theorem resolve_eq (t : FileTree) (path : String) : t.resolve path =
    if '\x00' ∈ path.toList then .error .nulInName
    else if path = "" then .error .notFound
    else if maxPath < path.utf8ByteSize then .error .nameTooLong
    else t.follow (t.startOf path) (namesOf path) := rfl

theorem place?_of_follow {start : Place} {names : List String} {spot : Spot}
    (h : t.follow start names = .ok spot) (hp : spot.place? = some place) :
    start.walk names = place := by
  fun_induction follow t start names with
  | case1 start =>
    cases h
    exact Option.some.inj hp
  | case2 _ _ ih | case3 _ _ ih | case4 _ _ ih => exact ih h
  | case5 =>
    cases h
    cases hp
  | case6 | case9 | case11 => cases h
  | case7 start name r h₁ h₂ h₃ _ _ ih =>
    rw [Place.walk] <;> first | assumption | exact ih h
  | case8 start name r h₁ h₂ h₃ _ _ _ _ hr | case10 start name r h₁ h₂ h₃ _ _ _ hr =>
    cases h
    rw [Place.walk] <;> try assumption
    rw [Place.walk_of_all_isEmpty _ hr]
    exact Option.some.inj hp

theorem place?_of_resolve {spot : Spot} (h : t.resolve path = .ok spot)
    (hp : spot.place? = some place) : t.placeOf path = place := by
  rw [resolve_eq] at h
  repeat' split at h
  all_goals first | cases h | exact place?_of_follow h hp

theorem target_eq_ok_iff : t.target path = .ok place ↔
    (∃ content, t.resolve path = .ok (.file place content false)) ∨
      t.resolve path = .ok (.vacant place false) := by
  rw [target]
  split <;> simp_all

theorem target_eq_placeOf (h : t.target path = .ok place) : t.placeOf path = place := by
  rcases target_eq_ok_iff.1 h with ⟨content, h⟩ | h
  · exact place?_of_resolve h rfl
  · exact place?_of_resolve h rfl

/-! Two trees that differ at one place. -/

/-- The second tree has a file at the place, and all else as the first has it. -/
structure SameBut (place : Place) (t u : FileTree) : Prop where
  here_eq : u.here = t.here
  node?_eq : ∀ p, p ≠ place → u.node? p = t.node? p
  isFile : ∃ content, u.node? place = some (.file content)

/-- The path does not lead to the place, nor through it, unless there is a file that stops it. -/
structure Clear (t : FileTree) (place : Place) (path : String) : Prop where
  placeOf_ne : t.placeOf path ≠ place
  isFile_of_mem : place ∈ t.wayOf path → ∃ content, t.node? place = some (.file content)

theorem follow_name (t : FileTree) (start : Place) {name : String} (r : List String)
    (h₁ : name ≠ "") (h₂ : name ≠ ".") (h₃ : name ≠ "..") : t.follow start (name :: r) =
      if maxName < name.utf8ByteSize then
        if r.all String.isEmpty then .ok (.overlong !r.isEmpty) else .error .nameTooLong
      else match t.node? (name :: start) with
        | some .directory => t.follow (name :: start) r
        | some (.file content) =>
          if r.all String.isEmpty then .ok (.file (name :: start) content !r.isEmpty)
          else .error .notADirectory
        | none =>
          if r.all String.isEmpty then .ok (.vacant (name :: start) !r.isEmpty)
          else .error .notFound :=
  follow.eq_5 t start name r h₁ h₂ h₃

namespace SameBut

theorem follow_eq (h : SameBut place t u) {start : Place} {names : List String}
    (hw : start.walk names ≠ place)
    (hc : place ∈ start.way names → ∃ content, t.node? place = some (.file content)) :
    u.follow start names = t.follow start names := by
  induction names generalizing start with
  | nil => rfl
  | cons name r ih =>
    by_cases h₁ : name = ""
    · subst h₁
      exact ih hw hc
    by_cases h₂ : name = "."
    · subst h₂
      exact ih hw hc
    by_cases h₃ : name = ".."
    · subst h₃
      exact ih hw hc
    have hwalk : start.walk (name :: r) = Place.walk (name :: start) r := by
      rw [Place.walk] <;> assumption
    have hway : start.way (name :: r) = (name :: start) :: Place.way (name :: start) r := by
      rw [Place.way] <;> assumption
    rw [hwalk] at hw
    rw [hway] at hc
    rw [follow_name u start r h₁ h₂ h₃, follow_name t start r h₁ h₂ h₃]
    by_cases hp : name :: start = place
    · obtain ⟨content, hcontent⟩ := hc (hp ▸ List.mem_cons_self)
      obtain ⟨other, hother⟩ := h.isFile
      have hlast : ¬r.all String.isEmpty = true := fun hr =>
        hw (hp ▸ Place.walk_of_all_isEmpty (name :: start) hr)
      simp only [hp, hcontent, hother, if_neg hlast]
    · rw [h.node?_eq _ hp, ih hw fun hm => hc (List.mem_cons_of_mem _ hm)]

theorem resolve_eq (h : SameBut place t u) (hc : t.Clear place path) :
    u.resolve path = t.resolve path := by
  have hstart : u.startOf path = t.startOf path := by rw [startOf, startOf, h.here_eq]
  rw [FileTree.resolve_eq, FileTree.resolve_eq, hstart]
  rw [h.follow_eq hc.placeOf_ne hc.isFile_of_mem]

theorem read_eq (h : SameBut place t u) (hc : t.Clear place path) : u.read path = t.read path := by
  rw [read, read, h.resolve_eq hc]

theorem target_eq (h : SameBut place t u) (hc : t.Clear place path) :
    u.target path = t.target path := by
  rw [target, target, h.resolve_eq hc]

theorem ne_nil (h : SameBut place t u) : place ≠ [] := by
  rintro rfl
  obtain ⟨content, hc⟩ := h.isFile
  cases hc

theorem put (h : SameBut place t u) {p : Place} (n : Node) (hp : p ≠ place) :
    SameBut place (t.put p n) (u.put p n) where
  here_eq := h.here_eq
  node?_eq q hq := by
    by_cases hpq : q = p
    · subst hpq
      cases q with
      | nil => rfl
      | cons => rw [node?_put_self (by simp), node?_put_self (by simp)]
    · rw [node?_put_of_ne hpq, node?_put_of_ne hpq, h.node?_eq q hq]
  isFile := by
    obtain ⟨content, hc⟩ := h.isFile
    exact ⟨content, by rw [node?_put_of_ne hp.symm, hc]⟩

/-- More bytes in the file of the second tree. -/
theorem put_self (h : SameBut place t u) (content : List UInt8) :
    SameBut place t (u.put place (.file content)) where
  here_eq := h.here_eq
  node?_eq p hp := by rw [node?_put_of_ne hp, h.node?_eq p hp]
  isFile := ⟨content, node?_put_self h.ne_nil⟩

end SameBut

theorem Clear.put {p : Place} (h : t.Clear place path) (n : Node) (hp : p ≠ place) :
    (t.put p n).Clear place path where
  placeOf_ne := h.placeOf_ne
  isFile_of_mem hm := by
    obtain ⟨content, hc⟩ := h.isFile_of_mem hm
    exact ⟨content, by rw [node?_put_of_ne hp.symm, hc]⟩

end FileTree

end LatencyDigest
