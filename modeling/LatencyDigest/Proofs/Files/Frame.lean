import LatencyDigest.Proofs.Files.Places

/-! What an operation on files leaves as it is: the files at all other places. Directories may come
in, where there was nothing. -/

namespace LatencyDigest

/-- The fault has a line of its own. -/
def FileFault.IsKnown (fault : FileFault) : Prop := ∀ text, fault ≠ .other text

/-- The place of a spot where a file may be put, and what is there. -/
def Spot.leaf? : Spot → Option (Place × Option Node)
  | .file place content _ => some (place, some (.file content))
  | .vacant place _ => some (place, none)
  | .directory _ | .overlong _ => none

namespace FileTree

variable {t u v w : FileTree} {place : Place} {path : String} {places others : List Place}

/-- The content of the file at a place. -/
def file? (t : FileTree) (place : Place) : Option (List UInt8) :=
  match t.node? place with
  | some (.file content) => some content
  | _ => none

theorem file?_of_node? {content : List UInt8} (h : t.node? place = some (.file content)) :
    t.file? place = some content := by
  rw [file?, h]

theorem put_put (t : FileTree) (place : Place) (m n : Node) :
    (t.put place m).put place n = t.put place n := by
  have h : ∀ nodes, putNode place n (putNode place m nodes) = putNode place n nodes := by
    intro nodes
    induction nodes with
    | nil => simp [putNode]
    | cons entry r ih =>
      obtain ⟨p, k⟩ := entry
      by_cases hp : p = place
      · simp [putNode, hp]
      · simp [putNode, hp, ih]
  rw [put, put, put, h]

/-- Files are changed and made at the given places only. -/
structure Frame (places : List Place) (t u : FileTree) : Prop where
  here_eq : u.here = t.here
  file?_eq : ∀ p, p ∉ places → u.file? p = t.file? p

namespace Frame

theorem refl (places : List Place) (t : FileTree) : Frame places t t := ⟨rfl, fun _ _ => rfl⟩

theorem trans (h : Frame places t u) (h' : Frame places u v) : Frame places t v :=
  ⟨h'.here_eq.trans h.here_eq, fun p hp => (h'.file?_eq p hp).trans (h.file?_eq p hp)⟩

theorem mono (h : Frame places t u) (hs : places ⊆ others) : Frame others t u :=
  ⟨h.here_eq, fun p hp => h.file?_eq p fun hm => hp (hs hm)⟩

/-- Changes at some places with others between them. -/
theorem trans_trans (h : Frame places t u) (hm : Frame others u v) (h' : Frame places v w) :
    Frame (places ++ others) t w := by
  have hleft := List.subset_append_left places others
  exact (h.mono hleft).trans ((hm.mono (List.subset_append_right places others)).trans
    (h'.mono hleft))

theorem put (t : FileTree) (h : place ∈ places) (n : Node) : Frame places t (t.put place n) where
  here_eq := rfl
  file?_eq p hp := by
    have hne : p ≠ place := fun he => hp (he ▸ h)
    rw [file?, node?_put_of_ne hne, file?]

end Frame

theorem node?_of_follow {start : Place} {names : List String} {node : Option Node} {spot : Spot}
    (h : t.follow start names = .ok spot) (hs : spot.leaf? = some (place, node)) :
    t.node? place = node := by
  fun_induction follow t start names with
  | case1 | case5 =>
    cases h
    cases hs
  | case2 _ _ ih | case3 _ _ ih | case4 _ _ ih => exact ih h
  | case6 | case9 | case11 => cases h
  | case7 _ _ _ _ _ _ _ _ ih => exact ih h
  | case8 | case10 =>
    cases h
    cases hs
    assumption

theorem node?_of_resolve {node : Option Node} {spot : Spot} (h : t.resolve path = .ok spot)
    (hs : spot.leaf? = some (place, node)) : t.node? place = node := by
  rw [resolve_eq] at h
  repeat' split at h
  all_goals first | cases h | exact node?_of_follow h hs

theorem ne_nil_of_target (h : t.target path = .ok place) : place ≠ [] := by
  rintro rfl
  rcases target_eq_ok_iff.1 h with ⟨content, h⟩ | h
  · cases node?_of_resolve h rfl
  · cases node?_of_resolve h rfl

theorem write_eq_ok_iff {bytes : List UInt8} : t.write path bytes = .ok u ↔
    ∃ place, t.target path = .ok place ∧ t.put place (.file bytes) = u := by
  rw [write]
  cases t.target path <;> simp [bind, Except.bind, pure, Except.pure]

theorem write_eq_error_iff {bytes : List UInt8} {fault : FileFault} :
    t.write path bytes = .error fault ↔ t.target path = .error fault := by
  rw [write]
  cases t.target path <;> simp [bind, Except.bind, pure, Except.pure]

theorem node?_write_self {bytes : List UInt8} (h : t.write path bytes = .ok u) :
    u.node? (t.placeOf path) = some (.file bytes) := by
  obtain ⟨place, ht, rfl⟩ := write_eq_ok_iff.1 h
  rw [target_eq_placeOf ht]
  exact node?_put_self (ne_nil_of_target ht)

theorem node?_write_of_ne {bytes : List UInt8} (h : t.write path bytes = .ok u) {p : Place}
    (hp : p ≠ t.placeOf path) : u.node? p = t.node? p := by
  obtain ⟨place, ht, rfl⟩ := write_eq_ok_iff.1 h
  exact node?_put_of_ne (target_eq_placeOf ht ▸ hp)

theorem patch_length {content : List UInt8} (h : t.node? place = some (.file content))
    (bytes : List UInt8) :
    t.patch place content.length bytes = t.put place (.file (content ++ bytes)) := by
  rw [patch, h]
  dsimp only
  rw [overwrite_length]

theorem frame_write {bytes : List UInt8} (h : t.write path bytes = .ok u)
    (hp : t.placeOf path ∈ places) : Frame places t u := by
  obtain ⟨place, ht, rfl⟩ := write_eq_ok_iff.1 h
  exact .put t (target_eq_placeOf ht ▸ hp) _

theorem Clear.write {other : String} {bytes : List UInt8} (h : t.Clear place path)
    (hw : t.write other bytes = .ok u) (ho : t.placeOf other ≠ place) : u.Clear place path := by
  obtain ⟨p, ht, rfl⟩ := write_eq_ok_iff.1 hw
  exact h.put _ (target_eq_placeOf ht ▸ ho)

theorem makeDirectory_eq_ok_iff : t.makeDirectory path = .ok u ↔
    ∃ place slashed, t.resolve path = .ok (.vacant place slashed) ∧ t.put place .directory = u := by
  rw [makeDirectory]
  split <;> simp_all

theorem frame_makeDirectory (h : t.makeDirectory path = .ok u) : Frame [] t u := by
  obtain ⟨place, slashed, hr, rfl⟩ := makeDirectory_eq_ok_iff.1 h
  have hnone : t.node? place = none := node?_of_resolve hr rfl
  refine ⟨rfl, fun p _ => ?_⟩
  by_cases hp : p = place
  · subst hp
    have hne : p ≠ [] := by
      rintro rfl
      cases hnone
    rw [file?, file?, node?_put_self hne, hnone]
  · rw [file?, file?, node?_put_of_ne hp]

/-! The faults of files are told by one line each. -/

theorem isKnown_of_follow {start : Place} {names : List String} {fault : FileFault}
    (h : t.follow start names = .error fault) : fault.IsKnown := by
  fun_induction follow t start names with
  | case1 | case5 | case8 | case10 => cases h
  | case2 _ _ ih | case3 _ _ ih | case4 _ _ ih => exact ih h
  | case7 _ _ _ _ _ _ _ _ ih => exact ih h
  | case6 | case9 | case11 =>
    cases h
    rintro text ⟨⟩

theorem isKnown_of_resolve {fault : FileFault} (h : t.resolve path = .error fault) :
    fault.IsKnown := by
  rw [resolve_eq] at h
  repeat' split at h
  all_goals first | exact isKnown_of_follow h | (cases h; rintro text ⟨⟩)

theorem isKnown_of_makeDirectory {fault : FileFault} (h : t.makeDirectory path = .error fault) :
    fault.IsKnown := by
  rw [makeDirectory] at h
  split at h <;> cases h
  · rintro text ⟨⟩
  · rintro text ⟨⟩
  · exact isKnown_of_resolve ‹_›

end FileTree

end LatencyDigest
