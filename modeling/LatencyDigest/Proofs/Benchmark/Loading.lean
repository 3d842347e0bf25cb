import LatencyDigest.Proofs.Benchmark.Times

/-! What the file of the results comes to. It is looked for, opened and read, taken for text, read
as a document, and the lengths of its series are compared; the first of these that fails is told.
The session stays as it is. -/

namespace LatencyDigest.Benchmark

open Json (Token)

variable {b : Benchmark} {files : FileTree} {path : String} {text : List UInt8} {e : Failure}

theorem ofText_of_written (h : Written text b) : ofText text = b.validate.map fun _ => b := by
  rw [ofText, ofTokens_eq_ok_iff.2 h]
  rfl

theorem ofText_of_not_written (h : ∀ b, ¬Written text b) :
    ∃ fault line column, ofText text = .error (.json fault line column) := by
  cases hread : ofTokens (Token.list text) with
  | ok b => exact absurd (written_of_ofTokens hread) (h b)
  | error stop =>
    have hstop : ofText text = .error (located text stop) := by
      rw [ofText, hread]
      rfl
    exact ⟨_, _, _, hstop⟩

/-- The file of that path holds a document of the results. -/
structure Holds (files : FileTree) (path : String) (b : Benchmark) : Prop where
  present_eq : files.present path = true
  written : ∃ text, files.read path = .content (Text.encode text) ∧ Written (Text.encode text) b

/-- What is wrong with a file whose results cannot be loaded. Each case comes after those above
it. -/
inductive Broken (files : FileTree) (path : String) : Failure → Prop where
  | missing (hp : files.present path = false) : Broken files path (.missingFile path)
  | unreadable {fault : FileFault} (hp : files.present path = true)
      (hr : files.read path = .notOpened fault ∨ files.read path = .notRead fault) :
      Broken files path (.file fault)
  | notText {bytes : List UInt8} (hp : files.present path = true)
      (hr : files.read path = .content bytes) (ht : ∀ text, bytes ≠ Text.encode text) :
      Broken files path (.file .notUtf8)
  | notResults {text : List Char} {fault : Json.Fault} {line column : Nat}
      (hp : files.present path = true) (hr : files.read path = .content (Text.encode text))
      (hw : ∀ b, ¬Written (Text.encode text) b)
      (he : ofText (Text.encode text) = .error (.json fault line column)) :
      Broken files path (.json fault line column)
  | unequalSeries {b : Benchmark} (h : Holds files path b)
      (hl : b.baseline.length ≠ b.sizes.length ∨ b.optimized.length ≠ b.sizes.length) :
      Broken files path
        (.unequalSeries b.sizes.length b.baseline.length b.optimized.length)
  | noValues {b : Benchmark} (h : Holds files path b) (hs : b.sizes = []) (hb : b.baseline = [])
      (ho : b.optimized = []) : Broken files path (.noValues "benchmark results" "order_sizes")

theorem complete_or_broken (files : FileTree) (path : String) :
    (∃ b, Holds files path b ∧ b.Complete) ∨ ∃ e, Broken files path e := by
  cases hp : files.present path with
  | false => exact .inr ⟨_, .missing hp⟩
  | true =>
    cases hr : files.read path with
    | notOpened => exact .inr ⟨_, .unreadable hp (.inl hr)⟩
    | notRead => exact .inr ⟨_, .unreadable hp (.inr hr)⟩
    | content bytes =>
      by_cases ht : ∃ text, bytes = Text.encode text
      · obtain ⟨text, rfl⟩ := ht
        by_cases hw : ∃ b, Written (Text.encode text) b
        · obtain ⟨b, hw⟩ := hw
          have hholds : Holds files path b := ⟨hp, text, hr, hw⟩
          rcases Chart.passes_or_refused b with h | ⟨_, hl | ⟨hs, hb, ho⟩ | ⟨hc, -⟩⟩
          · exact .inl ⟨b, hholds, h.complete⟩
          · exact .inr ⟨_, .unequalSeries hholds hl⟩
          · exact .inr ⟨_, .noValues hholds hs hb ho⟩
          · exact .inl ⟨b, hholds, hc⟩
        · have hw := not_exists.1 hw
          obtain ⟨_, _, _, he⟩ := ofText_of_not_written hw
          exact .inr ⟨_, .notResults hp hr hw he⟩
      · exact .inr ⟨_, .notText hp hr (not_exists.1 ht)⟩

/-! The results in a session. -/

theorem attempt_load (path : String) (s : Session) :
    Session.attempt (load path) s =
      (if s.files.present path then ofReading (s.files.read path)
        else .error (.missingFile path), s) := by
  change (if s.files.present path then _ else _ : StateM Session (Except Failure Benchmark)) s = _
  split <;> rfl

theorem ofBytes_encode (text : List Char) :
    ofBytes (Text.encode text) = ofText (Text.encode text) := by
  rw [ofBytes, Text.decode_encode]

variable {s : Session}

theorem Holds.attempt_load (h : Holds s.files path b) :
    Session.attempt (load path) s = (b.validate.map fun _ => b, s) := by
  obtain ⟨hp, text, hr, hw⟩ := h
  rw [Benchmark.attempt_load, if_pos hp, hr, ofReading, ofBytes_encode, ofText_of_written hw]

theorem attempt_load_of_broken (h : Broken s.files path e) :
    Session.attempt (load path) s = (.error e, s) := by
  cases h with
  | missing hp => rw [attempt_load, if_neg (by simp [hp])]
  | unreadable hp hr =>
    rw [attempt_load, if_pos hp]
    rcases hr with hr | hr <;>
    · rw [hr]
      rfl
  | @notText bytes hp hr ht =>
    rw [attempt_load, if_pos hp, hr, ofReading, ofBytes]
    cases hd : Text.decode bytes with
    | ok text => exact absurd (Text.decode_eq_ok_iff.1 hd) (ht text)
    | error => rfl
  | notResults hp hr _ he => rw [attempt_load, if_pos hp, hr, ofReading, ofBytes_encode, he]
  | unequalSeries h hl =>
    rw [h.attempt_load, validate_of_lengths hl]
    rfl
  | noValues h hs hb ho =>
    rw [h.attempt_load, validate_of_nil hs hb ho]
    rfl

theorem attempt_load_of_complete (h : Holds s.files path b) (hc : b.Complete) :
    Session.attempt (load path) s = (.ok b, s) := by
  rw [h.attempt_load, validate_of_complete hc]
  rfl

/-- What is loaded is what the file holds. -/
theorem attempt_load_eq_ok_iff {s' : Session} :
    Session.attempt (load path) s = (.ok b, s') ↔ s' = s ∧ Holds s.files path b ∧ b.Complete := by
  constructor
  · intro h
    rcases complete_or_broken s.files path with ⟨b', hb', hc⟩ | ⟨e, he⟩
    · cases h.symm.trans (attempt_load_of_complete hb' hc)
      exact ⟨rfl, hb', hc⟩
    · cases h.symm.trans (attempt_load_of_broken he)
  · rintro ⟨rfl, h, hc⟩
    exact attempt_load_of_complete h hc

/-- Every point of the results is there, and no time is out of reach. -/
structure Sound (b : Benchmark) : Prop where
  complete : b.Complete
  isFinite : ∀ t ∈ b.times, t.isFinite
  length_points : b.points.length = b.length
  map_points : b.points.map (fun p => p.1) = b.sizes ∧
    b.points.map (fun p => p.2.1) = b.baseline ∧ b.points.map (fun p => p.2.2) = b.optimized

theorem Holds.sound (h : Holds files path b) (hc : b.Complete) : b.Sound := by
  obtain ⟨-, text, -, hw⟩ := h
  refine ⟨hc, hw.isFinite, ?_, hc.map_points⟩
  rw [length, ← hc.map_points.1, List.length_map]

/-- Without a NaN, what passes can be drawn. -/
theorem Sound.drawable_iff (h : b.Sound) : Chart.Drawable b ↔ ¬Chart.Low b := by
  constructor
  · exact fun hd => (Chart.passes_iff.1 hd.passes).2
  · intro hlow
    have hpasses := Chart.passes_iff.2 ⟨h.complete, hlow⟩
    exact hpasses.drawable_iff.2 fun t ht => Binary64.isNaN_of_isFinite (h.isFinite t ht)

end LatencyDigest.Benchmark
