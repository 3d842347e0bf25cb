import LatencyDigest.Proofs.Ranges.Bounds
import LatencyDigest.Proofs.Table.Normalize
import LatencyDigest.Proofs.Units

/-! Bounds that are given in thousandths of a microsecond are nanoseconds, and the buckets between
them count the nanoseconds of a log as whole numbers. -/

namespace LatencyDigest

/-- Numbers counted by the bounds that they lie between, a number on a bound below it. -/
structure Tallies (ks : List Nat) (ns : List Int64) (counts : List Nat) : Prop where
  length_eq : counts.length = ks.length + 1
  first : ∀ h : 0 < ks.length, counts[0]? = some (ns.countP fun n => n.toInt ≤ (ks[0] : Int))
  between : ∀ i, ∀ h : i + 1 < ks.length, counts[i + 1]? =
    some (ns.countP fun n => (ks[i] : Int) < n.toInt ∧ n.toInt ≤ (ks[i + 1] : Int))
  last : ∀ h : 0 < ks.length, counts[ks.length]? =
    some (ns.countP fun n => (ks[ks.length - 1] : Int) < n.toInt)

namespace Ranges

def ofThousandths (ks : List Nat) : Ranges := ⟨ks.map .ofThousandths⟩

theorem bound_of_thousandths {k : Nat} {s : List Char} (h : Thousandths k s) :
    bound s = .ok (.ofThousandths k) := by
  have hpos : Binary64.zero ≤ .ofThousandths k :=
    ⟨rfl, Binary64.isNaN_ofRatio .., Int.natCast_nonneg _⟩
  rw [bound, h.trim_eq, h.ofChars?_eq]
  exact if_pos hpos

theorem ascending_of_pairwise {bs : List Binary64} (h : bs.Pairwise fun a b => ¬b ≤ a) :
    ascending bs :=
  ascending_iff_isChain.2 (List.Pairwise.isChain h)

theorem getElem?_count_map {r : Ranges} {f : α → Binary64} {xs : List α} {i : Nat} {q : α → Prop}
    [DecidablePred q] (hi : i < r.bucketCount) (h : ∀ x, r.bucket (f x) = i ↔ q x) :
    (r.count (xs.map f))[i]? = some (xs.countP fun x => q x) := by
  have hl : i < (r.count (xs.map f)).length := by rwa [length_count]
  rw [List.getElem?_eq_getElem hl, getElem_count, List.countP_map]
  refine congrArg some (List.countP_congr fun x _ => ?_)
  simp [h x]

section
variable {ks : List Nat} (hlt : ks.Pairwise (· < ·)) (hle : ∀ k ∈ ks, k ≤ 2 ^ 50)
include hlt hle

theorem parse_of_thousandths (hne : ks ≠ []) {texts : List (List Char)}
    (h : List.Forall₂ Thousandths ks texts) :
    parse (String.ofList (Text.join ',' texts)) = .ok (ofThousandths ks) := by
  have hcomma : ∀ s ∈ texts, ',' ∉ s := by
    intro s hs
    obtain ⟨k, -, hk⟩ := Aligned.exists_left_of_mem h hs
    exact hk.not_mem (by decide)
  have htexts : texts ≠ [] := by
    rintro rfl
    exact hne (List.forall₂_nil_right_iff.1 h)
  have hbounds : texts.mapM bound = .ok (ks.map .ofThousandths) := by
    rw [Outcome.mapM_eq_ok_iff, List.forall₂_map_right_iff]
    exact h.flip.imp fun _ _ => bound_of_thousandths
  have hascending : ascending (ks.map .ofThousandths) := by
    refine ascending_of_pairwise (List.pairwise_map.2 (hlt.imp_of_mem fun ha _ hab => ?_))
    exact Binary64.not_ofThousandths_le hab (hle _ ha)
  rw [parse, String.toList_ofList, Text.split_join htexts hcomma, hbounds]
  exact ofBounds_eq_ok_iff.2 ⟨by simpa using hne, hascending, rfl⟩

/-- The bound at an index is below a number of nanoseconds exactly if its thousandths are. -/
theorem lt_bucket_iff (i : Int64) {j : Nat} (hj : j < ks.length) :
    j < (ofThousandths ks).bucket (nanosToMicros (.ofInt i.toInt)) ↔ ks[j] < i.toInt := by
  have hp : ∀ k ∈ ks, (decide (Binary64.ofThousandths k < nanosToMicros (.ofInt i.toInt)) ↔
      k < i.toInt) := by
    intro k hk
    rw [decide_eq_true_iff]
    exact ofThousandths_lt_nanosToMicros (hle k hk) i
  have hparted : Parted (fun b => decide (b < nanosToMicros (.ofInt i.toInt)))
      (ofThousandths ks).bounds := by
    refine List.pairwise_map.2 (hlt.imp_of_mem fun {a b} ha hb hab => ?_)
    rw [hp a ha, hp b hb]
    omega
  have hlen : j < (ofThousandths ks).bounds.length := by
    rwa [ofThousandths, List.length_map]
  rw [bucket, lt_boundary_iff hparted hlen, ← hp _ (List.getElem_mem hj)]
  simp [ofThousandths]

theorem tallies_count (ns : List Int64) : Tallies ks ns
    ((ofThousandths ks).count (ns.map fun n => nanosToMicros (.ofInt n.toInt))) := by
  have hcount : (ofThousandths ks).bucketCount = ks.length + 1 := by
    rw [bucketCount, ofThousandths, List.length_map]
  have hbucket (n : Int64) := (ofThousandths ks).bucket_lt (nanosToMicros (.ofInt n.toInt))
  rw [hcount] at hbucket
  -- whether the bucket is past an index is known for each index of a bound
  refine ⟨by rw [length_count, hcount], fun h => ?_, fun i h => ?_, fun h => ?_⟩
  · refine getElem?_count_map (by omega) fun n => ?_
    have := lt_bucket_iff hlt hle n h
    omega
  · refine getElem?_count_map (by omega) fun n => ?_
    have := lt_bucket_iff hlt hle n h
    have := lt_bucket_iff hlt hle n (Nat.lt_of_succ_lt h)
    omega
  · refine getElem?_count_map (by omega) fun n => ?_
    have := lt_bucket_iff hlt hle n (Nat.sub_lt h Nat.one_pos)
    have := hbucket n
    omega

end

theorem parse_count_exact {ks : List Nat} {texts : List (List Char)} (hne : ks ≠ [])
    (hlt : ks.Pairwise (· < ·)) (hle : ∀ k ∈ ks, k ≤ 2 ^ 50)
    (h : List.Forall₂ Thousandths ks texts) :
    ∃ r, parse (String.ofList (Text.join ',' texts)) = .ok r ∧
      ∀ (t : Table) (source derived : String) (ns : List Int64),
        t.column source = .ok (.integers ns) →
        (∃ u, t.normalize [(source, derived)] = (u, none)) ∧
        ∀ (before after : List (String × String)) (u : Table),
          source ∉ before.map Prod.snd → derived ∉ after.map Prod.snd →
          t.normalize (before ++ (source, derived) :: after) = (u, none) →
          ∃ micros, u.floats derived = .ok micros ∧ Tallies ks ns (r.count micros) := by
  refine ⟨_, parse_of_thousandths hlt hle hne h, fun t source derived ns hs => ?_⟩
  rw [Table.column_eq_ok_iff] at hs
  constructor
  · have hmem : source ∈ t.columnNames := List.mem_map_of_mem (Column.mem_of_find? hs)
    exact ⟨_, Prod.ext rfl (Table.normalize_eq_none (by simpa using hmem))⟩
  · intro before after u hb ha hu
    exact ⟨_, Table.floats_of_derived (Table.find?_normalize hu hs hb ha),
      tallies_count hlt hle ns⟩

/-- Numbers on a bound and beside it, and the least and the greatest. -/
theorem parse_count_exact_extremes :
    let ns := [Int64.minValue, 0, 1500, 1501, Int64.maxValue]
    let t : Table :=
      ⟨"TCP response", 5, [⟨LogKind.reply.nanos, .integers ns⟩], by decide, by decide⟩
    ∃ r u micros, parse "0,1.5,1125899906842.624" = .ok r ∧
      t.normalizeLog .response = (u, none) ∧ u.floats LogKind.reply.micros = .ok micros ∧
      Tallies [0, 1500, 2 ^ 50] ns (r.count micros) := by
  intro ns t
  have h : List.Forall₂ Thousandths [0, 1500, 2 ^ 50]
      ["0".toList, "1".toList ++ '.' :: "5".toList,
        "1125899906842".toList ++ '.' :: "624".toList] :=
    .cons (.whole (by decide) (by decide) (by decide)) <|
    .cons (.point (by decide) (by decide) (by decide) (by decide) (by decide)) <|
    .cons (.point (by decide) (by decide) (by decide) (by decide) (by decide)) .nil
  obtain ⟨r, hr, hcount⟩ := parse_count_exact (by decide) (by decide) (by decide) h
  obtain ⟨⟨u, hu⟩, hmicros⟩ := hcount t LogKind.reply.nanos LogKind.reply.micros ns rfl
  obtain ⟨micros, hm, htallies⟩ := hmicros [] [] u (by decide) (by decide) hu
  exact ⟨r, u, micros, hr, hu, hm, htallies⟩

end Ranges

end LatencyDigest
