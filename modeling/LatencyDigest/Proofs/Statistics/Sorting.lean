import LatencyDigest.Proofs.Binary64.TotalOrder
import LatencyDigest.Proofs.Statistics.Sample

/-! What sorting makes of values: the same bit patterns, in the one order in which each precedes
those after it. The least and the greatest stand at the two ends, and where all of the values are
numbers they are so for the order of numbers too. -/

namespace LatencyDigest

namespace Binary64

theorem toBits_ofBits (b : UInt64) : (ofBits b).toBits = b := by
  have hb : b.toNat < 2 * 2 ^ 63 := b.toNat_lt
  refine UInt64.toNat_inj.1 ?_
  change UInt64.toNat (.ofNat
    ((if decide (2 ^ 63 ≤ b.toNat) then 2 ^ 63 else 0) + b.toNat % 2 ^ 63)) = b.toNat
  rw [UInt64.toNat_ofNat']
  split <;> simp_all <;> omega

theorem precedes_trans {x y z : Binary64} (hxy : Precedes x y) (hyz : Precedes y z) :
    Precedes x z :=
  precedes_iff.2 (totalLE_trans x y z (precedes_iff.1 hxy) (precedes_iff.1 hyz))

instance : Trans Precedes Precedes Precedes := ⟨precedes_trans⟩

end Binary64

open Binary64

namespace Sample

variable {s : Sample} {v : Binary64}

theorem min_totalLE (h : v ∈ s.values) : s.min.totalLE v := by
  have hordered := s.ordered
  rw [min]
  cases hv : s.values with
  | nil => simp [hv] at h
  | cons a rest =>
    rw [hv] at h hordered
    rcases List.mem_cons.1 h with rfl | hm
    · exact totalLE_iff.2 (Int.le_refl _)
    · exact List.rel_of_pairwise_cons hordered hm

theorem totalLE_max (h : v ∈ s.values) : v.totalLE s.max := by
  have hordered := s.ordered
  rw [max]
  rcases List.eq_nil_or_concat s.values with hv | ⟨rest, a, hv⟩
  · simp [hv] at h
  · rw [List.concat_eq_append] at hv
    rw [hv] at h hordered ⊢
    rw [List.getLast?_concat, Option.getD_some]
    rcases List.mem_append.1 h with hm | hm
    · exact (List.pairwise_append.1 hordered).2.2 v hm a List.mem_cons_self
    · obtain rfl := List.mem_singleton.1 hm
      exact totalLE_iff.2 (Int.le_refl _)

theorem head?_values (h : s.values ≠ []) : s.values.head? = some s.min := by
  rw [min, List.head?_eq_some_head h, Option.getD_some]

theorem getLast?_values (h : s.values ≠ []) : s.values.getLast? = some s.max := by
  rw [max, List.getLast?_eq_some_getLast h, Option.getD_some]

/-- The sample holds those values, sorted. -/
structure Sorts (xs : List Binary64) (s : Sample) : Prop where
  perm : s.values.Perm xs
  bits_perm : ∀ bits : List UInt64, bits.map ofBits = xs → (s.values.map toBits).Perm bits
  isChain : s.values.IsChain Precedes
  pairwise : s.values.Pairwise Precedes
  unique : ∀ ys : List Binary64, ys.Perm xs → ys.IsChain Precedes → ys = s.values
  count_eq : s.count = xs.length
  head?_eq : xs ≠ [] → s.values.head? = some s.min
  getLast?_eq : xs ≠ [] → s.values.getLast? = some s.max
  of_nil : xs = [] → s.min = nan ∧ s.max = nan
  within : (∀ v ∈ xs, v.isNaN = false) → ∀ v ∈ xs, s.min ≤ v ∧ v ≤ s.max

theorem sorts_ofValues (xs : List Binary64) : Sorts xs (ofValues xs) := by
  have hperm := values_ofValues_perm xs
  have hpairwise : (ofValues xs).values.Pairwise Precedes :=
    (ofValues xs).ordered.imp precedes_iff.2
  have hne (h : xs ≠ []) : (ofValues xs).values ≠ [] := fun hv => h (hv ▸ hperm).nil_eq.symm
  refine ⟨hperm, ?_, hpairwise.isChain, hpairwise, ?_, count_ofValues xs,
    fun h => head?_values (hne h), fun h => getLast?_values (hne h), ?_, ?_⟩
  · rintro bits rfl
    have hid : toBits ∘ ofBits = id := funext toBits_ofBits
    have hbits := hperm.map toBits
    rwa [List.map_map, hid, List.map_id] at hbits
  · intro ys hys hchain
    rw [← ofValues_eq_of_perm hys]
    exact (values_ofValues_of_pairwise (hchain.pairwise.imp precedes_iff.1)).symm
  · rintro rfl
    have hnil : (ofValues []).values = [] := values_ofValues_of_pairwise .nil
    rw [min, max, hnil]
    exact ⟨rfl, rfl⟩
  · intro hnan v hv
    have hv' := hperm.mem_iff.2 hv
    have hnumber {w : Binary64} (hw : w ∈ (ofValues xs).values) := hnan w (hperm.mem_iff.1 hw)
    have hmin := List.mem_of_head? (head?_values (List.ne_nil_of_mem hv'))
    have hmax := List.mem_of_getLast? (getLast?_values (List.ne_nil_of_mem hv'))
    exact ⟨⟨hnumber hmin, hnan v hv, place_le_of_totalLE (min_totalLE hv')⟩,
      hnan v hv, hnumber hmax, place_le_of_totalLE (totalLE_max hv')⟩

end Sample

end LatencyDigest
