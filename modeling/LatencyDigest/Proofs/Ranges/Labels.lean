import LatencyDigest.Proofs.Decimal.ReadBack
import LatencyDigest.Proofs.Ranges.Parsing
import LatencyDigest.Proofs.Ranges.Partition
import Mathlib.Data.List.Nodup

/-! What the labels tell of the bounds. Each label but the last ends with the upper bound of its
bucket, and the bounds that stand there are read back as they were. -/

namespace LatencyDigest

namespace Bucket

/-- The text of the upper bound in a label. -/
def upperText (label : String) : List Char :=
  ((label.toList.dropWhile (· ≠ '≤')).drop 2).takeWhile (· ≠ 'u')

theorem toList_label_upTo (b : Binary64) :
    (label (upTo b)).toList = [] ++ '≤' :: ' ' :: (b.chars ++ ['u', 's']) := by
  simp [label, Binary64.text]

theorem toList_label_between (a b : Binary64) : (label (between a b)).toList =
    (a.chars ++ ['u', 's', ' ', '<', ' ', 'v', ' ']) ++ '≤' :: ' ' :: (b.chars ++ ['u', 's']) := by
  simp [label, Binary64.text]

theorem toList_label_above (a : Binary64) :
    (label (above a)).toList = '>' :: ' ' :: (a.chars ++ ['u', 's']) := by
  simp [label, Binary64.text]

theorem decide_ne_of_mem {text : List Char} {d : Char} (h : d ∉ text) :
    ∀ c ∈ text, decide (c ≠ d) = true := by
  intro c hc
  refine decide_eq_true ?_
  rintro rfl
  exact h hc

theorem upperText_of_toList {l : String} {before after : List Char} {b : Binary64}
    (hb : '≤' ∉ before) (h : l.toList = before ++ '≤' :: ' ' :: (b.chars ++ 'u' :: after)) :
    upperText l = b.chars := by
  have hdrop : l.toList.dropWhile (· ≠ '≤') = '≤' :: ' ' :: (b.chars ++ 'u' :: after) := by
    rw [h, List.dropWhile_append_of_pos (decide_ne_of_mem hb),
      List.dropWhile_cons_of_neg (by decide)]
  have hchars : 'u' ∉ b.chars := Binary64.not_mem_chars (by decide) (by decide) b
  rw [upperText, hdrop, List.drop_succ_cons, List.drop_succ_cons, List.drop_zero,
    List.takeWhile_append_of_pos (decide_ne_of_mem hchars),
    List.takeWhile_cons_of_neg (by decide), List.append_nil]

theorem upperText_upTo (b : Binary64) : upperText (label (upTo b)) = b.chars :=
  upperText_of_toList List.not_mem_nil (toList_label_upTo b)

theorem upperText_between (a b : Binary64) : upperText (label (between a b)) = b.chars := by
  refine upperText_of_toList ?_ (toList_label_between a b)
  rw [List.mem_append, not_or]
  exact ⟨Binary64.not_mem_chars (by decide) (by decide) a, by decide⟩

theorem upperText_above (a : Binary64) : upperText (label (above a)) = [] := by
  have hdrop : (label (above a)).toList.dropWhile (· ≠ '≤') = [] := by
    have hchars : '≤' ∉ a.chars := Binary64.not_mem_chars (by decide) (by decide) a
    rw [List.dropWhile_eq_nil_iff, toList_label_above]
    exact decide_ne_of_mem (by simpa using hchars)
  rw [upperText, hdrop]
  rfl

/-- The texts of the upper bounds are the bounds from the next on, and the last bucket has none. -/
theorem exists_beyond_eq (a : Binary64) (bs : List Binary64) : ∃ ps c,
    beyond a bs = ps ++ [above c] ∧
      ps.map (fun p => upperText p.label) = bs.map Binary64.chars := by
  induction bs generalizing a with
  | nil => exact ⟨[], a, rfl, rfl⟩
  | cons b bs ih =>
    obtain ⟨ps, c, hps, htexts⟩ := ih b
    refine ⟨between a b :: ps, c, by rw [beyond, hps, List.cons_append], ?_⟩
    rw [List.map_cons, List.map_cons, upperText_between, htexts]

theorem exists_all_eq {bs : List Binary64} (h : bs ≠ []) : ∃ ps c, all bs = ps ++ [above c] ∧
    ps.map (fun p => upperText p.label) = bs.map Binary64.chars := by
  obtain ⟨b, bs, rfl⟩ := List.exists_cons_of_ne_nil h
  obtain ⟨ps, c, hps, htexts⟩ := exists_beyond_eq b bs
  refine ⟨upTo b :: ps, c, by rw [all, hps, List.cons_append], ?_⟩
  rw [List.map_cons, List.map_cons, upperText_upTo, htexts]

end Bucket

namespace Ranges

open Binary64 Bucket

/-- The texts of the bounds, taken out of the labels. -/
def boundTexts (labels : List String) : List (List Char) := labels.dropLast.map upperText

variable {r : Ranges}

theorem boundTexts_labels (h : r.bounds ≠ []) : boundTexts r.labels = r.bounds.map chars := by
  obtain ⟨ps, c, hps, htexts⟩ := exists_all_eq h
  rw [boundTexts, labels_eq_map, hps, List.map_append, List.map_singleton, List.dropLast_concat,
    List.map_map, ← htexts]
  rfl

/-- The last label has no upper bound, and the others have one each. -/
theorem nodup_labels (h : r.bounds ≠ []) (hn : (r.bounds.map chars).Nodup) : r.labels.Nodup := by
  obtain ⟨ps, c, hps, htexts⟩ := exists_all_eq h
  have htexts' : (ps.map label).map upperText = r.bounds.map chars := by
    rw [List.map_map, ← htexts]
    rfl
  rw [labels_eq_map, hps, List.map_append, List.map_singleton, ← List.concat_eq_append]
  refine List.Nodup.concat (fun hc => ?_) (List.Nodup.of_map upperText (htexts' ▸ hn))
  have hmem := List.mem_map_of_mem (f := upperText) hc
  rw [htexts', upperText_above] at hmem
  obtain ⟨b, -, hb⟩ := List.mem_map.1 hmem
  exact chars_ne_nil b hb

theorem nodup_chars {bs : List Binary64} (hn : ∀ b ∈ bs, b.isNaN = false)
    (hlt : bs.Pairwise (· < ·)) : (bs.map chars).Nodup := by
  refine List.pairwise_map.2 (hlt.imp_of_mem fun ha hb hab he => ?_)
  cases chars_injective (hn _ ha) (hn _ hb) he
  exact Int.lt_irrefl _ hab.2.2

theorem admits_chars {b : Binary64} (h : zero ≤ b) : Admits b.chars b := by
  rw [Admits, trim_chars, ofChars?_chars (isNaN_of_zero_le h)]
  exact ⟨rfl, h⟩

theorem parse_boundTexts {s : String} (h : parse s = .ok r) :
    parse (String.ofList (Text.join ',' (boundTexts r.labels))) = .ok r := by
  obtain ⟨hadmits, hchain⟩ := parse_eq_ok_iff.1 h
  have hne := ne_nil_of_admits hadmits
  have hcomma : ∀ text ∈ r.bounds.map chars, ',' ∉ text := by
    intro text ht
    obtain ⟨b, -, rfl⟩ := List.mem_map.1 ht
    exact not_mem_chars (by decide) (by decide) b
  rw [parse_eq_ok_iff, String.toList_ofList, boundTexts_labels hne,
    Text.split_join (by simpa using hne) hcomma, List.forall₂_map_left_iff, List.forall₂_same]
  refine ⟨fun b hb => ?_, hchain⟩
  obtain ⟨piece, -, -, hzero⟩ := Aligned.exists_left_of_mem hadmits hb
  exact admits_chars hzero

theorem labels_read_back {s : String} (h : parse s = .ok r) :
    boundTexts r.labels = r.bounds.map chars ∧
    parse (String.ofList (Text.join ',' (boundTexts r.labels))) = .ok r ∧
    (∀ t q, parse t = .ok q → q.labels = r.labels → q = r) ∧ r.labels.Nodup := by
  obtain ⟨hadmits, hchain⟩ := parse_eq_ok_iff.1 h
  have hne := ne_nil_of_admits hadmits
  have hchars := nodup_chars (isNaN_of_admits hadmits) (List.isChain_iff_pairwise.1 hchain)
  refine ⟨boundTexts_labels hne, parse_boundTexts h, fun t q hq hlabels => ?_,
    nodup_labels hne hchars⟩
  have hread := parse_boundTexts hq
  rw [hlabels, parse_boundTexts h] at hread
  exact (Except.ok.inj hread).symm

/-- Minus zero, the least number above zero, the greatest number and infinity. -/
theorem labels_read_back_extremes :
    let r : Ranges := ⟨[-zero, ofBits 1, maxFinite, infinity]⟩
    let s := "-0,5e-324,17976931348623157e292,inf"
    parse s = .ok r ∧ boundTexts r.labels = r.bounds.map chars ∧
      parse (String.ofList (Text.join ',' (boundTexts r.labels))) = .ok r ∧ r.labels.Nodup := by
  intro r s
  have h : parse s = .ok r := by decide +kernel
  obtain ⟨htexts, hread, -, hnodup⟩ := labels_read_back h
  exact ⟨h, htexts, hread, hnodup⟩

end Ranges

end LatencyDigest
