import LatencyDigest.Log.Kind
import LatencyDigest.Proofs.Delimited.Mark

/-! The names of the columns of each kind: each is read as itself, and no derived column is read as
one of them. -/

namespace LatencyDigest.LogKind

open Delimited (markChar dropMarkChar)

theorem columns_nodup (k : LogKind) : k.columns.Nodup := by
  cases k <;> decide

theorem exists_mem_columns (k : LogKind) : ∃ c, c ∈ k.columns := by
  cases k <;> exact ⟨_, List.mem_cons_self⟩

theorem head_of_mem_columns {k : LogKind} {c : String} (h : c ∈ k.columns) :
    c ≠ "" ∧ c.toList.head? ≠ some markChar := by
  revert c
  cases k <;> decide

theorem trim_of_mem_columns {k : LogKind} {c : String} (h : c ∈ k.columns) :
    Text.trim c.toList = c.toList := by
  revert c
  cases k <;> decide +kernel

theorem foreign_of_mem_conversions {k : LogKind} {n : String}
    (h : n ∈ k.conversions.map Prod.snd) :
    n ∉ k.columns ∧ String.ofList (Text.trim (dropMarkChar n.toList)) ∉ k.columns := by
  revert n
  cases k <;> decide +kernel

end LatencyDigest.LogKind
