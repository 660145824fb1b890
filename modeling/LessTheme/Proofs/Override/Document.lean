import LessTheme.Override.Document
import LessTheme.Proofs.Collection.SortedMap
import LessTheme.Proofs.Json.Object
import LessTheme.Proofs.Text.Utf8

/-!
# Overrides that are written and read

The overrides of all units are read back from the bytes of their document.
-/

namespace LessTheme

open Json

theorem Overrides.writes_print
    (depth : Nat)
    (overrides : Overrides) :
    Writes reader overrides (overrides.print depth) := by
  have writes := writes_object quoted
    (fun entry (_ : entry ∈ overrides.entries) => writes_quoted entry.2) depth
  constructor
  · intro rest
    unfold reader print Reader.map
    rw [writes.reads, Option.map_some, SortedMap.ofList_entries]
  · exact writes.begins

namespace OverrideTable

theorem writes_print (table : OverrideTable) : Writes reader table table.print := by
  have writes := writes_object (Overrides.print 1)
    (fun entry (_ : entry ∈ table.entries) => entry.2.writes_print 1) 0
  constructor
  · intro rest
    unfold reader print Reader.map
    rw [writes.reads, Option.map_some, SortedMap.ofList_entries]
  · exact writes.begins

theorem isBlank_print (table : OverrideTable) : table.print.isBlank = false := by
  unfold print object bracketed
  split <;> rfl

/-- The overrides of all units are read back from their document. -/
theorem read?_print (table : OverrideTable) : read? table.print = some table := by
  unfold read?
  rw [table.isBlank_print, if_neg Bool.false_ne_true]
  exact table.writes_print.whole?_eq

end OverrideTable
end LessTheme
