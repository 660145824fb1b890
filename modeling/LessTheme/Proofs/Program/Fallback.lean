import LessTheme.Program.Fallback
import LessTheme.Proofs.Arithmetic.Written
import LessTheme.Proofs.Collection.SortedMap
import LessTheme.Proofs.Program.OverrideLayer
import LessTheme.Proofs.Reference.Resolution

/-!
# Custom properties and compiled output

The fallback takes overrides as they are stored, while the compiler is given
clean names and drops what could end a statement.  Overrides that the compiler
would keep under their own names are read alike by both, and none of them ends
its custom property.
-/

namespace LessTheme

/-- Every override that is not blank is one that may be written, under its own name. -/
def Overrides.AreWritable (overrides : Overrides) : Prop :=
  ∀ entry ∈ overrides.entries, entry.2.isBlank = false →
    cleanName entry.1 = entry.1 ∧ entry.1 ≠ [] ∧ breaksStatement entry.2.trim = false

instance (overrides : Overrides) : Decidable overrides.AreWritable :=
  inferInstanceAs (Decidable (∀ entry ∈ overrides.entries, entry.2.isBlank = false →
    cleanName entry.1 = entry.1 ∧ entry.1 ≠ [] ∧ breaksStatement entry.2.trim = false))

namespace Overrides.AreWritable

variable {overrides : Overrides}

/-- What may be written of the overrides are those that are not blank, trimmed. -/
theorem assigned_eq (writable : overrides.AreWritable) :
    overrides.assigned =
      (overrides.entries.filter fun entry => !entry.2.isBlank).map fun entry =>
        (entry.1, entry.2.trim) := by
  rw [assigned, ← List.filterMap_eq_map, List.filterMap_filter]
  refine List.filterMap_congr fun entry member => ?_
  rw [Function.comp_apply]
  cases blank : entry.2.isBlank with
  | true => simp [kept?, Text.trim_eq_nil_iff.2 blank]
  | false =>
      obtain ⟨clean, named, unbroken⟩ := writable entry member blank
      have valued : entry.2.trim ≠ [] := by
        rw [Ne, Text.trim_eq_nil_iff, blank]
        exact Bool.false_ne_true
      exact kept?_eq_some_iff.2 ⟨by rw [clean], by rwa [clean], valued, unbroken⟩

/-- The map of what may be written holds just that, in the same order. -/
theorem entries_ofList_assigned (writable : overrides.AreWritable) :
    (SortedMap.ofList overrides.assigned).entries = overrides.assigned := by
  have sorted : overrides.assigned.Pairwise fun left right => left.1 < right.1 := by
    rw [writable.assigned_eq, List.pairwise_map]
    exact overrides.sorted.filter _
  exact congrArg SortedMap.entries (SortedMap.ofList_entries ⟨_, sorted⟩)

theorem merged_eq
    (writable : overrides.AreWritable)
    (defaults : OrderedMap Text) :
    Fallback.merged defaults overrides =
      Fallback.merged defaults (SortedMap.ofList overrides.assigned) := by
  have isKept : ∀ entry ∈ overrides.assigned,
      (!entry.2.isBlank) = true ∧ (entry.1, entry.2.trim) = entry := by
    intro entry member
    obtain ⟨source, -, kept⟩ := List.mem_filterMap.1 member
    obtain ⟨rfl, -, valued, -⟩ := kept?_eq_some_iff.1 kept
    constructor
    · rw [Bool.not_eq_true', ← Bool.not_eq_true, ← Text.trim_eq_nil_iff, Text.trim_trim]
      exact valued
    · rw [Text.trim_trim]
  have unchanged : ((overrides.assigned.filter fun entry => !entry.2.isBlank).map fun entry =>
      (entry.1, entry.2.trim)) = overrides.assigned := by
    rw [List.filter_eq_self.2 fun entry member => (isKept entry member).1,
      List.map_congr_left fun entry member => (isKept entry member).2, List.map_id']
  rw [Fallback.merged, Fallback.merged, writable.entries_ofList_assigned, unchanged,
    writable.assigned_eq]

/-- The merged values hold no mark that could end a statement if the defaults hold none. -/
theorem areMadeOf_merged
    (writable : overrides.AreWritable)
    {defaults : OrderedMap Text}
    (unmarked : Reference.AreMadeOf (fun char => isStatementMark char = false) defaults) :
    Reference.AreMadeOf (fun char => isStatementMark char = false)
      (Fallback.merged defaults overrides) := by
  intro name value found char member
  rw [Fallback.merged, ← writable.assigned_eq, OrderedMap.get?_insertAll] at found
  cases last : lastValue? overrides.assigned name with
  | none =>
      rw [last, Option.none_or] at found
      exact unmarked name value found char member
  | some kept =>
      rw [last, Option.some_or] at found
      obtain rfl := Option.some.inj found
      obtain ⟨source, -, isKept⟩ := List.mem_filterMap.1 (mem_of_lastValue?_eq_some last)
      obtain ⟨same, -, -, unbroken⟩ := kept?_eq_some_iff.1 isKept
      rw [(Prod.mk.inj same).2, breaksStatement, List.any_eq_false] at unbroken
      exact Bool.eq_false_iff.2 (unbroken char member)

end Overrides.AreWritable

theorem isStatementMark_of_isResultChar
    {char : Char}
    (isResult : isResultChar char = true) :
    isStatementMark char = false := by
  rw [← Bool.not_eq_true]
  intro isMark
  simp only [isStatementMark, Bool.or_eq_true, beq_iff_eq] at isMark
  obtain (rfl | rfl) | rfl := isMark <;> contradiction

namespace Fallback

/-- A property is made of the characters of the resolved value and of numbers and units. -/
theorem mem_or_isResultChar_of_propertyValue?_eq_some
    {resolved value : Text}
    (isProperty : propertyValue? resolved = some value) :
    ∀ char ∈ value, char ∈ resolved ∨ isResultChar char = true := by
  intro char member
  unfold propertyValue? at isProperty
  dsimp only at isProperty
  split at isProperty
  · contradiction
  · obtain rfl := Option.some.inj isProperty
    exact Arithmetic.mem_or_isResultChar_of_mem_evaluate (Text.trim_subset _ member)

/--
If every override that is not blank could be written into a stylesheet under
its own name, then the properties under the overrides are those under the
variables that a compiler is given.  If no default holds a mark that ends a
statement, then no property does.
-/
theorem values_eq_values_assigned
    {overrides : Overrides}
    (writable : overrides.AreWritable)
    (fallback : Fallback)
    (defaults : OrderedMap Text) :
    fallback.values defaults overrides =
        fallback.values defaults (SortedMap.ofList overrides.assigned) ∧
      ((∀ default ∈ defaults.entries, breaksStatement default.2 = false) →
        ∀ property ∈ fallback.values defaults overrides,
          breaksStatement property.2 = false) := by
  constructor
  · rw [values, values, writable.merged_eq]
  · intro unbroken property member
    have unmarked : Reference.AreMadeOf (fun char => isStatementMark char = false) defaults := by
      intro name value found char inside
      have noMark := unbroken (name, value) (OrderedMap.mem_entries_of_get?_eq_some found)
      rw [breaksStatement, List.any_eq_false] at noMark
      exact Bool.eq_false_iff.2 (noMark char inside)
    have resolved := (writable.areMadeOf_merged unmarked).resolveAll rfl rfl fallback.passes
    obtain ⟨name, -, isProperty⟩ := List.mem_filterMap.1 member
    obtain ⟨value, isValue, rfl⟩ := Option.map_eq_some_iff.1 isProperty
    obtain ⟨source, isSource, isValue⟩ := Option.bind_eq_some_iff.1 isValue
    rw [breaksStatement, List.any_eq_false]
    intro char inside
    rw [Bool.not_eq_true]
    obtain fromSource | computed :=
      mem_or_isResultChar_of_propertyValue?_eq_some isValue char inside
    · exact resolved name source isSource char fromSource
    · exact isStatementMark_of_isResultChar computed

/-- A reference, a blank override and a value that stands in white space. -/
theorem values_eq_values_assigned_sample :
    let fallback : Fallback := ⟨["a", "b", "c"], 10⟩
    let defaults : OrderedMap Text := .ofList [("a", "1px"), ("b", "@a")]
    let overrides : Overrides := .ofList [("a", " @c "), ("b", " "), ("c", "red ")]
    let properties : List (Text × Text) := [("a", "red"), ("b", "red"), ("c", "red")]
    overrides.AreWritable ∧
      (∀ default ∈ defaults.entries, breaksStatement default.2 = false) ∧
      fallback.values defaults overrides = properties ∧
      fallback.values defaults (SortedMap.ofList overrides.assigned) = properties ∧
      ∀ property ∈ fallback.values defaults overrides, breaksStatement property.2 = false := by
  intro fallback defaults overrides properties
  have writable : overrides.AreWritable := by decide
  have unbroken : ∀ default ∈ defaults.entries, breaksStatement default.2 = false := by decide
  obtain ⟨same, unmarked⟩ := values_eq_values_assigned writable fallback defaults
  have isValues : fallback.values defaults overrides = properties := by decide +kernel
  exact ⟨writable, unbroken, isValues, same.symm.trans isValues, unmarked unbroken⟩

/-- An override that ends its statement reaches the custom properties, but not the compiler. -/
theorem values_ne_values_assigned_sample :
    let fallback : Fallback := ⟨["a"], 10⟩
    let defaults : OrderedMap Text := .ofList [("a", "1px")]
    let overrides : Overrides := .ofList [("a", "1px; \x7d body \x7b x: y")]
    let ended : List (Text × Text) := [("a", "1px; \x7d body \x7b x: y")]
    let kept : List (Text × Text) := [("a", "1px")]
    fallback.values defaults overrides = ended ∧
      fallback.values defaults (SortedMap.ofList overrides.assigned) = kept := by
  decide +kernel

end Fallback
end LessTheme
