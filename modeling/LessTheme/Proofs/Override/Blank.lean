import LessTheme.Override.Layer
import LessTheme.Proofs.Override.Lookup
import LessTheme.Proofs.Text.Trim

/-!
# Blank overrides

A table may hold overrides that are blank.  Leaving them out of the table
changes what a unit sees of a name only if it sees a blank override there.
-/

namespace LessTheme

namespace Overrides

/-- The overrides that are not blank. -/
def withoutBlanks (overrides : Overrides) : Overrides :=
  overrides.filter fun _ value => !value.isBlank

theorem get?_withoutBlanks
    (overrides : Overrides)
    (name : Text) :
    overrides.withoutBlanks.get? name = (overrides.get? name).filter (!·.isBlank) :=
  SortedMap.get?_filter _ overrides name

/-- Blank overrides are never written. -/
theorem assigned_withoutBlanks (overrides : Overrides) :
    overrides.withoutBlanks.assigned = overrides.assigned := by
  change (overrides.entries.filter _).filterMap _ = overrides.entries.filterMap _
  rw [List.filterMap_filter]
  refine List.filterMap_congr fun entry _ => ?_
  cases blank : entry.2.isBlank with
  | false => simp [blank]
  | true => simp [kept?, Text.trim_eq_nil_iff.2 blank]

end Overrides

namespace OverrideTable

/-- The overrides of all units that are not blank; units without any are left out. -/
def withoutBlanks (table : OverrideTable) : OverrideTable :=
  SortedMap.filter (fun _ overrides => !overrides.isEmpty)
    ⟨table.entries.map fun entry => (entry.1, entry.2.withoutBlanks),
      List.pairwise_map.2 table.sorted⟩

theorem get?_withoutBlanks
    (table : OverrideTable)
    (unit : Text) :
    table.withoutBlanks.get? unit =
      ((table.get? unit).map Overrides.withoutBlanks).filter (!·.isEmpty) := by
  rw [withoutBlanks, SortedMap.get?_filter]
  exact congrArg _ (OrderedMap.lookup_map_value (fun _ => Overrides.withoutBlanks) _ _)

theorem overridesOf_withoutBlanks
    (table : OverrideTable)
    (unit : Text) :
    table.withoutBlanks.overridesOf unit = (table.overridesOf unit).withoutBlanks := by
  unfold overridesOf
  rw [get?_withoutBlanks]
  cases table.get? unit with
  | none => rfl
  | some overrides =>
      rw [Option.map_some, Option.getD_some, Option.filter_some]
      split
      · rfl
      case isFalse isEmpty =>
        apply SortedMap.eq_of_get?
        intro name
        rw [Bool.not_eq_true', Bool.not_eq_false] at isEmpty
        exact (SortedMap.get?_eq_none_of_isEmpty isEmpty name).symm

end OverrideTable

namespace OverrideLookup

/-- The lookup in the overrides that are not blank. -/
def withoutBlanks (lookup : OverrideLookup) : OverrideLookup := ⟨lookup.units.withoutBlanks⟩

theorem lookup_withoutBlanks
    (table : OverrideTable)
    (units : List Text) :
    table.withoutBlanks.lookup units = (table.lookup units).withoutBlanks := by
  have same : (table.withoutBlanks.lookup units).units =
      (table.lookup units).units.withoutBlanks := by
    apply SortedMap.eq_of_get?
    intro unit
    rw [OverrideTable.units_lookup, OverrideTable.get?_withoutBlanks, OverrideTable.units_lookup,
      OverrideTable.overridesOf_withoutBlanks]
    split
    case isTrue =>
      cases isEmpty : (table.overridesOf unit).isEmpty with
      | true =>
          have nothingLeft : (table.overridesOf unit).withoutBlanks.isEmpty = true := by
            rw [SortedMap.isEmpty, List.isEmpty_iff] at isEmpty ⊢
            change (table.overridesOf unit).entries.filter _ = []
            rw [isEmpty]
            rfl
          rw [if_pos nothingLeft, if_pos rfl]
          rfl
      | false =>
          rw [if_neg Bool.false_ne_true, Option.map_some, Option.filter_some]
          cases (table.overridesOf unit).withoutBlanks.isEmpty <;> rfl
    case isFalse => rfl
  exact congrArg OverrideLookup.mk same

theorem others_withoutBlanks
    (lookup : OverrideLookup)
    (unit : Text) :
    lookup.withoutBlanks.others unit =
      ((lookup.others unit).map Overrides.withoutBlanks).filter (!·.isEmpty) := by
  have same : lookup.units.withoutBlanks.erase unit =
      OverrideTable.withoutBlanks (lookup.units.erase unit) := by
    apply SortedMap.eq_of_get?
    intro other
    rw [SortedMap.get?_erase, OverrideTable.get?_withoutBlanks, OverrideTable.get?_withoutBlanks,
      SortedMap.get?_erase]
    split <;> rfl
  unfold others
  change (lookup.units.withoutBlanks.erase unit).entries.map Prod.snd = _
  rw [same]
  change ((List.map _ (lookup.units.erase unit).entries).filter _).map Prod.snd = _
  simp only [List.filter_map, List.map_map]
  rfl

theorem own?_withoutBlanks
    (lookup : OverrideLookup)
    (unit name : Text) :
    lookup.withoutBlanks.own? unit name = (lookup.own? unit name).filter (!·.isBlank) := by
  unfold own?
  change (lookup.units.withoutBlanks.get? unit).bind _ = _
  rw [OverrideTable.get?_withoutBlanks]
  cases lookup.units.get? unit with
  | none => rfl
  | some overrides =>
      rw [Option.map_some, Option.filter_some, Option.bind_some, ← Overrides.get?_withoutBlanks]
      split
      · rfl
      case isFalse isEmpty =>
        rw [Bool.not_eq_true', Bool.not_eq_false] at isEmpty
        exact (SortedMap.get?_eq_none_of_isEmpty isEmpty name).symm

theorem foreign?_withoutBlanks
    (lookup : OverrideLookup)
    (unit name : Text) :
    lookup.withoutBlanks.foreign? unit name =
      (lookup.others unit).findSome? fun overrides =>
        (overrides.get? name).filter (!·.isBlank) := by
  unfold foreign?
  rw [others_withoutBlanks]
  induction lookup.others unit with
  | nil => rfl
  | cons overrides rest inductionHypothesis =>
      rw [List.map_cons, List.findSome?_cons, ← inductionHypothesis,
        ← Overrides.get?_withoutBlanks, List.filter_cons]
      split
      · rfl
      case isFalse isEmpty =>
        rw [Bool.not_eq_true', Bool.not_eq_false] at isEmpty
        rw [SortedMap.get?_eq_none_of_isEmpty isEmpty name]

/-- The first override is still the first one if it is not blank. -/
theorem findSome?_filter_not_isBlank
    {overrides : List Overrides}
    {name : Text}
    (unblank : ∀ value, (overrides.findSome? fun own => own.get? name) = some value →
      value.isBlank = false) :
    (overrides.findSome? fun own => (own.get? name).filter (!·.isBlank)) =
      overrides.findSome? fun own => own.get? name := by
  induction overrides with
  | nil => rfl
  | cons own rest inductionHypothesis =>
      rw [List.findSome?_cons] at unblank ⊢
      rw [List.findSome?_cons]
      cases found : own.get? name with
      | none =>
          rw [found] at unblank
          exact inductionHypothesis unblank
      | some value =>
          rw [found] at unblank
          have kept : value.isBlank = false := unblank value rfl
          rw [Option.filter_some, kept]
          rfl

/-- What a unit sees of a name stays, unless it sees a blank override. -/
theorem get?_withoutBlanks_of_forall
    {lookup : OverrideLookup}
    {unit name : Text}
    (unblank : ∀ value, lookup.get? unit name = some value → value.isBlank = false) :
    lookup.withoutBlanks.get? unit name = lookup.get? unit name := by
  rw [get?_eq_own?_or_foreign?] at unblank
  rw [get?_eq_own?_or_foreign?, get?_eq_own?_or_foreign?, own?_withoutBlanks]
  cases own : lookup.own? unit name with
  | none =>
      rw [own, Option.none_or] at unblank
      rw [Option.filter_none, Option.none_or, Option.none_or, foreign?_withoutBlanks]
      exact findSome?_filter_not_isBlank unblank
  | some value =>
      rw [own, Option.some_or] at unblank
      simp [unblank value rfl]

/-- What a unit sees without blank overrides is an override of some unit that is not blank. -/
theorem exists_of_get?_withoutBlanks_eq_some
    {lookup : OverrideLookup}
    {unit name value : Text}
    (seen : lookup.withoutBlanks.get? unit name = some value) :
    value.isBlank = false ∧
      ∃ other overrides, lookup.units.get? other = some overrides ∧
        overrides.get? name = some value := by
  rw [get?_eq_own?_or_foreign?, own?_withoutBlanks, foreign?_withoutBlanks,
    Option.or_eq_some_iff] at seen
  obtain own | ⟨-, foreign⟩ := seen
  · obtain ⟨found, unblank⟩ := Option.filter_eq_some_iff.1 own
    obtain ⟨overrides, stored, isValue⟩ := Option.bind_eq_some_iff.1 found
    exact ⟨by simpa using unblank, unit, overrides, stored, isValue⟩
  · obtain ⟨overrides, member, found⟩ := List.exists_of_findSome?_eq_some foreign
    obtain ⟨isValue, unblank⟩ := Option.filter_eq_some_iff.1 found
    obtain ⟨entry, isEntry, rfl⟩ := List.mem_map.1 member
    have stored := SortedMap.mem_entries_iff.1 isEntry
    rw [SortedMap.get?_erase] at stored
    split at stored
    · contradiction
    · exact ⟨by simpa using unblank, entry.1, entry.2, stored, isValue⟩

/-- An override is blank if the unit sees a blank override of its name. -/
def BlanksHideNothing
    (lookup : OverrideLookup)
    (unit : Text) : Prop :=
  ∀ holder ∈ lookup.units.entries, ∀ override ∈ holder.2.entries,
    (lookup.get? unit override.1).any Text.isBlank = true → override.2.isBlank = true

instance (lookup : OverrideLookup) (unit : Text) : Decidable (lookup.BlanksHideNothing unit) :=
  inferInstanceAs (Decidable (∀ holder ∈ lookup.units.entries, ∀ override ∈ holder.2.entries,
    (lookup.get? unit override.1).any Text.isBlank = true → override.2.isBlank = true))

/-! ## All that a unit sees -/

/-- A unit sees the same overrides that are not blank, if blank ones hide none of them. -/
theorem withoutBlanks_visibleFrom
    {lookup : OverrideLookup}
    {unit : Text}
    (hidesNothing : lookup.BlanksHideNothing unit) :
    (lookup.withoutBlanks.visibleFrom unit).withoutBlanks =
      (lookup.visibleFrom unit).withoutBlanks := by
  apply SortedMap.eq_of_get?
  intro name
  rw [Overrides.get?_withoutBlanks, Overrides.get?_withoutBlanks, get?_visibleFrom,
    get?_visibleFrom]
  by_cases unblank : ∀ value, lookup.get? unit name = some value → value.isBlank = false
  · rw [get?_withoutBlanks_of_forall unblank]
  · simp only [not_forall, Bool.not_eq_false] at unblank
    obtain ⟨value, seen, blank⟩ := unblank
    have unseen : lookup.withoutBlanks.get? unit name = none := by
      rw [Option.eq_none_iff_forall_ne_some]
      intro other seenOther
      obtain ⟨kept, holder, overrides, stored, isValue⟩ :=
        exists_of_get?_withoutBlanks_eq_some seenOther
      have hidden := hidesNothing (holder, overrides) (SortedMap.mem_entries_iff.2 stored)
        (name, other) (SortedMap.mem_entries_iff.2 isValue) (by rw [seen]; exact blank)
      rw [hidden] at kept
      contradiction
    rw [unseen, seen, Option.filter_some, blank]
    rfl

end OverrideLookup
end LessTheme
