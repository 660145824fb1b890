import Mathlib.Data.List.Induction
import LessTheme.Override.Lookup
import LessTheme.Proofs.Collection.SortedMap
import LessTheme.Proofs.Text.Utf8

/-!
# Overrides with and without those of a unit

What a unit sees is made of its own overrides and of those of all other units.
Setting the overrides of a unit replaces the former and keeps the latter.
-/

namespace LessTheme

theorem Overrides.get?_overlay
    (overrides top : Overrides)
    (name : Text) :
    (overrides.overlay top).get? name = (top.get? name).or (overrides.get? name) := by
  rw [overlay, SortedMap.get?_insertAll, SortedMap.lastValue?_entries]

namespace OverrideLookup

/-- The overriding value that a unit itself gives a variable. -/
def own?
    (lookup : OverrideLookup)
    (unit name : Text) : Option Text :=
  (lookup.units.get? unit).bind fun own => own.get? name

/-- The overriding value that the first of all other units gives a variable. -/
def foreign?
    (lookup : OverrideLookup)
    (unit name : Text) : Option Text :=
  (lookup.others unit).findSome? fun overrides => overrides.get? name

theorem get?_eq_own?_or_foreign?
    (lookup : OverrideLookup)
    (unit name : Text) :
    lookup.get? unit name = (lookup.own? unit name).or (lookup.foreign? unit name) := rfl

theorem get?_visibleFrom
    (lookup : OverrideLookup)
    (unit name : Text) :
    (lookup.visibleFrom unit).get? name = lookup.get? unit name := by
  have overlaid : ∀ overrides : List Overrides,
      (overrides.foldr (fun own below => Overrides.overlay below own) .empty).get? name =
        overrides.findSome? fun own => own.get? name := by
    intro overrides
    induction overrides with
    | nil => rfl
    | cons own rest inductionHypothesis =>
        rw [List.foldr_cons, Overrides.get?_overlay, inductionHypothesis, List.findSome?_cons]
        cases own.get? name <;> rfl
  unfold visibleFrom
  rw [Overrides.get?_overlay, overlaid, get?_eq_own?_or_foreign?, own?, foreign?]
  cases lookup.units.get? unit <;> rfl

theorem units_insert
    (lookup : OverrideLookup)
    (unit other : Text)
    (overrides : Overrides) :
    (lookup.insert unit overrides).units.get? other =
      if other = unit then if overrides.isEmpty then none else some overrides
      else lookup.units.get? other := by
  unfold insert
  split
  · exact SortedMap.get?_erase lookup.units unit other
  · rw [SortedMap.get?_insert]
    by_cases same : other = unit
    · rw [if_pos same.symm, if_pos same]
    · rw [if_neg fun equal => same equal.symm, if_neg same]

theorem own?_insert
    (lookup : OverrideLookup)
    (unit : Text)
    (overrides : Overrides)
    (name : Text) :
    (lookup.insert unit overrides).own? unit name = overrides.get? name := by
  rw [own?, units_insert, if_pos rfl]
  split
  case isTrue isEmpty => rw [SortedMap.get?_eq_none_of_isEmpty isEmpty]; rfl
  case isFalse => rfl

theorem foreign?_insert
    (lookup : OverrideLookup)
    (unit : Text)
    (overrides : Overrides)
    (name : Text) :
    (lookup.insert unit overrides).foreign? unit name = lookup.foreign? unit name := by
  have same : (lookup.insert unit overrides).units.erase unit = lookup.units.erase unit := by
    apply SortedMap.eq_of_get?
    intro other
    rw [SortedMap.get?_erase, SortedMap.get?_erase, units_insert]
    split <;> rfl
  unfold foreign? others
  rw [same]

/-- The overrides of all other units. -/
def withoutOwn
    (lookup : OverrideLookup)
    (unit : Text) : OverrideLookup :=
  lookup.insert unit .empty

theorem get?_withoutOwn
    (lookup : OverrideLookup)
    (unit name : Text) :
    (lookup.withoutOwn unit).get? unit name = lookup.foreign? unit name := by
  rw [get?_eq_own?_or_foreign?, withoutOwn, own?_insert, foreign?_insert]
  rfl

end OverrideLookup

/-! ## Lookups over a table -/

namespace OverrideTable

/-- The overrides of a unit in a table. -/
def overridesOf
    (table : OverrideTable)
    (unit : Text) : Overrides :=
  (table.get? unit).getD .empty

/-- The table in which a unit has the given overrides; a unit without overrides is left out. -/
def replace
    (table : OverrideTable)
    (unit : Text)
    (overrides : Overrides) : OverrideTable :=
  ((⟨table⟩ : OverrideLookup).insert unit overrides).units

/-- Nothing is taken out of a table that does not hold the unit. -/
theorem replace_eq_self
    {table : OverrideTable}
    {unit : Text}
    {overrides : Overrides}
    (isNothing : (overrides.isEmpty && !table.contains unit) = true) :
    table.replace unit overrides = table := by
  rw [Bool.and_eq_true, Bool.not_eq_true'] at isNothing
  rw [replace, OverrideLookup.insert, if_pos isNothing.1]
  exact SortedMap.erase_of_contains_eq_false (by simp [isNothing.2])

theorem overridesOf_replace
    (table : OverrideTable)
    (unit other : Text)
    (overrides : Overrides) :
    (table.replace unit overrides).overridesOf other =
      if other = unit then overrides else table.overridesOf other := by
  unfold overridesOf replace
  rw [OverrideLookup.units_insert]
  split
  · split
    case isTrue isEmpty =>
      apply SortedMap.eq_of_get?
      intro name
      exact (SortedMap.get?_eq_none_of_isEmpty isEmpty name).symm
    case isFalse => rfl
  · rfl

theorem overridesOf_erase
    (table : OverrideTable)
    (unit other : Text) :
    overridesOf (table.erase unit) other =
      if other = unit then .empty else table.overridesOf other := by
  unfold overridesOf
  rw [SortedMap.get?_erase]
  split <;> rfl

/-- The lookup in the overrides of some units. -/
def lookup
    (table : OverrideTable)
    (units : List Text) : OverrideLookup :=
  units.foldl (fun lookup unit => lookup.insert unit (table.overridesOf unit)) .empty

theorem units_foldl_insert
    (table : OverrideTable)
    (units : List Text)
    (start : OverrideLookup)
    (other : Text) :
    (units.foldl (fun lookup unit => lookup.insert unit (table.overridesOf unit))
        start).units.get? other =
      if other ∈ units then
        if (table.overridesOf other).isEmpty then none else some (table.overridesOf other)
      else start.units.get? other := by
  induction units generalizing start with
  | nil => simp
  | cons unit rest inductionHypothesis =>
      rw [List.foldl_cons, inductionHypothesis, OverrideLookup.units_insert]
      by_cases here : other = unit
      · subst here
        simp
      · simp [here]

theorem units_lookup
    (table : OverrideTable)
    (units : List Text)
    (other : Text) :
    (table.lookup units).units.get? other =
      if other ∈ units then
        if (table.overridesOf other).isEmpty then none else some (table.overridesOf other)
      else none :=
  units_foldl_insert table units .empty other

/-- Replacing the overrides of a unit that is looked up inserts them into the lookup. -/
theorem lookup_eq_insert
    {table changed : OverrideTable}
    {units : List Text}
    {unit : Text}
    (member : unit ∈ units)
    (others : ∀ other, other ≠ unit → changed.overridesOf other = table.overridesOf other) :
    changed.lookup units = (table.lookup units).insert unit (changed.overridesOf unit) := by
  have same : (changed.lookup units).units =
      ((table.lookup units).insert unit (changed.overridesOf unit)).units := by
    apply SortedMap.eq_of_get?
    intro other
    rw [units_lookup, OverrideLookup.units_insert, units_lookup]
    by_cases here : other = unit
    · rw [if_pos here, here, if_pos member]
    · rw [if_neg here, others other here]
  exact congrArg OverrideLookup.mk same

/-- Overrides of a unit that is not looked up do not show. -/
theorem lookup_eq_self
    {table changed : OverrideTable}
    {units : List Text}
    {unit : Text}
    (absent : unit ∉ units)
    (others : ∀ other, other ≠ unit → changed.overridesOf other = table.overridesOf other) :
    changed.lookup units = table.lookup units := by
  have same : (changed.lookup units).units = (table.lookup units).units := by
    apply SortedMap.eq_of_get?
    intro other
    rw [units_lookup, units_lookup]
    by_cases here : other = unit
    · rw [here, if_neg absent, if_neg absent]
    · rw [others other here]
  exact congrArg OverrideLookup.mk same

theorem own?_lookup
    {table : OverrideTable}
    {units : List Text}
    {unit name : Text}
    (owned : ((table.lookup units).own? unit name).isSome = true) :
    unit ∈ units ∧ ((table.overridesOf unit).get? name).isSome = true := by
  unfold OverrideLookup.own? at owned
  rw [units_lookup] at owned
  split at owned
  case isTrue member =>
    split at owned
    · contradiction
    · exact ⟨member, owned⟩
  case isFalse => contradiction

end OverrideTable

/-!
## Overrides inserted one after the other

Overrides are inserted unit by unit, and the overrides inserted last for a unit
are those that it has.  A unit sees its own value of a variable, or else that of
the first unit that has one.  The search for one variable and the map of all
that a unit sees agree on this.
-/

namespace OverrideLookup

/-- What a unit sees is its own value, or else that of the first unit with one. -/
theorem get?_eq_some_iff
    {lookup : OverrideLookup}
    {unit name value : Text} :
    lookup.get? unit name = some value ↔
      lookup.own? unit name = some value ∨
        lookup.own? unit name = none ∧
          ∃ other, lookup.own? other name = some value ∧
            ∀ before, before < other → lookup.own? before name = none := by
  rw [get?_eq_own?_or_foreign?, Option.or_eq_some_iff]
  refine or_congr_right (and_congr_right fun notOwn => ?_)
  have others : ∀ other, ((lookup.units.erase unit).get? other).bind (SortedMap.get? · name) =
      lookup.own? other name := by
    intro other
    rw [SortedMap.get?_erase]
    split
    case isTrue same => rw [same, notOwn]; rfl
    case isFalse => rfl
  unfold foreign? OverrideLookup.others
  rw [SortedMap.findSome?_values_eq_some_iff]
  simp only [others]

/-! ## Insertions -/

/-- The lookup after overrides of units have been inserted one after the other. -/
def inserted (insertions : List (Text × Overrides)) : OverrideLookup :=
  insertions.foldl (fun lookup insertion => lookup.insert insertion.1 insertion.2) .empty

theorem inserted_append_singleton
    (insertions : List (Text × Overrides))
    (last : Text × Overrides) :
    inserted (insertions ++ [last]) = (inserted insertions).insert last.1 last.2 :=
  List.foldl_append

/-- A unit has the overrides that were inserted last for it, unless these are none. -/
theorem units_inserted
    (insertions : List (Text × Overrides))
    (unit : Text) :
    (inserted insertions).units.get? unit =
      (lastValue? insertions unit).filter (!·.isEmpty) := by
  induction insertions using List.reverseRecOn with
  | nil => rfl
  | append_singleton front last inductionHypothesis =>
      rw [inserted_append_singleton, units_insert, inductionHypothesis, lastValue?_append,
        lastValue?_singleton]
      by_cases here : unit = last.1
      · rw [if_pos here, if_pos here.symm, Option.some_or, Option.filter_some]
        cases last.2.isEmpty <;> rfl
      · rw [if_neg here, if_neg fun same => here same.symm, Option.none_or]

/-- The value that the overrides inserted last for a unit give a variable. -/
def lastGiven?
    (insertions : List (Text × Overrides))
    (unit name : Text) : Option Text :=
  (lastValue? insertions unit).bind fun overrides => overrides.get? name

theorem own?_inserted
    (insertions : List (Text × Overrides))
    (unit name : Text) :
    (inserted insertions).own? unit name = lastGiven? insertions unit name := by
  rw [own?, units_inserted, lastGiven?]
  cases lastValue? insertions unit with
  | none => rfl
  | some overrides =>
      rw [Option.filter_some]
      split
      case isTrue => rfl
      case isFalse isEmpty =>
        rw [Bool.not_eq_true', Bool.not_eq_false] at isEmpty
        exact (SortedMap.get?_eq_none_of_isEmpty isEmpty name).symm

/--
What a unit sees of a variable, given the overrides that were inserted last for
each unit: its own value, or else that of the first unit in the order of bytes.
-/
inductive Sees
    (insertions : List (Text × Overrides))
    (unit name value : Text) : Prop
  | own
      (given : lastGiven? insertions unit name = some value)
  | foreign
      (other : Text)
      (notOwn : lastGiven? insertions unit name = none)
      (given : lastGiven? insertions other name = some value)
      (isFirst : ∀ before, Utf8.encode before < Utf8.encode other →
        lastGiven? insertions before name = none)

/--
After any insertions the search for a variable and the map of all that a unit
sees give the same: what the overrides inserted last for each unit make it see.
-/
theorem get?_visibleFrom_inserted
    (insertions : List (Text × Overrides))
    (unit name : Text) :
    ((inserted insertions).visibleFrom unit).get? name = (inserted insertions).get? unit name ∧
      ∀ value, (inserted insertions).get? unit name = some value ↔
        Sees insertions unit name value := by
  refine ⟨get?_visibleFrom _ unit name, fun value => ?_⟩
  simp only [get?_eq_some_iff, own?_inserted, ← Utf8.encode_lt_encode_iff]
  constructor
  · rintro (given | ⟨notOwn, other, given, isFirst⟩)
    · exact .own given
    · exact .foreign other notOwn given isFirst
  · rintro (given | ⟨other, notOwn, given, isFirst⟩)
    · exact Or.inl given
    · exact Or.inr ⟨notOwn, other, given, isFirst⟩

/-- The first unit has lost its overrides, and the last one has got others. -/
example :
    let insertions : List (Text × Overrides) :=
      [("dial", .ofList [("gap", "1px")]), ("button", .ofList [("gap", "2px")]),
        ("button", .empty), ("card", .ofList [("gap", "3px")]),
        ("dial", .ofList [("edge", "4px")])]
    (inserted insertions).get? "form" "gap" = some "3px".toList ∧
      (inserted insertions).get? "dial" "gap" = some "3px".toList ∧
      (inserted insertions).get? "card" "edge" = some "4px".toList := by
  decide

end OverrideLookup
end LessTheme
