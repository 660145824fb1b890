import LessTheme.Proofs.Override.Submission
import LessTheme.Proofs.Variable.Reading
import LessTheme.Proofs.Variable.Resolver

/-!
# Exports that are applied again

An export gives every variable of a unit its resolved value.  Applying it to
the unit without overrides stores the values that saving accepts.  A variable
whose value is stored resolves to it again; a variable whose value is not
stored resolves to what it is without an override of its own.
-/

namespace LessTheme

namespace Resolver

variable {resolver : Resolver} {catalog : Catalog}

/-! ## Exported values -/

/-- The resolved values of a catalog, by name. -/
def exported
    (resolver : Resolver)
    (catalog : Catalog) : Overrides :=
  .ofList ((resolver.resolveCatalog catalog).map fun found =>
    (found.declared.name, found.resolved))

theorem get?_exported
    (isNamed : catalog.IsNamed)
    (resolver : Resolver)
    (name : Text) :
    (resolver.exported catalog).get? name =
      (catalog.find? name).map fun _ => resolver.resolve catalog name defaultBudget := by
  have values : ((resolver.resolveCatalog catalog).map fun found =>
      (found.declared.name, found.resolved)) =
      catalog.declared.entries.map fun entry =>
        (entry.1, resolver.resolve catalog entry.1 defaultBudget) := by
    unfold resolveCatalog OrderedMap.values
    rw [List.map_map, List.map_map]
    apply List.map_congr_left
    intro entry member
    have named := isNamed.named entry member
    simp [resolveVariable, named]
  rw [exported, SortedMap.get?_ofList, values,
    lastValue?_map_key fun name => resolver.resolve catalog name defaultBudget,
    lastValue?_eq_lookup catalog.declared.nodup]
  rfl

/-- The value of a variable without an override of the unit itself. -/
def below?
    (resolver : Resolver)
    (catalog : Catalog)
    (name : Text) : Option Text :=
  value? ⟨resolver.globals, resolver.overrides.withoutOwn catalog.unit⟩ catalog name

theorem value?_eq_own?_or_below?
    (resolver : Resolver)
    (catalog : Catalog)
    (name : Text) :
    resolver.value? catalog name =
      (resolver.overrides.own? catalog.unit name).or (resolver.below? catalog name) := by
  unfold below? value?
  rw [OverrideLookup.get?_withoutOwn, OverrideLookup.get?_eq_own?_or_foreign?, Option.or_assoc,
    Option.or_assoc, Option.or_assoc]

theorem isSome_below?
    {name : Text}
    (declared : (catalog.find? name).isSome = true) :
    (resolver.below? catalog name).isSome = true := by
  obtain ⟨found, isFound⟩ := Option.isSome_iff_exists.1 declared
  unfold below? value? Catalog.value?
  simp [isFound]

theorem trim_resolve
    {name : Text}
    (declared : (catalog.find? name).isSome = true) :
    (resolver.resolve catalog name defaultBudget).trim =
      resolver.resolve catalog name defaultBudget := by
  have known : (resolver.below? catalog name).isSome = true := isSome_below? declared
  unfold resolve
  rw [value?_eq_own?_or_below?]
  obtain ⟨value, isValue⟩ := Option.isSome_iff_exists.1 known
  cases resolver.overrides.own? catalog.unit name with
  | none =>
      rw [isValue]
      exact Text.trim_trim _
  | some own => exact Text.trim_trim _

/-! ## Applied values -/

/-- The resolver after the unit has got the given overrides instead of its own. -/
def withOwn
    (resolver : Resolver)
    (unit : Text)
    (own : Overrides) : Resolver :=
  ⟨resolver.globals, resolver.overrides.insert unit own⟩

theorem value?_withOwn
    (resolver : Resolver)
    (catalog : Catalog)
    (own : Overrides)
    (name : Text) :
    (resolver.withOwn catalog.unit own).value? catalog name =
      (own.get? name).or (resolver.below? catalog name) := by
  rw [value?_eq_own?_or_below?]
  unfold withOwn below? value?
  dsimp only
  rw [OverrideLookup.own?_insert, OverrideLookup.get?_withoutOwn, OverrideLookup.get?_withoutOwn,
    OverrideLookup.foreign?_insert]

/-- What the unit holds when its export is applied to it without overrides. -/
def reapplied
    (resolver : Resolver)
    (catalog : Catalog) : Overrides :=
  Overrides.submit catalog .empty (resolver.exported catalog)

theorem get?_reapplied
    (isNamed : catalog.IsNamed)
    (resolver : Resolver)
    (name : Text) :
    (resolver.reapplied catalog).get? name =
      ((catalog.find? name).map fun _ => resolver.resolve catalog name defaultBudget).filter
        (Overrides.isStorable catalog name) := by
  have entryFound : ∀ entry ∈ (resolver.exported catalog).entries, ∃ found,
      catalog.find? entry.1 = some found ∧
        resolver.resolve catalog entry.1 defaultBudget = entry.2 := by
    intro entry member
    have found := SortedMap.get?_of_mem_entries member
    rw [get?_exported isNamed] at found
    exact Option.map_eq_some_iff.1 found
  unfold reapplied
  rw [Overrides.get?_submit_empty, get?_exported isNamed]
  · intro entry member
    obtain ⟨found, declared, -⟩ := entryFound entry member
    rw [declared]
    rfl
  · intro entry member
    obtain ⟨found, declared, -⟩ := entryFound entry member
    exact List.filter_eq_self.2 (Catalog.cleanName_of_find?_eq_some isNamed declared).2
  · intro entry member
    obtain ⟨found, declared, resolved⟩ := entryFound entry member
    rw [← resolved]
    apply trim_resolve
    rw [declared]
    rfl

/-! ## Values that come back -/

/-- The unit overrides declared variables only. -/
def OwnsDeclared
    (resolver : Resolver)
    (catalog : Catalog) : Prop :=
  ∀ name, (resolver.overrides.own? catalog.unit name).isSome = true →
    (catalog.find? name).isSome = true

/--
Every variable that the unit overrides, and whose chain of references stops,
has a resolved value that can be stored or that it has without the override.
-/
def Restores
    (resolver : Resolver)
    (catalog : Catalog) : Prop :=
  ∀ name, (resolver.overrides.own? catalog.unit name).isSome = true →
    resolver.StopsAt catalog (resolver.resolve catalog name defaultBudget) →
    Overrides.isStorable catalog name (resolver.resolve catalog name defaultBudget) = true ∨
      (resolver.below? catalog name).map Text.trim =
        some (resolver.resolve catalog name defaultBudget)

theorem reapplied_get?_of_isStorable
    (isNamed : catalog.IsNamed)
    {name : Text}
    (declared : (catalog.find? name).isSome = true) :
    (resolver.reapplied catalog).get? name =
      if Overrides.isStorable catalog name (resolver.resolve catalog name defaultBudget) then
        some (resolver.resolve catalog name defaultBudget)
      else none := by
  obtain ⟨found, isFound⟩ := Option.isSome_iff_exists.1 declared
  rw [get?_reapplied isNamed, isFound, Option.map_some, Option.filter_some]

theorem reapplied_get?_of_undeclared
    (isNamed : catalog.IsNamed)
    {name : Text}
    (undeclared : ¬(catalog.find? name).isSome = true) :
    (resolver.reapplied catalog).get? name = none := by
  rw [get?_reapplied isNamed, Option.not_isSome_iff_eq_none.1 undeclared]
  rfl

theorem knowsSame_reapplied
    (isNamed : catalog.IsNamed)
    (ownsDeclared : resolver.OwnsDeclared catalog) :
    KnowsSame resolver (resolver.withOwn catalog.unit (resolver.reapplied catalog)) catalog := by
  intro name
  rw [value?_withOwn, value?_eq_own?_or_below?, Option.isSome_or, Option.isSome_or]
  by_cases declared : (catalog.find? name).isSome = true
  · rw [isSome_below? declared, Bool.or_true, Bool.or_true]
  · have unowned : (resolver.overrides.own? catalog.unit name).isSome = false :=
      Bool.eq_false_iff.2 fun owned => declared (ownsDeclared name owned)
    rw [reapplied_get?_of_undeclared isNamed declared, unowned]
    rfl

theorem keepsEnds_reapplied
    (isNamed : catalog.IsNamed)
    (ownsDeclared : resolver.OwnsDeclared catalog)
    (restores : resolver.Restores catalog) :
    KeepsEnds resolver (resolver.withOwn catalog.unit (resolver.reapplied catalog)) catalog := by
  intro name value isValue stops
  have resolved : resolver.resolve catalog name defaultBudget =
      (resolver.chase catalog defaultBudget value).trim := by
    unfold resolve
    rw [isValue]
    rfl
  rw [value?_withOwn]
  by_cases declared : (catalog.find? name).isSome = true
  · rw [reapplied_get?_of_isStorable isNamed declared]
    by_cases storable :
        Overrides.isStorable catalog name (resolver.resolve catalog name defaultBudget) = true
    · right
      rw [if_pos storable, resolved]
      exact ⟨_, rfl, Text.trim_trim _⟩
    · rw [if_neg storable, Option.none_or]
      rw [value?_eq_own?_or_below?] at isValue
      by_cases owned : (resolver.overrides.own? catalog.unit name).isSome = true
      · right
        have stopsResolved : resolver.StopsAt catalog
            (resolver.resolve catalog name defaultBudget) := by
          rw [resolved]
          exact stopsAt_trim.2 stops
        obtain stored | back := restores name owned stopsResolved
        · contradiction
        · obtain ⟨below, isBelow, trimmed⟩ := Option.map_eq_some_iff.1 back
          exact ⟨below, isBelow, trimmed.trans resolved⟩
      · left
        rwa [Option.not_isSome_iff_eq_none.1 owned, Option.none_or] at isValue
  · left
    have unowned := Option.not_isSome_iff_eq_none.1 fun owned => declared (ownsDeclared name owned)
    rwa [reapplied_get?_of_undeclared isNamed declared, Option.none_or,
      ← Option.none_or (o := resolver.below? catalog name), ← unowned,
      ← value?_eq_own?_or_below?]

/-- A variable whose export is dropped resolves to what it is without the override. -/
theorem resolve_reapplied_of_dropped
    (isNamed : catalog.IsNamed)
    (ownsDeclared : resolver.OwnsDeclared catalog)
    {name below : Text}
    (declared : (catalog.find? name).isSome = true)
    (dropped :
      Overrides.isStorable catalog name (resolver.resolve catalog name defaultBudget) = false)
    (isBelow : resolver.below? catalog name = some below)
    (stops : resolver.StopsAt catalog below) :
    (resolver.withOwn catalog.unit (resolver.reapplied catalog)).resolve catalog name
      defaultBudget = below.trim := by
  have knowsSame := knowsSame_reapplied isNamed ownsDeclared
  have isValue : (resolver.withOwn catalog.unit (resolver.reapplied catalog)).value? catalog
      name = some below := by
    rw [value?_withOwn, reapplied_get?_of_isStorable isNamed declared, dropped]
    exact isBelow
  unfold resolve
  rw [isValue]
  change (chase _ _ _ _).trim = _
  rw [chase_of_stopsAt ((knowsSame.stopsAt_iff below).2 stops)]

/-- How an export and the export after it has been applied again compare. -/
structure ComesBack
    (resolver : Resolver)
    (catalog : Catalog)
    (first again : Overrides) : Prop where
  /-- Both exports list the same variables. -/
  sameNames : ∀ name, (again.get? name).isSome = (first.get? name).isSome
  /-- A value at which references stop comes back, if the overrides are restored. -/
  restored : resolver.Restores catalog →
    ∀ name value, first.get? name = some value → resolver.StopsAt catalog value →
      again.get? name = some value
  /-- The exports are equal if references stop at every value. -/
  equal : resolver.Restores catalog →
    (∀ name value, first.get? name = some value → resolver.StopsAt catalog value) →
      again = first
  /-- Equal exports restore every override of a variable that is else no reference. -/
  restores : again = first →
    ∀ name value below, (resolver.overrides.own? catalog.unit name).isSome = true →
      first.get? name = some value → Overrides.isStorable catalog name value = false →
      resolver.below? catalog name = some below → resolver.StopsAt catalog below →
      below.trim = value

theorem get?_exported_eq_some_iff
    (isNamed : catalog.IsNamed)
    {name value : Text} :
    (resolver.exported catalog).get? name = some value ↔
      (catalog.find? name).isSome = true ∧
        resolver.resolve catalog name defaultBudget = value := by
  rw [get?_exported isNamed, Option.map_eq_some_iff, Option.isSome_iff_exists]
  constructor
  · rintro ⟨found, isFound, same⟩
    exact ⟨⟨found, isFound⟩, same⟩
  · rintro ⟨⟨found, isFound⟩, same⟩
    exact ⟨found, isFound, same⟩

theorem comesBack_exported
    (isNamed : catalog.IsNamed)
    {after : Resolver}
    (kept : resolver.Restores catalog → ∀ name,
      resolver.StopsAt catalog (resolver.resolve catalog name defaultBudget) →
      after.resolve catalog name defaultBudget = resolver.resolve catalog name defaultBudget)
    (dropped : ∀ name below, (resolver.overrides.own? catalog.unit name).isSome = true →
      (catalog.find? name).isSome = true →
      Overrides.isStorable catalog name (resolver.resolve catalog name defaultBudget) = false →
      resolver.below? catalog name = some below → resolver.StopsAt catalog below →
      after.resolve catalog name defaultBudget = below.trim) :
    ComesBack resolver catalog (resolver.exported catalog) (after.exported catalog) := by
  have restored : resolver.Restores catalog → ∀ name value,
      (resolver.exported catalog).get? name = some value → resolver.StopsAt catalog value →
      (after.exported catalog).get? name = some value := by
    intro restores name value isValue stops
    obtain ⟨declared, rfl⟩ := (get?_exported_eq_some_iff isNamed).1 isValue
    exact (get?_exported_eq_some_iff isNamed).2 ⟨declared, kept restores name stops⟩
  have sameNames : ∀ name, ((after.exported catalog).get? name).isSome =
      ((resolver.exported catalog).get? name).isSome := by
    intro name
    rw [get?_exported isNamed, get?_exported isNamed, Option.isSome_map, Option.isSome_map]
  refine ⟨sameNames, restored, ?_, ?_⟩
  · intro restores stops
    apply SortedMap.eq_of_get?
    intro name
    cases isValue : (resolver.exported catalog).get? name with
    | some value => exact restored restores name value isValue (stops name value isValue)
    | none =>
        have absent := sameNames name
        rw [isValue] at absent
        exact Option.not_isSome_iff_eq_none.1 (by simp [absent])
  · intro equal name value below owned isValue unstorable isBelow stops
    obtain ⟨declared, rfl⟩ := (get?_exported_eq_some_iff isNamed).1 isValue
    rw [← equal] at isValue
    have resolved := ((get?_exported_eq_some_iff isNamed).1 isValue).2
    rw [← dropped name below owned declared unstorable isBelow stops, resolved]

/-- The export comes back when it has been applied to the unit. -/
theorem comesBack_reapplied
    (isNamed : catalog.IsNamed)
    (ownsDeclared : resolver.OwnsDeclared catalog) :
    ComesBack resolver catalog (resolver.exported catalog)
      ((resolver.withOwn catalog.unit (resolver.reapplied catalog)).exported catalog) := by
  apply comesBack_exported isNamed
  · intro restores name stops
    exact resolve_of_keepsEnds (knowsSame_reapplied isNamed ownsDeclared)
      (keepsEnds_reapplied isNamed ownsDeclared restores) stops
  · intro name below _ declared unstorable isBelow stops
    exact resolve_reapplied_of_dropped isNamed ownsDeclared declared unstorable isBelow stops

/-- The export of a unit whose overrides are not seen stays what it is. -/
theorem comesBack_self
    (isNamed : catalog.IsNamed)
    (unowned : ∀ name, ¬(resolver.overrides.own? catalog.unit name).isSome = true) :
    ComesBack resolver catalog (resolver.exported catalog) (resolver.exported catalog) := by
  apply comesBack_exported isNamed
  · intro _ name _
    rfl
  · intro name below owned
    exact absurd owned (unowned name)

end Resolver
end LessTheme
