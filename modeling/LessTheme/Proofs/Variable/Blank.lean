import LessTheme.Proofs.Override.Blank
import LessTheme.Proofs.Variable.Reading
import LessTheme.Proofs.Variable.Resolver

/-!
# Chains that meet blank overrides

Catalogs list no blank values, so a chain of references ends in nothing only
if it meets a blank override.  A chain that meets none of them is the same
without them, and a chain that meets one is not.
-/

namespace LessTheme

/-! ## Declared values -/

namespace Catalog

/-- No declared value is blank. -/
def HasNoBlank (catalog : Catalog) : Prop :=
  ∀ entry ∈ catalog.declared.entries, entry.2.value.isBlank = false

theorem isBlank_of_isShown
    {declaration : Declaration}
    (shown : isShown declaration = true) :
    declaration.value.isBlank = false := by
  rw [← Bool.not_eq_true, ← Text.trim_eq_nil_iff]
  intro nothingLeft
  simp [isShown, isPlaceholder, nothingLeft] at shown

theorem hasNoBlank_read
    (unit source : Text) :
    (read unit source).HasNoBlank := by
  intro entry member
  obtain ⟨before, found, after, isLast, -, made⟩ :=
    exists_isLastShown_of_find?_readLines (OrderedMap.get?_of_mem_entries member)
  obtain ⟨line, -, shown⟩ := isLast.exists_line
  rw [made]
  exact isBlank_of_isShown (shown?_eq_some_iff.1 shown).2

theorem HasNoBlank.value?
    {catalog : Catalog}
    (hasNoBlank : catalog.HasNoBlank)
    {name value : Text}
    (isValue : catalog.value? name = some value) :
    value.isBlank = false := by
  obtain ⟨declared, found, rfl⟩ := Option.map_eq_some_iff.1 isValue
  exact hasNoBlank _ (OrderedMap.mem_entries_of_get?_eq_some found)

end Catalog

/-! ## Chains -/

namespace Resolver

/-- The resolver over the overrides that are not blank. -/
def withoutBlanks (resolver : Resolver) : Resolver :=
  ⟨resolver.globals, resolver.overrides.withoutBlanks⟩

variable {resolver : Resolver} {catalog : Catalog} {name value : Text}

/-- Only overrides can be blank among the values that a unit sees. -/
structure DeclaresNoBlank
    (resolver : Resolver)
    (catalog : Catalog) : Prop where
  globals : resolver.globals.HasNoBlank
  own : catalog.HasNoBlank

theorem value?_withoutBlanks
    (unblank : ∀ value, resolver.value? catalog name = some value → value.isBlank = false) :
    resolver.withoutBlanks.value? catalog name = resolver.value? catalog name := by
  have same : resolver.overrides.withoutBlanks.get? catalog.unit name =
      resolver.overrides.get? catalog.unit name := by
    refine OverrideLookup.get?_withoutBlanks_of_forall fun value overridden => unblank value ?_
    rw [value?, overridden]
    rfl
  unfold value?
  change ((resolver.overrides.withoutBlanks.get? catalog.unit name).or _).or _ = _
  rw [same]
  rfl

theorem isBlank_of_value?_withoutBlanks
    (declaresNoBlank : resolver.DeclaresNoBlank catalog)
    (isValue : resolver.withoutBlanks.value? catalog name = some value) :
    value.isBlank = false := by
  unfold value? at isValue
  rw [Option.or_eq_some_iff, Option.or_eq_some_iff] at isValue
  obtain (overridden | ⟨-, declared⟩) | ⟨-, global⟩ := isValue
  · exact (OverrideLookup.exists_of_get?_withoutBlanks_eq_some overridden).1
  · exact declaresNoBlank.own.value? declared
  · exact declaresNoBlank.globals.value? global

theorem stopsAt_of_isBlank
    (blank : value.isBlank = true) :
    resolver.StopsAt catalog value := by
  unfold StopsAt Reference.bareName?
  rw [Text.trim_eq_nil_iff.2 blank]
  rfl

/-- A chain that ends in some value meets no blank override and keeps its end without them. -/
theorem chase_withoutBlanks
    {budget : Nat}
    (unblank : (resolver.chase catalog budget value).isBlank = false) :
    resolver.withoutBlanks.chase catalog budget value = resolver.chase catalog budget value := by
  induction budget generalizing value with
  | zero => rfl
  | succ budget inductionHypothesis =>
      have sameValue : ∀ name, Reference.bareName? value = some name →
          resolver.withoutBlanks.value? catalog name = resolver.value? catalog name := by
        intro name isReference
        refine value?_withoutBlanks fun next found => ?_
        rw [chase_succ isReference found] at unblank
        rw [← Bool.not_eq_true]
        intro blank
        rw [chase_of_stopsAt (stopsAt_of_isBlank blank), blank] at unblank
        contradiction
      cases isReference : Reference.bareName? value with
      | none => rw [chase, chase, isReference]; rfl
      | some name =>
          have same := sameValue name isReference
          cases found : resolver.value? catalog name with
          | none =>
              rw [found] at same
              rw [chase, chase, isReference, Option.bind_some, Option.bind_some, found, same]
          | some next =>
              rw [found] at same
              rw [chase_succ isReference found] at unblank ⊢
              rw [chase_succ isReference same]
              exact inductionHypothesis unblank

/-- Without blank overrides no chain ends in nothing. -/
theorem isBlank_chase_withoutBlanks
    (declaresNoBlank : resolver.DeclaresNoBlank catalog)
    (unblank : value.isBlank = false)
    (budget : Nat) :
    (resolver.withoutBlanks.chase catalog budget value).isBlank = false := by
  induction budget generalizing value with
  | zero => exact unblank
  | succ budget inductionHypothesis =>
      unfold chase
      split
      case h_1 next found =>
        obtain ⟨name, -, isValue⟩ := Option.bind_eq_some_iff.1 found
        exact inductionHypothesis (isBlank_of_value?_withoutBlanks declaresNoBlank isValue)
      case h_2 => exact unblank

/-! ## Resolved values -/

theorem resolve_withoutBlanks_ne_nil
    (declaresNoBlank : resolver.DeclaresNoBlank catalog)
    (name : Text)
    (budget : Nat) :
    resolver.withoutBlanks.resolve catalog name budget ≠ [] := by
  unfold resolve
  split
  case h_1 value isValue =>
    rw [follow, Ne, Text.trim_eq_nil_iff, Bool.not_eq_true]
    exact isBlank_chase_withoutBlanks declaresNoBlank
      (isBlank_of_value?_withoutBlanks declaresNoBlank isValue) budget
  case h_2 => exact List.cons_ne_nil _ _

theorem value?_isBlank_of_resolve_ne_nil
    {budget : Nat}
    (resolved : resolver.resolve catalog name budget ≠ [])
    (isValue : resolver.value? catalog name = some value) :
    value.isBlank = false := by
  rw [← Bool.not_eq_true]
  intro blank
  rw [resolve, isValue] at resolved
  dsimp only at resolved
  rw [follow, chase_of_stopsAt (stopsAt_of_isBlank blank), Text.trim_eq_nil_iff.2 blank]
    at resolved
  contradiction

/-- A name resolves to the same value without blank overrides exactly if that is not nothing. -/
theorem resolve_withoutBlanks_eq_iff
    (declaresNoBlank : resolver.DeclaresNoBlank catalog)
    (name : Text)
    (budget : Nat) :
    resolver.withoutBlanks.resolve catalog name budget = resolver.resolve catalog name budget ↔
      resolver.resolve catalog name budget ≠ [] := by
  constructor
  · intro same
    rw [← same]
    exact resolve_withoutBlanks_ne_nil declaresNoBlank name budget
  · intro resolved
    have same := value?_withoutBlanks fun value isValue =>
      value?_isBlank_of_resolve_ne_nil resolved isValue
    unfold resolve at resolved ⊢
    rw [same]
    cases isValue : resolver.value? catalog name with
    | none => rfl
    | some value =>
        rw [isValue] at resolved
        dsimp only at resolved ⊢
        rw [follow, Ne, Text.trim_eq_nil_iff, Bool.not_eq_true] at resolved
        rw [follow, follow, chase_withoutBlanks resolved]

/-- The variables are listed in the same way exactly if none of them resolves to nothing. -/
theorem resolveCatalog_withoutBlanks_eq_iff
    (declaresNoBlank : resolver.DeclaresNoBlank catalog) :
    resolver.withoutBlanks.resolveCatalog catalog = resolver.resolveCatalog catalog ↔
      ∀ listed ∈ resolver.resolveCatalog catalog, listed.resolved ≠ [] := by
  constructor
  · intro same listed member
    rw [← same] at member
    obtain ⟨declared, -, rfl⟩ := List.mem_map.1 member
    exact resolve_withoutBlanks_ne_nil declaresNoBlank declared.name defaultBudget
  · intro resolved
    refine List.map_congr_left fun declared member => ?_
    have isResolved : resolver.resolve catalog declared.name defaultBudget ≠ [] :=
      resolved _ (List.mem_map_of_mem member)
    have sameOverride : resolver.withoutBlanks.overrides.get? catalog.unit declared.name =
        resolver.overrides.get? catalog.unit declared.name := by
      refine OverrideLookup.get?_withoutBlanks_of_forall fun value overridden => ?_
      apply value?_isBlank_of_resolve_ne_nil isResolved
      rw [value?, overridden]
      rfl
    unfold resolveVariable
    rw [sameOverride, (resolve_withoutBlanks_eq_iff declaresNoBlank _ _).2 isResolved]

end Resolver
end LessTheme
