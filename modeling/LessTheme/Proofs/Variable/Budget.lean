import LessTheme.Proofs.Variable.Agreement

/-!
# How many links are enough

A chain of references that has stopped within a budget does not change with a
greater one, and a chain that does not stop within as many links as there are
known names runs into a cycle.  A name that is not known has no chain.  It
comes back as a reference, and this reads as a reference to a known name if the
name is a known one with white space behind it.
-/

namespace LessTheme

open Reference

/-- A reference may have white space behind it. -/
theorem Reference.bareName?_at_cons_eq_some_iff
    {name target : Text} :
    bareName? ('@' :: name) = some target ↔
      target ≠ [] ∧ (∀ char ∈ target, isNameChar char = true) ∧
        ∃ blanks : Text, name = target ++ blanks ∧ ∀ char ∈ blanks, isWhiteSpace char = true := by
  have dark : isWhiteSpace '@' = false := by decide
  rw [bareName?_eq_some_iff]
  constructor
  · rintro ⟨trimmed, nonempty, clean⟩
    obtain ⟨blanks, split, blank⟩ := Text.exists_trimStart_eq_trim_append ('@' :: name)
    rw [Text.trimStart_eq_self (by simpa using dark), trimmed, List.cons_append,
      List.cons_inj_right] at split
    exact ⟨nonempty, clean, blanks, split, blank⟩
  · rintro ⟨nonempty, clean, blanks, rfl, blank⟩
    refine ⟨?_, nonempty, clean⟩
    have allDark : ∀ char ∈ '@' :: target, isWhiteSpace char = false := by
      rw [List.forall_mem_cons]
      refine ⟨dark, fun char member => Bool.eq_false_iff.2 fun isBlank => ?_⟩
      have named := clean char member
      rw [isNameChar_of_isWhiteSpace isBlank] at named
      contradiction
    rw [← List.cons_append, Text.trim_append_spaces blank]
    exact (Text.hasDarkEnds_of_forall (List.cons_ne_nil _ _) allDark).trim_eq

/-! ## Known names -/

namespace OverrideLookup

/-- The names that units override. -/
def names (lookup : OverrideLookup) : List Text :=
  lookup.units.entries.flatMap fun entry => entry.2.keys

/-- Every unit sees a value of every name that some unit overrides. -/
theorem isSome_get?_iff
    {lookup : OverrideLookup}
    {unit name : Text} :
    (lookup.get? unit name).isSome = true ↔ name ∈ lookup.names := by
  rw [get?_eq_own?_or_foreign?, Option.isSome_or, Bool.or_eq_true, names, List.mem_flatMap]
  constructor
  · rintro (isOwn | isForeign)
    · obtain ⟨value, isValue⟩ := Option.isSome_iff_exists.1 isOwn
      obtain ⟨overrides, isUnit, found⟩ := Option.bind_eq_some_iff.1 isValue
      exact ⟨(unit, overrides), SortedMap.mem_entries_iff.2 isUnit,
        SortedMap.mem_keys_iff.2 (Option.isSome_of_eq_some found)⟩
    · obtain ⟨overrides, isOther, found⟩ := List.findSome?_isSome_iff.1 isForeign
      obtain ⟨entry, member, rfl⟩ := List.mem_map.1 isOther
      exact ⟨entry, (List.mem_filter.1 member).1, SortedMap.mem_keys_iff.2 found⟩
  · rintro ⟨entry, member, isKey⟩
    rw [SortedMap.mem_keys_iff] at isKey
    by_cases isOwn : entry.1 = unit
    · left
      rw [own?, ← isOwn, SortedMap.mem_entries_iff.1 member]
      exact isKey
    · right
      have isOther : entry ∈ (lookup.units.erase unit).entries :=
        List.mem_filter.2 ⟨member, bne_iff_ne.2 isOwn⟩
      exact List.findSome?_isSome_iff.2 ⟨entry.2, List.mem_map_of_mem isOther, isKey⟩

end OverrideLookup

theorem Catalog.isSome_value?_iff
    {catalog : Catalog}
    {name : Text} :
    (catalog.value? name).isSome = true ↔ name ∈ catalog.declared.keys := by
  rw [value?, Option.isSome_map, OrderedMap.mem_keys_iff]
  rfl

namespace Resolver

variable {resolver : Resolver} {catalog : Catalog} {name value : Text} {budget : Nat}

/-- The names with a value, as the unit of a catalog sees them, each once. -/
def knownNames
    (resolver : Resolver)
    (catalog : Catalog) : List Text :=
  (resolver.overrides.names ++ catalog.declared.keys ++ resolver.globals.declared.keys).eraseDups

theorem mem_knownNames_iff :
    name ∈ resolver.knownNames catalog ↔ (resolver.value? catalog name).isSome = true := by
  rw [knownNames, List.mem_eraseDups, List.mem_append, List.mem_append, value?, Option.isSome_or,
    Option.isSome_or, Bool.or_eq_true, Bool.or_eq_true, OverrideLookup.isSome_get?_iff,
    Catalog.isSome_value?_iff, Catalog.isSome_value?_iff]

/-! ## Budgets -/

theorem resolve_of_value?_eq_some
    (isValue : resolver.value? catalog name = some value)
    (budget : Nat) :
    resolver.resolve catalog name budget = (resolver.chase catalog budget value).trim := by
  rw [resolve, isValue]
  rfl

theorem resolve_of_value?_eq_none
    (unknown : resolver.value? catalog name = none)
    (budget : Nat) :
    resolver.resolve catalog name budget = '@' :: name := by
  rw [resolve, unknown]

theorem stopsAt_resolve_iff
    (isValue : resolver.value? catalog name = some value) :
    resolver.StopsAt catalog (resolver.resolve catalog name budget) ↔
      next? (resolver.value? catalog) ((hop (resolver.value? catalog))^[budget] value) = none := by
  rw [resolve_of_value?_eq_some isValue, stopsAt_trim, chase_eq_iterate_hop]
  rfl

/-- What has been resolved within a budget resolves to the same within a greater one. -/
theorem resolve_eq_of_le
    {greater : Nat}
    (stops : resolver.StopsAt catalog (resolver.resolve catalog name budget))
    (within : budget ≤ greater) :
    resolver.resolve catalog name greater = resolver.resolve catalog name budget := by
  cases found : resolver.value? catalog name with
  | none => rw [resolve_of_value?_eq_none found, resolve_of_value?_eq_none found]
  | some value =>
      rw [resolve_of_value?_eq_some found, stopsAt_trim] at stops
      rw [resolve_of_value?_eq_some found, resolve_of_value?_eq_some found,
        chase_eq_of_le stops within]

/-- With one link less than there are known names, only cycles do not stop. -/
theorem not_stopsAt_resolve_iff_runsIntoCycle
    (isValue : resolver.value? catalog name = some value)
    (enough : (resolver.knownNames catalog).length ≤ budget + 1) :
    ¬resolver.StopsAt catalog (resolver.resolve catalog name budget) ↔
      RunsIntoCycle (resolver.value? catalog) name := by
  rw [stopsAt_resolve_iff isValue]
  constructor
  · intro goesOn
    obtain ⟨rest, length, chain⟩ := exists_isChain_of_next?_ne_none isValue goesOn
    exact .of_isChain chain (Option.isSome_of_eq_some isValue)
      (fun _ isKnown => mem_knownNames_iff.2 isKnown) (by rwa [length])
  · exact fun runs => runs.next?_iterate_hop_ne_none isValue budget

/-- A name that is not known, but is a known name with white space behind it. -/
def IsKnownUpToBlanks
    (resolver : Resolver)
    (catalog : Catalog)
    (name : Text) : Prop :=
  resolver.value? catalog name = none ∧
    ∃ known blanks : Text, name = known ++ blanks ∧ (∀ char ∈ blanks, isWhiteSpace char = true) ∧
      known ≠ [] ∧ (∀ char ∈ known, isNameChar char = true) ∧
      (resolver.value? catalog known).isSome = true

theorem not_stopsAt_resolve_iff_isKnownUpToBlanks
    (unknown : resolver.value? catalog name = none) :
    ¬resolver.StopsAt catalog (resolver.resolve catalog name budget) ↔
      resolver.IsKnownUpToBlanks catalog name := by
  rw [resolve_of_value?_eq_none unknown, StopsAt, ← ne_eq, Option.ne_none_iff_exists']
  simp only [Option.bind_eq_some_iff, bareName?_at_cons_eq_some_iff]
  constructor
  · rintro ⟨value, known, ⟨nonempty, clean, blanks, split, blank⟩, isValue⟩
    exact ⟨unknown, known, blanks, split, blank, nonempty, clean, Option.isSome_of_eq_some isValue⟩
  · rintro ⟨-, known, blanks, split, blank, nonempty, clean, isKnown⟩
    obtain ⟨value, isValue⟩ := Option.isSome_iff_exists.1 isKnown
    exact ⟨value, known, ⟨nonempty, clean, blanks, split, blank⟩, isValue⟩

/--
What has been resolved to something else than a reference to a known name stays
with every greater budget.  If the budget falls short of the number of known
names by one at most, a reference to a known name is left exactly if the chain
runs into a cycle, or if there is no chain and the name itself reads as a known
one.
-/
theorem resolve_within_budget
    (resolver : Resolver)
    (catalog : Catalog)
    (name : Text)
    (budget : Nat) :
    (resolver.StopsAt catalog (resolver.resolve catalog name budget) →
      ∀ greater, budget ≤ greater →
        resolver.resolve catalog name greater = resolver.resolve catalog name budget) ∧
    ((resolver.knownNames catalog).length ≤ budget + 1 →
      (¬resolver.StopsAt catalog (resolver.resolve catalog name budget) ↔
        RunsIntoCycle (resolver.value? catalog) name ∨
          resolver.IsKnownUpToBlanks catalog name)) := by
  refine ⟨fun stops _ => resolve_eq_of_le stops, fun enough => ?_⟩
  cases found : resolver.value? catalog name with
  | none =>
      have noChain : ¬RunsIntoCycle (resolver.value? catalog) name := fun runs => runs.ne_none found
      rw [not_stopsAt_resolve_iff_isKnownUpToBlanks found, or_iff_right noChain]
  | some value =>
      have known : ¬resolver.IsKnownUpToBlanks catalog name := by
        rintro ⟨unknown, -⟩
        rw [found] at unknown
        contradiction
      rw [not_stopsAt_resolve_iff_runsIntoCycle found enough, or_iff_left known]

/-- A chain of three names through another unit's override, and a name on a cycle. -/
theorem resolve_within_budget_sample :
    let catalog := Catalog.read "card" "@a: @b;\n@d: @d;\n"
    let resolver : Resolver := ⟨Catalog.read "global" "@b: @c;\n@c: 1px;\n",
      OverrideLookup.empty.insert "button" (.ofList [("c", "2px")])⟩
    (resolver.knownNames catalog).length = 4 ∧
      resolver.StopsAt catalog (resolver.resolve catalog "a" 3) ∧
      resolver.resolve catalog "a" 3 = "2px" ∧
      resolver.resolve catalog "a" 10 = resolver.resolve catalog "a" 3 ∧
      ¬RunsIntoCycle (resolver.value? catalog) "a" ∧
      ¬resolver.StopsAt catalog (resolver.resolve catalog "d" 3) ∧
      RunsIntoCycle (resolver.value? catalog) "d" := by
  intro catalog resolver
  have enough : (resolver.knownNames catalog).length = 4 := by decide
  have stops : resolver.StopsAt catalog (resolver.resolve catalog "a" 3) := by decide
  have goesOn : ¬resolver.StopsAt catalog (resolver.resolve catalog "d" 3) := by decide
  have chain := resolve_within_budget resolver catalog "a" 3
  have cycle := resolve_within_budget resolver catalog "d" 3
  refine ⟨enough, stops, ?_, chain.1 stops 10 (by decide), ?_, goesOn, ?_⟩
  · decide
  · exact fun runs => (chain.2 enough.le).2 (Or.inl runs) stops
  · refine ((cycle.2 enough.le).1 goesOn).resolve_right fun notKnown => ?_
    exact absurd notKnown.1 (by decide)

/-- A space behind a known name makes an unknown one that comes back as a reference to it. -/
theorem resolve_isKnownUpToBlanks_sample :
    let catalog := Catalog.empty "card"
    let resolver : Resolver := ⟨Catalog.read "global" "@x: 1px;\n", .empty⟩
    (resolver.knownNames catalog).length ≤ 10 ∧
      resolver.resolve catalog "x " 10 = "@x " ∧
      ¬(¬resolver.StopsAt catalog (resolver.resolve catalog "x " 10) ↔
        RunsIntoCycle (resolver.value? catalog) "x ") := by
  intro catalog resolver
  have unknown : resolver.value? catalog "x " = none := by decide
  have goesOn : ¬resolver.StopsAt catalog (resolver.resolve catalog "x " 10) := by decide
  refine ⟨?_, ?_, fun isCycle => (isCycle.1 goesOn).ne_none unknown⟩
  · decide
  · decide

end Resolver
end LessTheme
