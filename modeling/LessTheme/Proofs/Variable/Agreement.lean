import LessTheme.Proofs.Reference.Resolution
import LessTheme.Proofs.Variable.Reading
import LessTheme.Proofs.Variable.Resolver

/-!
# The agreement of the two ways to resolve

A unit is shown with each variable followed hop by hop, and defaults are
resolved as a map, pass by pass.  Where every declared value is one reference
or holds no reference at all, both ways lead to the end of a chain, or stop at
a reference into the cycle that the chain runs into.
-/

namespace LessTheme

open Reference

namespace Catalog

/-- The declared values by name. -/
def rawValues (catalog : Catalog) : OrderedMap Text :=
  catalog.declared.mapValues fun _ declared => declared.value

@[simp] theorem get?_rawValues (catalog : Catalog) :
    catalog.rawValues.get? = catalog.value? := by
  funext name
  exact OrderedMap.get?_mapValues _ _ _

/-- The values of a catalog that is read are simple if each is a reference or holds none. -/
theorem areShortAndSimple_rawValues
    {unit source : Text}
    (plain : ∀ name value, (read unit source).value? name = some value →
      ((bareName? value).isSome = true ∨ '@' ∉ value) ∧ value.byteLength ≤ longestValue) :
    AreShortAndSimple (read unit source).rawValues := by
  intro name value isValue
  rw [get?_rawValues] at isValue
  obtain ⟨isPlain, isShort⟩ := plain name value isValue
  exact ⟨⟨trim_of_value?_read_eq_some isValue, isPlain⟩, isShort⟩

end Catalog

namespace Resolver

variable {resolver : Resolver} {catalog : Catalog} {globalUnit name value text : Text}
  {hops budget limit : Nat}

/-- The resolver without overrides and without global defaults. -/
def withoutOthers (globalUnit : Text) : Resolver := ⟨Catalog.empty globalUnit, .empty⟩

theorem value?_withoutOthers
    (globalUnit : Text)
    (catalog : Catalog) :
    (withoutOthers globalUnit).value? catalog = catalog.value? := by
  funext name
  change (Option.or (Option.or none (catalog.value? name)) none) = _
  rw [Option.none_or, Option.or_none]

theorem chase_eq_iterate_hop
    (budget : Nat)
    (value : Text) :
    resolver.chase catalog budget value = (hop (resolver.value? catalog))^[budget] value := by
  induction budget generalizing value with
  | zero => rfl
  | succ budget inductionHypothesis =>
      rw [Function.iterate_succ_apply, ← inductionHypothesis]
      cases found : next? (resolver.value? catalog) value with
      | none =>
          rw [hop_of_next?_eq_none found, chase_of_stopsAt found, chase_of_stopsAt found]
      | some next =>
          obtain ⟨name, isReference, isValue⟩ := Option.bind_eq_some_iff.1 found
          rw [hop_of_next?_eq_some found, chase_succ isReference isValue]

theorem resolve_withoutOthers
    (isValue : catalog.value? name = some value) :
    (withoutOthers globalUnit).resolve catalog name budget =
      ((hop catalog.value?)^[budget] value).trim := by
  rw [resolve, value?_withoutOthers, isValue]
  change ((withoutOthers globalUnit).chase catalog budget value).trim = _
  rw [chase_eq_iterate_hop, value?_withoutOthers]

/--
Following references hop by hop and resolving the map of all values pass by
pass agree, where every value is one reference or holds no at sign, and is not
too long.  If the chain of a name reaches a value that leads nowhere, both give
this value.  If it reaches a reference to a name on a cycle, both give
references to names on this cycle.
-/
theorem resolve_agrees_with_resolveAll
    {unit source : Text}
    (plain : ∀ other value, (Catalog.read unit source).value? other = some value →
      ((bareName? value).isSome = true ∨ '@' ∉ value) ∧ value.byteLength ≤ longestValue)
    (reaches : ((Catalog.read unit source).value? name).bind
      (afterHops? (Catalog.read unit source).value? hops) = some text)
    (withinBudget : hops ≤ budget)
    (withinLimit : hops < 2 ^ limit) :
    let catalog := Catalog.read unit source
    let followed := (withoutOthers globalUnit).resolve catalog name budget
    let resolved? := (resolveAll catalog.rawValues limit).get? name
    (next? catalog.value? text = none → followed = text ∧ resolved? = some text) ∧
      ∀ next, bareName? text = some next → OnOneCycle catalog.value? next next →
        ∃ left right, followed = '@' :: left ∧ resolved? = some ('@' :: right) ∧
          OnOneCycle catalog.value? next left ∧ OnOneCycle catalog.value? next right := by
  intro catalog followed resolved?
  obtain ⟨value, isValue, reaches⟩ := Option.bind_eq_some_iff.1 reaches
  have simple := Catalog.areShortAndSimple_rawValues plain
  have isFollowed : followed = ((hop catalog.value?)^[budget] value).trim :=
    resolve_withoutOthers isValue
  rw [← catalog.get?_rawValues] at isValue reaches isFollowed ⊢
  have stillSimple := iterate_hop_of_forall simple (simple name value isValue) budget
  rw [isFollowed, stillSimple.1.trimmed]
  constructor
  · intro stops
    exact ⟨iterate_hop_eq_of_le reaches stops withinBudget,
      simple.get?_resolveAll_of_next?_eq_none isValue reaches stops withinLimit⟩
  · intro next isReference onCycle
    obtain ⟨left, isLeft, toLeft⟩ :=
      onCycle.exists_iterate_hop_of_le reaches isReference withinBudget
    obtain ⟨right, isRight, toRight⟩ :=
      simple.get?_resolveAll_of_onOneCycle onCycle isValue reaches isReference withinLimit
    exact ⟨left, right, stillSimple.1.eq_of_bareName?_eq_some isLeft, isRight, toLeft, toRight⟩

/--
A chain of two hops ends after two passes.  Into a cycle, a hop leads one step
beyond the name that passes stop at.
-/
theorem resolve_agrees_with_resolveAll_sample :
    let source := "@a: @b;\n@b: @c;\n@c: 1px;\n@d: @x;\n@x: @y;\n@y: @x;\n"
    let catalog := Catalog.read "card" source
    let resolver := withoutOthers "global"
    (resolver.resolve catalog "a" 2 = "1px" ∧
      (resolveAll catalog.rawValues 2).get? "a" = some "1px") ∧
    (∃ left right, resolver.resolve catalog "d" 1 = '@' :: left ∧
      (resolveAll catalog.rawValues 2).get? "d" = some ('@' :: right) ∧
      OnOneCycle catalog.value? "x" left ∧ OnOneCycle catalog.value? "x" right) ∧
    resolver.resolve catalog "d" 1 = "@y" ∧
    (resolveAll catalog.rawValues 2).get? "d" = some "@x" := by
  intro source catalog resolver
  have plain : ∀ other value, catalog.value? other = some value →
      ((bareName? value).isSome = true ∨ '@' ∉ value) ∧ value.byteLength ≤ longestValue := by
    have all : ∀ entry ∈ catalog.declared.entries,
        ((bareName? entry.2.value).isSome = true ∨ '@' ∉ entry.2.value) ∧
          entry.2.value.byteLength ≤ longestValue := by
      decide
    intro other value isValue
    obtain ⟨declared, found, rfl⟩ := Option.map_eq_some_iff.1 isValue
    exact all _ (OrderedMap.mem_entries_of_get?_eq_some found)
  have cycle : Relation.TransGen (LeadsTo catalog.value?) "x" "x" :=
    .tail (.single (by decide : LeadsTo catalog.value? "x" "y"))
      (by decide : LeadsTo catalog.value? "y" "x")
  have ends := @resolve_agrees_with_resolveAll "global" "a" "1px" 2 2 2 "card" source plain
    (by decide) (by decide) (by decide)
  have turns := @resolve_agrees_with_resolveAll "global" "d" "@x" 0 1 2 "card" source plain
    (by decide) (by decide) (by decide)
  refine ⟨ends.1 (by decide), turns.2 "x" (by decide) ⟨cycle, cycle⟩, ?_, ?_⟩
  · decide
  · decide

end Resolver
end LessTheme
