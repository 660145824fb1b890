import Mathlib.Algebra.Group.Nat.Defs
import LessTheme.Reference.Resolution
import LessTheme.Proofs.Collection.LastValue
import LessTheme.Proofs.Reference.Chain
import LessTheme.Proofs.Reference.Cycle
import LessTheme.Proofs.Reference.Fragment
import LessTheme.Proofs.Text.Pieces

/-!
# Passes over simple values

In a map of values that are one reference each or hold no at sign, a pass
replaces each value by the one that the variable it refers to has before the
pass.  So passes double the number of hops: after `k` passes each value has
gone `2 ^ k - 1` hops along its chain, and does not go beyond a reference to a
cyclic variable.
-/

namespace LessTheme
namespace Reference

variable {values : OrderedMap Text} {value : Text} {fixed : List Text}

/-- A simple value that is not too long for a pass. -/
def IsShortAndSimple (value : Text) : Prop :=
  IsSimple value ∧ value.byteLength ≤ longestValue

/-- All values of a map are simple and not too long. -/
def AreShortAndSimple (values : OrderedMap Text) : Prop :=
  ∀ name value, values.get? name = some value → IsShortAndSimple value

namespace AreShortAndSimple

theorem of_expandable?
    (simple : AreShortAndSimple values)
    (fixed : List Text) :
    ∀ name next, expandable? fixed values.get? name = some next → IsShortAndSimple next := by
  intro name next found
  unfold expandable? at found
  split at found
  · contradiction
  · exact simple name next found

/-- A variable refers to another one where a hop leads from it to the other one. -/
theorem refersTo_iff_leadsTo
    (simple : AreShortAndSimple values)
    {name target : Text} :
    RefersTo values name target ↔ LeadsTo values.get? name target := by
  unfold RefersTo targets LeadsTo OrderedMap.contains
  rw [List.mem_filter]
  refine and_congr_left fun _ => ?_
  cases found : values.get? name with
  | none => simp
  | some value =>
      rw [Option.map_some, Option.getD_some, (simple name value found).1.referencedNames_eq,
        Option.bind_some, Option.mem_toList]

theorem mem_cyclicNames_iff
    (simple : AreShortAndSimple values)
    {name : Text} :
    name ∈ cyclicNames values ↔ OnOneCycle values.get? name name := by
  have sameRelation : RefersTo values = LeadsTo values.get? := by
    funext name target
    exact propext simple.refersTo_iff_leadsTo
  rw [Reference.mem_cyclicNames_iff, sameRelation, OnOneCycle, and_self]

end AreShortAndSimple

/-- A pass over a simple value is a hop. -/
theorem IsShortAndSimple.passValue_eq_hop
    (simple : IsShortAndSimple value)
    (allSimple : AreShortAndSimple values)
    (fixed : List Text) :
    passValue fixed values value = hop (expandable? fixed values.get?) value := by
  have ofNames := allSimple.of_expandable? fixed
  have expanded : substituteWith (expandable? fixed values.get?) value =
      hop (expandable? fixed values.get?) value := by
    cases isReference : bareName? value with
    | none =>
        rw [hop_of_next?_eq_none (by rw [next?, isReference, Option.bind_none])]
        exact substituteWith_of_not_mem (simple.1.not_mem_of_bareName?_eq_none isReference)
    | some name =>
        rw [simple.1.substituteWith_of_bareName?_eq_some isReference, hop, next?, isReference,
          Option.bind_some]
        cases found : expandable? fixed values.get? name with
        | none => rfl
        | some next => exact (ofNames name next found).1.trimmed
  have short : (hop (expandable? fixed values.get?) value).byteLength ≤ longestValue :=
    (iterate_hop_of_forall ofNames simple 1).2
  have unfolded : passValue fixed values value =
      let expanded := substituteWith (expandable? fixed values.get?) value
      if longestValue < expanded.byteLength && value.byteLength < expanded.byteLength then value
      else expanded := rfl
  rw [unfolded, expanded]
  exact if_neg (by simpa using fun tooLong => absurd short (Nat.not_le_of_lt tooLong))

theorem expandable?_mapValues
    (fixed : List Text)
    (update : Text → Text) :
    expandable? fixed (values.mapValues fun _ => update).get? =
      fun name => (expandable? fixed values.get? name).map update := by
  funext name
  unfold expandable?
  rw [OrderedMap.get?_mapValues]
  split <;> rfl

/-- After one more pass the values have gone twice as many hops and one more. -/
theorem AreShortAndSimple.pass_mapValues
    (simple : AreShortAndSimple values)
    (fixed : List Text)
    (count : Nat) :
    pass fixed (values.mapValues fun _ => (hop (expandable? fixed values.get?))^[count]) =
      values.mapValues fun _ => (hop (expandable? fixed values.get?))^[2 * count + 1] := by
  have ofNames := simple.of_expandable? fixed
  generalize isKnown : expandable? fixed values.get? = known at ofNames ⊢
  have currentSimple : AreShortAndSimple (values.mapValues fun _ => (hop known)^[count]) := by
    intro name value found
    rw [OrderedMap.get?_mapValues, Option.map_eq_some_iff] at found
    obtain ⟨raw, isRaw, rfl⟩ := found
    exact iterate_hop_of_forall ofNames (simple name raw isRaw) count
  rw [pass, OrderedMap.mapValues_mapValues]
  refine OrderedMap.mapValues_congr fun entry member => ?_
  have rawSimple := simple entry.1 entry.2 (OrderedMap.get?_of_mem_entries member)
  rw [(iterate_hop_of_forall ofNames rawSimple count).passValue_eq_hop currentSimple,
    expandable?_mapValues, isKnown, show 2 * count + 1 = (count + 1) + count by omega,
    Function.iterate_add_apply]
  generalize (hop known)^[count] entry.2 = value
  rw [hop, next?_map]
  cases found : next? known value with
  | none => rw [iterate_hop_of_next?_eq_none found, Option.map_none, Option.getD_none]
  | some next =>
      rw [Function.iterate_succ_apply, hop_of_next?_eq_some found, Option.map_some,
        Option.getD_some]

/-- Stopping where a pass changes nothing makes no difference. -/
theorem passes_eq_iterate_pass
    (fixed : List Text)
    (limit : Nat)
    (values : OrderedMap Text) :
    passes fixed limit values = (pass fixed)^[limit] values := by
  induction limit generalizing values with
  | zero => rfl
  | succ limit inductionHypothesis =>
      rw [Function.iterate_succ_apply, passes]
      split
      case isTrue unchanged => rw [unchanged, Function.iterate_fixed unchanged]
      case isFalse => exact inductionHypothesis _

/-- After `limit` passes each value has gone `2 ^ limit - 1` hops along its chain. -/
theorem AreShortAndSimple.resolveAll_eq
    (simple : AreShortAndSimple values)
    (limit : Nat) :
    resolveAll values limit = values.mapValues fun _ =>
      (hop (expandable? (cyclicNames values) values.get?))^[2 ^ limit - 1] := by
  rw [resolveAll, passes_eq_iterate_pass]
  induction limit with
  | zero => exact (OrderedMap.mapValues_self values).symm
  | succ limit inductionHypothesis =>
      have positive : 0 < 2 ^ limit := Nat.two_pow_pos limit
      rw [Function.iterate_succ_apply', inductionHypothesis, simple.pass_mapValues,
        show 2 * (2 ^ limit - 1) + 1 = 2 ^ (limit + 1) - 1 by omega]

/-! ## Where passes lead -/

namespace AreShortAndSimple

variable {name text : Text} {hops count limit : Nat}

/-- A chain that ends meets no cyclic variable. -/
theorem iterate_hop_of_next?_eq_none
    (simple : AreShortAndSimple values)
    (reaches : afterHops? values.get? hops value = some text)
    (stops : next? values.get? text = none)
    (within : hops ≤ count) :
    (hop (expandable? (cyclicNames values) values.get?))^[count] value = text := by
  obtain same | ⟨_, -, middle, first, isCyclic, -, refers, rest⟩ :=
    @afterHops?_expandable? _ _ _ _ (cyclicNames values) reaches
  · exact iterate_hop_eq_of_le same (next?_expandable?_of_next?_eq_none stops) within
  · exact absurd stops ((simple.mem_cyclicNames_iff.1 isCyclic).next?_ne_none refers rest)

/-- A chain that runs into a cycle stops at a reference to a variable of the cycle. -/
theorem exists_iterate_hop_of_onOneCycle
    (simple : AreShortAndSimple values)
    {next : Text}
    (onCycle : OnOneCycle values.get? next next)
    (reaches : afterHops? values.get? hops value = some text)
    (isReference : bareName? text = some next)
    (within : hops ≤ count) :
    ∃ target,
      bareName? ((hop (expandable? (cyclicNames values) values.get?))^[count] value) =
        some target ∧
      OnOneCycle values.get? next target := by
  obtain same | ⟨earlier, before, middle, first, isCyclic, toMiddle, refers, rest⟩ :=
    @afterHops?_expandable? _ _ _ _ (cyclicNames values) reaches
  · have stops : next? (expandable? (cyclicNames values) values.get?) text = none := by
      rw [next?, isReference, Option.bind_some,
        expandable?_of_mem (simple.mem_cyclicNames_iff.2 onCycle)]
    refine ⟨next, ?_, onCycle⟩
    rw [iterate_hop_eq_of_le same stops within, isReference]
  · have stops : next? (expandable? (cyclicNames values) values.get?) middle = none := by
      rw [next?, refers, Option.bind_some, expandable?_of_mem isCyclic]
    obtain ⟨target, isTarget, toTarget⟩ :=
      (simple.mem_cyclicNames_iff.1 isCyclic).exists_iterate_hop refers (hops - earlier)
    rw [iterate_hop_of_afterHops?_eq_some rest, isReference] at isTarget
    obtain rfl := Option.some.inj isTarget
    refine ⟨first, ?_, toTarget.symm⟩
    rw [iterate_hop_eq_of_le toMiddle stops (Nat.le_trans before within), refers]

/-- Passes resolve a variable to the end of its chain. -/
theorem get?_resolveAll_of_next?_eq_none
    (simple : AreShortAndSimple values)
    (isValue : values.get? name = some value)
    (reaches : afterHops? values.get? hops value = some text)
    (stops : next? values.get? text = none)
    (within : hops < 2 ^ limit) :
    (resolveAll values limit).get? name = some text := by
  rw [simple.resolveAll_eq, OrderedMap.get?_mapValues, isValue, Option.map_some,
    simple.iterate_hop_of_next?_eq_none reaches stops (Nat.le_sub_one_of_lt within)]

/-- Passes resolve a variable to a reference into the cycle that its chain runs into. -/
theorem get?_resolveAll_of_onOneCycle
    (simple : AreShortAndSimple values)
    {next : Text}
    (onCycle : OnOneCycle values.get? next next)
    (isValue : values.get? name = some value)
    (reaches : afterHops? values.get? hops value = some text)
    (isReference : bareName? text = some next)
    (within : hops < 2 ^ limit) :
    ∃ target, (resolveAll values limit).get? name = some ('@' :: target) ∧
      OnOneCycle values.get? next target := by
  obtain ⟨target, isTarget, toTarget⟩ := simple.exists_iterate_hop_of_onOneCycle onCycle reaches
    isReference (Nat.le_sub_one_of_lt within)
  refine ⟨target, ?_, toTarget⟩
  have stillSimple := iterate_hop_of_forall (simple.of_expandable? (cyclicNames values))
    (simple name value isValue) (2 ^ limit - 1)
  rw [simple.resolveAll_eq, OrderedMap.get?_mapValues, isValue, Option.map_some,
    stillSimple.1.eq_of_bareName?_eq_some isTarget]

end AreShortAndSimple
end Reference

/-!
## The characters of substituted values

Substitution writes nothing of its own but parentheses.  So whatever
characters the values of a map are made of, their resolved values are made of
the same characters and parentheses.
-/

namespace Reference

variable {values : OrderedMap Text} {value : Text} {value? : Text → Option Text} {char : Char}

theorem mem_of_mem_embedded (member : char ∈ embedded value) :
    char ∈ value ∨ char = '(' ∨ char = ')' := by
  unfold embedded at member
  split at member
  · rw [List.mem_cons, List.mem_append, List.mem_singleton] at member
    obtain opening | inside | closing := member
    · exact Or.inr (Or.inl opening)
    · exact Or.inl (Text.trim_subset _ inside)
    · exact Or.inr (Or.inr closing)
  · exact Or.inl (Text.trim_subset _ member)

/-- A character of a substituted value is one of the value, of a value put in, or a parenthesis. -/
theorem mem_substituteWith (member : char ∈ substituteWith value? value) :
    char ∈ value ∨ (∃ name found, value? name = some found ∧ char ∈ found) ∨
      char = '(' ∨ char = ')' := by
  obtain ⟨fragment, isFragment, written⟩ := List.mem_flatMap.1 member
  unfold Fragment.substitute at written
  split at written
  case h_1 found isFound =>
    obtain ⟨name, -, valued⟩ := Option.bind_eq_some_iff.1 isFound
    refine Or.inr ?_
    split at written
    · exact Or.inl ⟨name, found, valued, Text.trim_subset _ written⟩
    · exact (mem_of_mem_embedded written).imp_left fun inside => ⟨name, found, valued, inside⟩
  case h_2 =>
    left
    rw [← flatMap_text_fragments value]
    exact List.mem_flatMap.2 ⟨fragment, isFragment, written⟩

/-- All values of a map are made of allowed characters. -/
def AreMadeOf
    (allowed : Char → Prop)
    (values : OrderedMap Text) : Prop :=
  ∀ name value, values.get? name = some value → ∀ char ∈ value, allowed char

namespace AreMadeOf

variable {allowed : Char → Prop}

theorem pass
    (madeOf : AreMadeOf allowed values)
    (opening : allowed '(')
    (closing : allowed ')')
    (fixed : List Text) :
    AreMadeOf allowed (pass fixed values) := by
  intro name passed found char member
  rw [Reference.pass, OrderedMap.get?_mapValues, Option.map_eq_some_iff] at found
  obtain ⟨value, isValue, rfl⟩ := found
  unfold passValue at member
  dsimp only at member
  split at member
  · exact madeOf name value isValue char member
  · obtain inside | ⟨other, found, isFound, inside⟩ | rfl | rfl := mem_substituteWith member
    · exact madeOf name value isValue char inside
    · split at isFound
      · contradiction
      · exact madeOf other found isFound char inside
    · exact opening
    · exact closing

/-- Resolving references adds no characters but parentheses. -/
theorem resolveAll
    (madeOf : AreMadeOf allowed values)
    (opening : allowed '(')
    (closing : allowed ')')
    (limit : Nat) :
    AreMadeOf allowed (resolveAll values limit) := by
  rw [Reference.resolveAll, passes_eq_iterate_pass]
  induction limit with
  | zero => exact madeOf
  | succ limit inductionHypothesis =>
      rw [Function.iterate_succ_apply']
      exact inductionHypothesis.pass opening closing _

end AreMadeOf
end Reference
end LessTheme
