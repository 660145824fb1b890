import LessTheme.Proofs.Reference.Resolution
import LessTheme.Proofs.Text.Pieces

/-!
# What passes keep

Whatever the values of a map are, resolving them keeps the names and their
order, and no value grows beyond the limit unless it was longer at first.  A
value stays if none of its references is expanded, and all values stay once a
pass has changed none.  The order of the entries decides nothing.
-/

namespace LessTheme
namespace Reference

variable {values : OrderedMap Text} {fixed : List Text} {name value : Text} {limit : Nat}

/-! ## One pass -/

theorem get?_pass
    (fixed : List Text)
    (values : OrderedMap Text)
    (name : Text) :
    (pass fixed values).get? name = (values.get? name).map (passValue fixed values) :=
  OrderedMap.get?_mapValues _ values name

theorem keys_pass
    (fixed : List Text)
    (values : OrderedMap Text) :
    (pass fixed values).keys = values.keys := by
  simp [pass, OrderedMap.mapValues, OrderedMap.keys, Function.comp_def]

/-- A pass may shorten a value, and lengthens it up to the limit only. -/
theorem byteLength_passValue_le
    (fixed : List Text)
    (values : OrderedMap Text)
    (value : Text) :
    (passValue fixed values value).byteLength ≤ max longestValue value.byteLength := by
  unfold passValue
  dsimp only
  split
  case isTrue => exact Nat.le_max_right _ _
  case isFalse short =>
    rw [Bool.and_eq_true, decide_eq_true_eq, decide_eq_true_eq] at short
    omega

/-- A pass leaves a value that refers to undeclared names and to names that are not expanded. -/
theorem passValue_eq_self
    (unexpanded : ∀ target ∈ referencedNames value, target ∈ fixed ∨ target ∉ values.keys) :
    passValue fixed values value = value := by
  have same : substituteWith (expandable? fixed values.get?) value = value := by
    refine substituteWith_eq_self fun target refers => ?_
    obtain isFixed | undeclared := unexpanded target refers
    · exact expandable?_of_mem isFixed
    · rw [OrderedMap.mem_keys_iff, OrderedMap.contains, Option.not_isSome_iff_eq_none] at undeclared
      rw [expandable?, undeclared, ite_self]
  change (if _ then value else substituteWith (expandable? fixed values.get?) value) = value
  rw [same, ite_self]

/-! ## Many passes -/

theorem keys_iterate_pass
    (fixed : List Text)
    (values : OrderedMap Text)
    (count : Nat) :
    ((pass fixed)^[count] values).keys = values.keys := by
  induction count with
  | zero => rfl
  | succ count inductionHypothesis =>
      rw [Function.iterate_succ_apply', keys_pass, inductionHypothesis]

/-- What a pass keeps of a value, whatever the other values are, many passes keep. -/
theorem exists_get?_iterate_pass
    {kept : Text → Prop}
    (step : ∀ current : OrderedMap Text, current.keys = values.keys →
      ∀ passed, kept passed → kept (passValue fixed current passed))
    (isValue : values.get? name = some value)
    (start : kept value)
    (count : Nat) :
    ∃ passed, ((pass fixed)^[count] values).get? name = some passed ∧ kept passed := by
  induction count with
  | zero => exact ⟨value, isValue, start⟩
  | succ count inductionHypothesis =>
      obtain ⟨passed, isPassed, keptPassed⟩ := inductionHypothesis
      refine ⟨passValue fixed ((pass fixed)^[count] values) passed, ?_, ?_⟩
      · rw [Function.iterate_succ_apply', get?_pass, isPassed, Option.map_some]
      · exact step _ (keys_iterate_pass fixed values count) passed keptPassed

/--
Resolving keeps the names and their order and bounds every value.  It leaves a
value whose references are to undeclared names or to names on cycles, and once
one more pass changes nothing, no greater limit does.
-/
theorem resolveAll_keeps
    (values : OrderedMap Text)
    (limit : Nat) :
    (resolveAll values limit).keys = values.keys ∧
    (∀ name value, values.get? name = some value →
      ∃ resolved, (resolveAll values limit).get? name = some resolved ∧
        resolved.byteLength ≤ max longestValue value.byteLength) ∧
    (∀ name value, values.get? name = some value →
      (∀ target ∈ referencedNames value,
        values.get? target = none ∨ Relation.TransGen (RefersTo values) target target) →
      (resolveAll values limit).get? name = some value) ∧
    (resolveAll values (limit + 1) = resolveAll values limit →
      ∀ greater, limit ≤ greater → resolveAll values greater = resolveAll values limit) := by
  simp only [resolveAll, passes_eq_iterate_pass]
  refine ⟨keys_iterate_pass _ values limit, ?bounded, ?unexpanded, ?settled⟩
  case bounded =>
    intro name value isValue
    refine exists_get?_iterate_pass (fun current _ passed bounded => ?_) isValue
      (Nat.le_max_right _ _) limit
    have grown := byteLength_passValue_le (cyclicNames values) current passed
    omega
  case unexpanded =>
    intro name value isValue unexpanded
    have step : ∀ current : OrderedMap Text, current.keys = values.keys →
        ∀ passed, passed = value → passValue (cyclicNames values) current passed = value := by
      rintro current sameKeys passed rfl
      refine passValue_eq_self fun target refers => ?_
      refine (unexpanded target refers).symm.imp mem_cyclicNames_iff.2 fun undeclared => ?_
      rw [sameKeys, OrderedMap.mem_keys_iff, OrderedMap.contains, undeclared]
      exact Bool.false_ne_true
    obtain ⟨_, isPassed, rfl⟩ := exists_get?_iterate_pass step isValue rfl limit
    exact isPassed
  case settled =>
    intro settled greater within
    obtain ⟨further, rfl⟩ := Nat.exists_eq_add_of_le' within
    rw [Function.iterate_succ_apply'] at settled
    rw [Function.iterate_add_apply, Function.iterate_fixed settled]

/-- A reference that is expanded, and one to a name on a cycle beside one to no name. -/
theorem resolveAll_keeps_sample :
    let values : OrderedMap Text :=
      .ofList [("wide", "@half @half"), ("half", "1px"), ("loop", "@loop + @missing")]
    (resolveAll values 1).keys = values.keys ∧
      (∃ resolved, (resolveAll values 1).get? "wide" = some resolved ∧
        resolved.byteLength ≤ max longestValue 11) ∧
      (∀ target ∈ referencedNames "@loop + @missing",
        values.get? target = none ∨ Relation.TransGen (RefersTo values) target target) ∧
      (resolveAll values 1).get? "loop" = some "@loop + @missing" ∧
      resolveAll values 2 = resolveAll values 1 ∧
      resolveAll values 10 = resolveAll values 1 ∧
      (resolveAll values 10).get? "wide" = some "1px 1px" := by
  intro values
  obtain ⟨sameKeys, bounded, unexpanded, settled⟩ := resolveAll_keeps values 1
  have unchanged : resolveAll values 2 = resolveAll values 1 := by decide
  have isFinal := settled unchanged 10 (by decide)
  have notExpanded : ∀ target ∈ referencedNames "@loop + @missing",
      values.get? target = none ∨ Relation.TransGen (RefersTo values) target target := by
    rw [show referencedNames "@loop + @missing" = ["loop".toList, "missing".toList] by decide]
    rw [List.forall_mem_cons, List.forall_mem_singleton]
    exact ⟨.inr (.single (by decide : "loop".toList ∈ targets values "loop")), .inl (by decide)⟩
  refine ⟨sameKeys, bounded "wide" "@half @half" (by decide), notExpanded,
    unexpanded "loop" _ (by decide) notExpanded, unchanged, isFinal, ?_⟩
  rw [isFinal]
  decide

/-! ## The order of entries -/

/-- Two maps give every name the same value. -/
def HasSameValues (left right : OrderedMap Text) : Prop :=
  ∀ name, left.get? name = right.get? name

namespace HasSameValues

variable {left right : OrderedMap Text}

theorem of_perm (permuted : left.entries.Perm right.entries) : HasSameValues left right := by
  intro name
  refine Option.ext fun value => ?_
  have found : ∀ map : OrderedMap Text,
      map.get? name = some value ↔ (name, value) ∈ map.entries := fun map =>
    ⟨OrderedMap.mem_entries_of_get?_eq_some, OrderedMap.get?_of_mem_entries⟩
  rw [found, found, permuted.mem_iff]

/-- The references of the names are the same, so the same names lead back to themselves. -/
theorem mem_cyclicNames_iff (same : HasSameValues left right) :
    name ∈ cyclicNames left ↔ name ∈ cyclicNames right := by
  have sameRelation : RefersTo left = RefersTo right := by
    unfold RefersTo targets OrderedMap.contains
    simp only [same _]
  rw [Reference.mem_cyclicNames_iff, Reference.mem_cyclicNames_iff, sameRelation]

/-- A pass reads nothing but the values of names and which names are not expanded. -/
theorem pass
    {others : List Text}
    (same : HasSameValues left right)
    (sameFixed : ∀ name, name ∈ fixed ↔ name ∈ others) :
    HasSameValues (pass fixed left) (pass others right) := by
  intro name
  have sameExpanded : expandable? fixed left.get? = expandable? others right.get? := by
    funext target
    rw [expandable?, expandable?, same target, List.contains_eq_mem, List.contains_eq_mem,
      decide_eq_decide.2 (sameFixed target)]
  have samePassed : passValue fixed left = passValue others right := by
    funext value
    unfold passValue
    unfold expandable? at sameExpanded
    rw [sameExpanded]
  rw [get?_pass, get?_pass, same name, samePassed]

/-- Passes are made with names that are not expanded in both maps. -/
theorem resolveAll
    (same : HasSameValues left right)
    (limit : Nat) :
    HasSameValues (resolveAll left limit) (resolveAll right limit) := by
  simp only [Reference.resolveAll, passes_eq_iterate_pass]
  induction limit with
  | zero => exact same
  | succ limit inductionHypothesis =>
      rw [Function.iterate_succ_apply', Function.iterate_succ_apply']
      exact inductionHypothesis.pass fun _ => same.mem_cyclicNames_iff

end HasSameValues

/-- Maps that differ in the order of their entries only resolve to the same values. -/
theorem get?_resolveAll_of_perm
    {left right : OrderedMap Text}
    (permuted : left.entries.Perm right.entries)
    (limit : Nat)
    (name : Text) :
    (resolveAll left limit).get? name = (resolveAll right limit).get? name :=
  (HasSameValues.of_perm permuted).resolveAll limit name

/-- A cycle in the middle, and a value that is needed before and after it is declared. -/
theorem get?_resolveAll_of_perm_sample :
    let left : OrderedMap Text := .ofList
      [("wide", "@gap @half"), ("x", "@y"), ("gap", "1px + 2px"), ("y", "@x * @gap"),
        ("half", "@gap / 2")]
    let right : OrderedMap Text := .ofList
      [("y", "@x * @gap"), ("half", "@gap / 2"), ("x", "@y"), ("wide", "@gap @half"),
        ("gap", "1px + 2px")]
    left.entries.Perm right.entries ∧
      (resolveAll left 2).get? "wide" = (resolveAll right 2).get? "wide" ∧
      (resolveAll right 2).get? "wide" = some "(1px + 2px) ((1px + 2px) / 2)" := by
  intro left right
  have permuted : left.entries.Perm right.entries := by decide
  refine ⟨permuted, get?_resolveAll_of_perm permuted 2 "wide", ?_⟩
  decide

end Reference
end LessTheme
