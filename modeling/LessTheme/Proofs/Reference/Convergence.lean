import LessTheme.Proofs.Reference.Expansion
import LessTheme.Proofs.Reference.Resolution

/-!
# Passes reach the full values

A pass puts in what the passes before have made of the values, and it keeps a
value that would grow too long.  None of this matters in the end: whatever a
pass does to a formula, the full value stays what it was and the depth does not
grow.  After as many passes as a formula is deep, all that it refers to is full,
so the next pass makes it full as well, and a full value is not too long.
-/

namespace LessTheme
namespace Reference

open OpenFormula (text)

/-- A formula after a pass, given what the names stand for before it. -/
def passed
    (known? : Text → Option OpenFormula)
    (formula : OpenFormula) : OpenFormula :=
  let expanded := formula.expand known?
  if longestValue < expanded.text.byteLength &&
      formula.text.byteLength < expanded.text.byteLength then formula
  else expanded

/-- A formula after some passes over it and the values of a map together. -/
def afterPasses (values : OrderedMap OpenFormula) : Nat → OpenFormula → OpenFormula
  | 0, formula => formula
  | count + 1, formula =>
      passed (fun name => (values.get? name).map (afterPasses values count))
        (afterPasses values count formula)

variable {values : OrderedMap OpenFormula}

/-- What a name stands for after some passes. -/
def afterPasses?
    (values : OrderedMap OpenFormula)
    (count : Nat)
    (name : Text) : Option OpenFormula :=
  (values.get? name).map (afterPasses values count)

/-- A pass over the texts of formulas is a pass over the formulas. -/
theorem pass_texts (values : OrderedMap OpenFormula) :
    pass [] (texts values) = texts (values.mapValues fun _ => passed values.get?) := by
  have known : (fun name => if List.contains [] name then none else (texts values).get? name) =
      fun name => (values.get? name).map text := by
    funext name
    exact OrderedMap.get?_mapValues _ values name
  have written (change : OpenFormula → OpenFormula) :
      texts (values.mapValues fun _ => change) =
        values.mapValues fun _ formula => (change formula).text :=
    OrderedMap.mapValues_mapValues _ _ values
  have before : pass [] (texts values) =
      values.mapValues fun _ formula => passValue [] (texts values) formula.text :=
    OrderedMap.mapValues_mapValues _ _ values
  rw [before, written]
  refine OrderedMap.mapValues_congr fun entry _ => ?_
  rw [passValue, passed, known, OpenFormula.substituteWith_text]
  split <;> rfl

theorem iterate_pass_texts
    (values : OrderedMap OpenFormula)
    (count : Nat) :
    (pass [])^[count] (texts values) =
      texts (values.mapValues fun _ => afterPasses values count) := by
  induction count with
  | zero => exact congrArg texts (OrderedMap.mapValues_self values).symm
  | succ count inductionHypothesis =>
      have known : (values.mapValues fun _ => afterPasses values count).get? =
          afterPasses? values count := by
        funext name
        exact OrderedMap.get?_mapValues _ values name
      rw [Function.iterate_succ_apply', inductionHypothesis, pass_texts, known,
        OrderedMap.mapValues_mapValues]
      rfl

/-! ## On the way to the full value -/

/-- A formula between a value and its full value, given how many passes there were. -/
structure IsOnTheWay
    (values : OrderedMap OpenFormula)
    (count : Nat)
    (value current : OpenFormula) : Prop where
  /-- What is left to replace leads to the full value. -/
  expand_eq : current.expand (full? values) = full values value
  /-- The depth has not grown. -/
  endsWithin : ∀ depth, EndsWithin values depth value → EndsWithin values depth current
  /-- As many passes as the value is deep are enough. -/
  eq_full : EndsWithin values count value → current = full values value

/-- All values of a map are on the way to their full values. -/
def AreOnTheWay
    (values : OrderedMap OpenFormula)
    (count : Nat) : Prop :=
  ∀ name value, values.get? name = some value →
    IsOnTheWay values count value (afterPasses values count value)

/-- No full value of a map is too long for a pass. -/
def HasShortFullValues (values : OrderedMap OpenFormula) : Prop :=
  ∀ name value, values.get? name = some value →
    (full values value).text.byteLength ≤ longestValue

section Step

variable {count : Nat} {name : Text} {value current : OpenFormula}

theorem exists_of_afterPasses?_eq_some
    (onTheWay : AreOnTheWay values count)
    (found : afterPasses? values count name = some current) :
    ∃ value, values.get? name = some value ∧ IsOnTheWay values count value current := by
  obtain ⟨value, isValue, rfl⟩ := Option.map_eq_some_iff.1 found
  exact ⟨value, isValue, onTheWay name value isValue⟩

/-- What a pass puts in leads to the full value as well. -/
theorem IsOnTheWay.expand_expand
    (isOnTheWay : IsOnTheWay values count value current)
    (onTheWay : AreOnTheWay values count) :
    (current.expand (afterPasses? values count)).expand (full? values) = full values value := by
  rw [OpenFormula.expand_expand _ current, isOnTheWay.expand_eq]
  intro name other found
  obtain ⟨target, isTarget, targetOnTheWay⟩ := exists_of_afterPasses?_eq_some onTheWay found
  rw [full?, isTarget, targetOnTheWay.expand_eq, Option.map_some]

/-- What a pass puts in is less deep than the reference. -/
theorem IsOnTheWay.endsWithin_expand
    (isOnTheWay : IsOnTheWay values count value current)
    (onTheWay : AreOnTheWay values count)
    {depth : Nat}
    (ends : EndsWithin values depth value) :
    EndsWithin values depth (current.expand (afterPasses? values count)) := by
  rw [EndsWithin.iff_exists_eq_succ]
  intro name refers target isTarget
  obtain ⟨-, unknown⟩ | ⟨via, refersVia, put, found, refersTarget⟩ :=
    OpenFormula.mem_references_expand refers
  · rw [afterPasses?, isTarget] at unknown
    contradiction
  · obtain ⟨viaValue, isVia, viaOnTheWay⟩ := exists_of_afterPasses?_eq_some onTheWay found
    obtain ⟨lower, rfl, viaEnds⟩ := EndsWithin.iff_exists_eq_succ.1
      (isOnTheWay.endsWithin depth ends) via refersVia viaValue isVia
    obtain ⟨lowest, rfl, targetEnds⟩ := EndsWithin.iff_exists_eq_succ.1
      (viaOnTheWay.endsWithin lower viaEnds) name refersTarget target isTarget
    exact ⟨lowest + 1, rfl, targetEnds.succ⟩

/-- Where a value is one reference deeper than there were passes, a pass puts in full values. -/
theorem IsOnTheWay.expand_eq_full
    (isOnTheWay : IsOnTheWay values count value current)
    (onTheWay : AreOnTheWay values count)
    (ends : EndsWithin values (count + 1) value) :
    current.expand (afterPasses? values count) = full values value := by
  rw [← isOnTheWay.expand_eq]
  refine OpenFormula.expand_congr fun name refers => ?_
  refine Option.map_congr fun target isTarget => ?_
  have targetEnds := isOnTheWay.endsWithin (count + 1) ends name refers target isTarget
  exact (onTheWay name target isTarget).eq_full targetEnds

/-- A pass leads on, whether it keeps a value or not. -/
theorem IsOnTheWay.passed
    (isOnTheWay : IsOnTheWay values count value current)
    (onTheWay : AreOnTheWay values count)
    (short : (full values value).text.byteLength ≤ longestValue) :
    IsOnTheWay values (count + 1) value (passed (afterPasses? values count) current) := by
  unfold Reference.passed
  dsimp only
  split
  case isTrue tooLong =>
    refine ⟨isOnTheWay.expand_eq, isOnTheWay.endsWithin, fun ends => ?_⟩
    rw [isOnTheWay.expand_eq_full onTheWay ends, Bool.and_eq_true, decide_eq_true_eq] at tooLong
    exact absurd short (Nat.not_le_of_lt tooLong.1)
  case isFalse =>
    exact ⟨isOnTheWay.expand_expand onTheWay, fun _ => isOnTheWay.endsWithin_expand onTheWay,
      isOnTheWay.expand_eq_full onTheWay⟩

end Step

/-- Before the first pass, a value is on the way to its full value. -/
theorem areOnTheWay_zero
    (acyclic : ∀ name, ¬Relation.TransGen (RefersTo (texts values)) name name) :
    AreOnTheWay values 0 := by
  intro name value isValue
  refine ⟨(full_eq_expand acyclic value).symm, fun _ ends => ends, fun ends => ?_⟩
  rw [full_eq_expand acyclic]
  refine (OpenFormula.expand_eq_self fun other refers => ?_).symm
  rw [full?, ends other refers, Option.map_none]

/-- However many passes there are, the values stay on the way to their full values. -/
theorem areOnTheWay
    (acyclic : ∀ name, ¬Relation.TransGen (RefersTo (texts values)) name name)
    (short : HasShortFullValues values)
    (count : Nat) :
    AreOnTheWay values count := by
  induction count with
  | zero => exact areOnTheWay_zero acyclic
  | succ count inductionHypothesis =>
      intro name value isValue
      exact (inductionHypothesis name value isValue).passed inductionHypothesis
        (short name value isValue)

/-- As many passes as the longest chain of references has links make all values full. -/
theorem resolveAll_texts_eq_full
    {limit : Nat}
    (within : HasChainsWithin (texts values) limit)
    (short : HasShortFullValues values) :
    (∀ formula, full values formula = formula.expand (full? values)) ∧
      resolveAll (texts values) limit = texts (values.mapValues fun _ => full values) := by
  refine ⟨full_eq_expand within.not_transGen, ?_⟩
  rw [resolveAll, within.cyclicNames_eq_nil, passes_eq_iterate_pass, iterate_pass_texts]
  refine congrArg texts (OrderedMap.mapValues_congr fun entry member => ?_)
  have isValue := OrderedMap.get?_of_mem_entries member
  exact (areOnTheWay within.not_transGen short limit entry.1 entry.2 isValue).eq_full
    (within.endsWithin isValue)

/-- Three values in a chain: `10px + 5px`, `@gutter * @ratio` and `@column`. -/
def grid : OrderedMap OpenFormula where
  entries := [
    ("gutter".toList, .operation .add
      (.number { negative := false, whole := "10", fraction := none, unit := "px" } rfl)
      (.number { negative := false, whole := "5", fraction := none, unit := "px" } rfl)),
    ("column".toList, .operation .multiply
      (.reference { text := "gutter" }) (.reference { text := "ratio" })),
    ("wide".toList, .reference { text := "column" })]
  nodup := by decide +kernel

theorem resolveAll_texts_eq_full_grid :
    HasChainsWithin (texts grid) 2 ∧ HasShortFullValues grid ∧
      (resolveAll (texts grid) 2).get? "wide" = some "(10px + 5px) * @ratio".toList := by
  have within : HasChainsWithin (texts grid) 2 :=
    .of_rank (texts grid).keys.idxOf (by decide +kernel) (by decide +kernel)
  have short : HasShortFullValues grid := by
    have allShort : ∀ entry ∈ grid.entries,
        (full grid entry.2).text.byteLength ≤ longestValue := by decide +kernel
    exact fun name value isValue =>
      allShort (name, value) (OrderedMap.mem_entries_of_get?_eq_some isValue)
  refine ⟨within, short, ?_⟩
  rw [(resolveAll_texts_eq_full within short).2]
  decide +kernel

end Reference
end LessTheme
