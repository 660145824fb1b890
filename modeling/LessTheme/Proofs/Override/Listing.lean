import Mathlib.Data.List.Induction
import LessTheme.Proofs.Program.OverrideLayer
import LessTheme.Proofs.Text.Utf8

/-!
# What the layer of overrides lists

The layer of overrides can be read in one way only, as a list of names with
their values.  Each name is listed once, in the order of bytes, with the value
that the compiler ends up with when it is given the same overrides as variables.
-/

namespace LessTheme
namespace Overrides

/-- A text lists names and values, each pair on a line of its own. -/
structure Lists
    (text : Text)
    (pairs : List (Text × Text)) : Prop where
  lines_eq : text =
    List.intercalate ['\n'] (pairs.map fun pair => declarationLine pair.1 pair.2)
  kept : ∀ pair ∈ pairs, IsKept pair

/-! ## The only reading -/

/-- A line is read back from the front of a text. -/
theorem declarationLine_append_inj
    {left right : Text × Text}
    (leftKept : IsKept left)
    (rightKept : IsKept right)
    {leftRest rightRest : Text}
    (same : declarationLine left.1 left.2 ++ leftRest =
      declarationLine right.1 right.2 ++ rightRest) :
    left = right ∧ leftRest = rightRest := by
  have apart : ∀ (pair : Text × Text) (rest : Text), declarationLine pair.1 pair.2 ++ rest =
      '@' :: (pair.1 ++ ':' :: ' ' :: (pair.2 ++ ';' :: rest)) := by
    intro pair rest
    simp [declarationLine]
  have unbroken : ∀ {pair}, IsKept pair → ∀ char ∈ pair.2, (char != ';') = true := by
    intro pair kept char inside
    rw [bne_iff_ne]
    rintro rfl
    exact kept.not_mem rfl inside
  rw [apart, apart, List.cons_inj_right] at same
  obtain ⟨sameName, same⟩ := Text.append_cons_inj rfl leftKept.clean rightKept.clean same
  obtain ⟨sameValue, sameRest⟩ := Text.append_cons_inj rfl (unbroken leftKept)
    (unbroken rightKept) (List.cons.inj same).2
  exact ⟨Prod.ext sameName sameValue, sameRest⟩

theorem eq_of_flatMap_declarationLine_eq
    {pairs others : List (Text × Text)}
    (kept : ∀ pair ∈ pairs, IsKept pair)
    (keptOthers : ∀ pair ∈ others, IsKept pair)
    (same : (pairs.flatMap fun pair => '\n' :: declarationLine pair.1 pair.2) =
      others.flatMap fun pair => '\n' :: declarationLine pair.1 pair.2) :
    pairs = others := by
  induction pairs generalizing others with
  | nil =>
      cases others with
      | nil => rfl
      | cons other othersRest => contradiction
  | cons pair rest inductionHypothesis =>
      cases others with
      | nil => contradiction
      | cons other othersRest =>
          rw [List.flatMap_cons, List.flatMap_cons, List.cons_append, List.cons_append,
            List.cons_inj_right] at same
          obtain ⟨keptPair, keptRest⟩ := List.forall_mem_cons.1 kept
          obtain ⟨keptOther, keptOthersRest⟩ := List.forall_mem_cons.1 keptOthers
          obtain ⟨rfl, sameRest⟩ := declarationLine_append_inj keptPair keptOther same
          rw [inductionHypothesis keptRest keptOthersRest sameRest]

/-- A text lists names and values in one way only. -/
theorem Lists.unique
    {text : Text}
    {pairs others : List (Text × Text)}
    (lists : Lists text pairs)
    (listsOthers : Lists text others) :
    pairs = others := by
  have nonempty : ∀ {pair rest}, ¬Lists [] (pair :: rest) := by
    intro pair rest lists
    have first := Text.head?_intercalate
      (show declarationLine pair.1 pair.2 ≠ [] from List.cons_ne_nil _ _) ['\n']
      (rest.map fun pair => declarationLine pair.1 pair.2)
    have isEmpty := lists.lines_eq
    rw [List.map_cons] at isEmpty
    rw [← isEmpty] at first
    contradiction
  have behindFeed : ∀ {pair rest}, Lists text (pair :: rest) →
      ((pair :: rest).flatMap fun pair => '\n' :: declarationLine pair.1 pair.2) =
        '\n' :: text := by
    intro pair rest lists
    have lines : (pair :: rest).map (fun pair => declarationLine pair.1 pair.2) ≠ [] :=
      List.cons_ne_nil _ _
    have joined := Text.append_intercalate lines ['\n']
    rw [← lists.lines_eq, List.flatMap_map] at joined
    exact joined.symm
  cases pairs with
  | nil =>
      obtain rfl := lists.lines_eq
      cases others with
      | nil => rfl
      | cons other rest => exact absurd listsOthers nonempty
  | cons pair rest =>
      cases others with
      | nil =>
          obtain rfl := listsOthers.lines_eq
          exact absurd lists nonempty
      | cons other othersRest =>
          refine eq_of_flatMap_declarationLine_eq lists.kept listsOthers.kept ?_
          rw [behindFeed lists, behindFeed listsOthers]

/-! ## The winning value -/

/--
The trimmed value of the last override, in the order of bytes, whose own name is
cleaned to the given one and whose value is not blank and breaks no statement.
-/
def lastWritable?
    (overrides : Overrides)
    (name : Text) : Option Text :=
  (overrides.entries.filter fun entry =>
    cleanName entry.1 == name && !name.isEmpty && !entry.2.isBlank &&
      !breaksStatement entry.2.trim).getLast?.map fun entry => entry.2.trim

theorem lastValue?_assigned
    (overrides : Overrides)
    (name : Text) :
    lastValue? overrides.assigned name = lastWritable? overrides name := by
  have single : ∀ entry : Text × Text, lastValue? (kept? entry.1 entry.2).toList name =
      if cleanName entry.1 == name && !name.isEmpty && !entry.2.isBlank &&
        !breaksStatement entry.2.trim then some entry.2.trim else none := by
    intro entry
    have blank : entry.2.trim.isEmpty = entry.2.isBlank := by
      rw [Bool.eq_iff_iff, List.isEmpty_iff, Text.trim_eq_nil_iff]
    rw [kept?, blank]
    by_cases here : cleanName entry.1 = name
    · subst here
      cases (cleanName entry.1).isEmpty <;> cases entry.2.isBlank <;>
        cases breaksStatement entry.2.trim <;> simp [lastValue?_singleton]
    · split <;> simp [here, lastValue?_singleton]
  unfold assigned lastWritable?
  induction overrides.entries using List.reverseRecOn with
  | nil => rfl
  | append_singleton front entry inductionHypothesis =>
      have last : [entry].filterMap (fun entry => kept? entry.1 entry.2) =
          (kept? entry.1 entry.2).toList := by
        rw [List.filterMap_cons, List.filterMap_nil]
        cases kept? entry.1 entry.2 <;> rfl
      rw [List.filterMap_append, last, lastValue?_append, single, inductionHypothesis,
        List.filter_append, List.filter_singleton]
      cases cleanName entry.1 == name && !name.isEmpty && !entry.2.isBlank &&
          !breaksStatement entry.2.trim with
      | true => simp
      | false => simp

/-! ## The layer -/

theorem lists_layer (overrides : Overrides) :
    Lists overrides.layer (SortedMap.ofList overrides.assigned).entries where
  lines_eq := layer_eq_intercalate
  kept := fun _ => isKept_of_mem_written

/--
The layer lists exactly the variables that the compiler ends up with when it is
given the overrides one after the other, each once and in the order of bytes.
Under each name it is the last override that may be written there.
-/
theorem lists_layer_iff_eq_assigned
    (overrides : Overrides) :
    (∀ pairs, Lists overrides.layer pairs ↔
        pairs = (SortedMap.ofList overrides.assigned).entries) ∧
      (SortedMap.ofList overrides.assigned).entries.Pairwise
        (fun left right => Utf8.encode left.1 < Utf8.encode right.1) ∧
      ∀ name, (SortedMap.ofList overrides.assigned).get? name =
        lastWritable? overrides name := by
  refine ⟨fun pairs => ⟨fun lists => lists.unique (lists_layer overrides), ?_⟩, ?_, fun name => ?_⟩
  · rintro rfl
    exact lists_layer overrides
  · exact (SortedMap.ofList overrides.assigned).sorted.imp Utf8.encode_lt_encode
  · rw [SortedMap.get?_ofList, lastValue?_assigned]

/-- The last of three names that are cleaned to one stands above a value that may not be written. -/
example :
    let overrides : Overrides :=
      .ofList [("gap!", "1px"), ("gap?", " 2px "), ("gap\x7b", "3px;"), ("edge", "4px")]
    overrides.layer = "@edge: 4px;\n@gap: 2px;".toList := by
  decide

end Overrides
end LessTheme
