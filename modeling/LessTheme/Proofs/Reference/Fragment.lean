import LessTheme.Reference.Substitution

/-!
# The fragments of simple values

The fragments of a value are the value cut into pieces.  A value without at
sign has no references among them, and a value that is one reference has that
one only.  So substitution leaves the former and replaces the latter as a
whole.
-/

namespace LessTheme
namespace Reference

open Source

variable {value name : Text} {value? : Text → Option Text}

theorem flatMap_text_foldr_prepend (cells : List Cell) :
    (cells.foldr Reading.prepend ⟨[], []⟩).word ++
      (cells.foldr Reading.prepend ⟨[], []⟩).fragments.flatMap Fragment.text = chars cells := by
  induction cells with
  | nil => rfl
  | cons cell rest inductionHypothesis =>
      change _ = cell.char :: chars rest
      rw [List.foldr_cons, ← inductionHypothesis]
      unfold Reading.prepend
      split
      · rfl
      · split
        case isTrue isAt =>
          have same : cell.char = '@' := by
            simp only [Cell.isCode, Bool.and_eq_true, beq_iff_eq] at isAt
            exact isAt.2
          rw [same]
          rfl
        case isFalse => rfl

/-- The fragments of a value are the value cut into pieces. -/
theorem flatMap_text_fragments (value : Text) :
    (fragments value).flatMap Fragment.text = value := by
  rw [fragments, fragmentsOf, List.flatMap_cons]
  exact (flatMap_text_foldr_prepend _).trans (chars_cells value)

theorem name?_eq_none_of_mem_foldr_prepend
    {cells : List Cell}
    (absent : '@' ∉ chars cells) :
    ∀ fragment ∈ (cells.foldr Reading.prepend ⟨[], []⟩).fragments, fragment.name? = none := by
  induction cells with
  | nil => exact fun _ member => nomatch member
  | cons cell rest inductionHypothesis =>
      change '@' ∉ cell.char :: chars rest at absent
      rw [List.mem_cons, not_or] at absent
      have notAt : cell.isCode '@' = false := by
        simp only [Cell.isCode, Bool.and_eq_false_iff, beq_eq_false_iff_ne]
        exact Or.inr (Ne.symm absent.1)
      rw [List.foldr_cons]
      unfold Reading.prepend
      split
      · exact inductionHypothesis absent.2
      · rw [if_neg (by simp [notAt]), List.forall_mem_cons]
        exact ⟨rfl, inductionHypothesis absent.2⟩

/-- A value without at sign has no references. -/
theorem name?_eq_none_of_not_mem
    (absent : '@' ∉ value) :
    ∀ fragment ∈ fragments value, fragment.name? = none := by
  rw [fragments, fragmentsOf, List.forall_mem_cons]
  refine ⟨rfl, name?_eq_none_of_mem_foldr_prepend ?_⟩
  rwa [chars_cells]

theorem Fragment.name?_reference
    (nonempty : name ≠ []) :
    (Fragment.reference name).name? = some name :=
  if_neg (by simpa using nonempty)

theorem foldr_prepend_of_isNameChar
    {cells : List Cell}
    (clean : ∀ cell ∈ cells, isNameChar cell.char = true) :
    cells.foldr Reading.prepend ⟨[], []⟩ = ⟨chars cells, []⟩ := by
  induction cells with
  | nil => rfl
  | cons cell rest inductionHypothesis =>
      rw [List.forall_mem_cons] at clean
      rw [List.foldr_cons, inductionHypothesis clean.2, Reading.prepend, if_pos clean.1]
      rfl

/-- A value that is one reference has no other fragments of note. -/
theorem fragments_reference
    (clean : ∀ char ∈ name, isNameChar char = true) :
    fragments ('@' :: name) = [.plain [], .reference name] := by
  obtain ⟨mode, read⟩ : ∃ mode : Mode,
      cells ('@' :: name) = ⟨'@', .code, false⟩ :: mode.cells name := ⟨_, rfl⟩
  have cleanCells : ∀ cell ∈ mode.cells name, isNameChar cell.char = true := by
    intro cell member
    apply clean
    rw [← Mode.chars_cells mode name]
    exact List.mem_map_of_mem member
  rw [fragments, fragmentsOf, read, List.foldr_cons, foldr_prepend_of_isNameChar cleanCells,
    Mode.chars_cells]
  rfl

theorem bareName?_eq_some_iff :
    bareName? value = some name ↔
      value.trim = '@' :: name ∧ name ≠ [] ∧ ∀ char ∈ name, isNameChar char = true := by
  unfold bareName?
  split
  case h_1 word trimmed =>
    rw [trimmed]
    simp only [Option.ite_none_right_eq_some, Bool.and_eq_true, Bool.not_eq_true',
      List.isEmpty_eq_false_iff, List.all_eq_true, Option.some.injEq, List.cons.injEq, true_and]
    constructor
    · rintro ⟨⟨nonempty, clean⟩, rfl⟩
      exact ⟨rfl, nonempty, clean⟩
    · rintro ⟨rfl, nonempty, clean⟩
      exact ⟨⟨nonempty, clean⟩, rfl⟩
  case h_2 other =>
    refine iff_of_false (fun impossible => nomatch impossible) fun isReference => ?_
    exact other name isReference.1

/-! ## Simple values -/

/-- A trimmed value that is one reference or holds no at sign. -/
structure IsSimple (value : Text) : Prop where
  /-- No white space stands around the value. -/
  trimmed : value.trim = value
  /-- The value is one reference or holds no at sign. -/
  plain : (bareName? value).isSome = true ∨ '@' ∉ value

theorem IsSimple.eq_of_bareName?_eq_some
    (simple : IsSimple value)
    (isReference : bareName? value = some name) :
    value = '@' :: name :=
  simple.trimmed.symm.trans (bareName?_eq_some_iff.1 isReference).1

theorem IsSimple.not_mem_of_bareName?_eq_none
    (simple : IsSimple value)
    (isPlain : bareName? value = none) :
    '@' ∉ value :=
  simple.plain.resolve_left (by simp [isPlain])

/-- A simple value refers to one name at most. -/
theorem IsSimple.referencedNames_eq
    (simple : IsSimple value) :
    referencedNames value = (bareName? value).toList := by
  cases isReference : bareName? value with
  | none =>
      exact List.filterMap_eq_nil_iff.2
        (name?_eq_none_of_not_mem (simple.not_mem_of_bareName?_eq_none isReference))
  | some name =>
      obtain ⟨-, nonempty, clean⟩ := bareName?_eq_some_iff.1 isReference
      rw [simple.eq_of_bareName?_eq_some isReference, referencedNames, fragments_reference clean,
        List.filterMap_cons_none rfl, List.filterMap_cons_some (Fragment.name?_reference nonempty)]
      rfl

/-- Substitution leaves a value whose references have no values. -/
theorem substituteWith_eq_self
    (unknown : ∀ name ∈ referencedNames value, value? name = none) :
    substituteWith value? value = value := by
  refine Eq.trans ?_ (flatMap_text_fragments value)
  unfold substituteWith
  rw [List.flatMap_def, List.flatMap_def, List.map_congr_left fun fragment member => ?_]
  unfold Fragment.substitute
  cases refers : fragment.name? with
  | none => rw [Option.bind_none]
  | some name =>
      rw [Option.bind_some, unknown name (List.mem_filterMap.2 ⟨fragment, member, refers⟩)]

theorem substituteWith_of_not_mem
    (absent : '@' ∉ value) :
    substituteWith value? value = value := by
  have noNames : referencedNames value = [] :=
    List.filterMap_eq_nil_iff.2 (name?_eq_none_of_not_mem absent)
  exact substituteWith_eq_self (by simp [noNames])

/-- Substitution in a value that is one reference to a known name gives the trimmed value. -/
theorem IsSimple.substituteWith_of_bareName?_eq_some
    (simple : IsSimple value)
    (isReference : bareName? value = some name) :
    substituteWith value? value = ((value? name).map Text.trim).getD value := by
  obtain ⟨-, nonempty, clean⟩ := bareName?_eq_some_iff.1 isReference
  have written := simple.eq_of_bareName?_eq_some isReference
  have replaced : substituteWith value? value =
      Fragment.substitute value? Text.trim (.reference name) := by
    unfold substituteWith
    rw [isReference, written, fragments_reference clean]
    simp [Fragment.substitute, Fragment.name?, Fragment.text]
  rw [replaced, Fragment.substitute, Fragment.name?_reference nonempty, Option.bind_some]
  cases value? name with
  | none => exact written.symm
  | some next => rfl

end Reference
end LessTheme
