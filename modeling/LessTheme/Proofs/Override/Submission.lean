import Mathlib.Data.List.Basic
import Mathlib.Data.List.Induction
import LessTheme.Override.Submission
import LessTheme.Proofs.Collection.SortedMap
import LessTheme.Proofs.Text.Trim

/-!
# What a submission leaves in the store

A submitted value is accepted if its clean name is declared and it does not
break the statement it stands in.  For every variable the last accepted value
replaces what was stored, and only values that differ from the default stay.
-/

namespace LessTheme
namespace Overrides

/-- A submitted value under its clean name, if it is accepted. -/
def accepted?
    (catalog : Catalog)
    (name value : Text) : Option (Text × Text) :=
  if (catalog.find? (cleanName name)).isSome && !breaksStatement value.trim then
    some (cleanName name, value.trim)
  else none

/-- The accepted values of a submission, in order. -/
def accepted
    (catalog : Catalog)
    (entries : List (Text × Text)) : List (Text × Text) :=
  entries.filterMap fun entry => accepted? catalog entry.1 entry.2

/-- Whether the store holds a value: it is not empty and differs from the default. -/
def isHeld
    (catalog : Catalog)
    (name value : Text) : Bool :=
  !(normalForm value).isEmpty && differsFromDefault catalog name value

/-- Whether submitting a value stores it. -/
def isStorable
    (catalog : Catalog)
    (name value : Text) : Bool :=
  !breaksStatement value && isHeld catalog name value

section Submit

variable {catalog : Catalog}

theorem ne_nil_of_isStorable
    {name value : Text}
    (storable : isStorable catalog name value = true) :
    value ≠ [] := by
  rintro rfl
  simp [isStorable, isHeld, show normalForm [] = [] by decide] at storable

theorem ne_mark_of_isStorable
    {name value : Text}
    (storable : isStorable catalog name value = true) :
    ∀ char ∈ value, char ≠ ';' ∧ char ≠ '{' ∧ char ≠ '}' := by
  intro char member
  rw [isStorable, Bool.and_eq_true, Bool.not_eq_true', breaksStatement, List.any_eq_false]
    at storable
  simpa [isStatementMark, and_assoc] using storable.1 char member

theorem normalForm_ne_of_isStorable
    {name value : Text}
    {declared : Variable}
    (isFound : catalog.find? name = some declared)
    (storable : isStorable catalog name value = true) :
    normalForm value ≠ normalForm declared.value := by
  rw [isStorable, isHeld, differsFromDefault, isFound, Option.any_some, Bool.and_eq_true,
    Bool.and_eq_true] at storable
  exact bne_iff_ne.1 storable.2.2

theorem submitValue_eq
    (stored : Overrides)
    (name value : Text) :
    submitValue catalog stored name value =
      match accepted? catalog name value with
      | some entry =>
          if isHeld catalog entry.1 entry.2 then stored.insert entry.1 entry.2
          else stored.erase entry.1
      | none => stored := by
  unfold submitValue accepted?
  dsimp only
  cases catalog.find? (cleanName name) with
  | none => rfl
  | some found =>
      cases breaksStatement value.trim with
      | true => rfl
      | false =>
          simp only [Bool.false_eq_true, if_false, Option.isSome_some, Bool.not_false,
            Bool.and_self, if_true, isHeld]
          by_cases blank : (normalForm value.trim).isEmpty = true
          · simp [blank]
          · by_cases differs : differsFromDefault catalog (cleanName name) value.trim = true
            · simp [blank, differs]
            · simp [differs]

theorem get?_submitValue
    (stored : Overrides)
    (name value other : Text) :
    (submitValue catalog stored name value).get? other =
      match accepted? catalog name value with
      | some entry =>
          if entry.1 = other then (some entry.2).filter (isHeld catalog other)
          else stored.get? other
      | none => stored.get? other := by
  rw [submitValue_eq]
  cases accepted? catalog name value with
  | none => rfl
  | some entry =>
      dsimp only
      by_cases same : entry.1 = other
      · subst same
        rw [if_pos rfl, Option.filter_some]
        split
        · rw [SortedMap.get?_insert, if_pos rfl]
        · rw [SortedMap.get?_erase, if_pos rfl]
      · rw [if_neg same]
        split
        · rw [SortedMap.get?_insert, if_neg same]
        · rw [SortedMap.get?_erase, if_neg fun equal => same equal.symm]

/-- Of the submitted values of a name the last accepted one counts. -/
theorem get?_foldl_submitValue
    (entries : List (Text × Text))
    (stored : Overrides)
    (name : Text) :
    (entries.foldl (fun result entry => submitValue catalog result entry.1 entry.2) stored).get?
        name =
      match lastValue? (accepted catalog entries) name with
      | some value => (some value).filter (isHeld catalog name)
      | none => stored.get? name := by
  induction entries generalizing stored with
  | nil => rfl
  | cons entry rest inductionHypothesis =>
      rw [List.foldl_cons, inductionHypothesis, get?_submitValue]
      have split : accepted catalog (entry :: rest) =
          (accepted? catalog entry.1 entry.2).toList ++ accepted catalog rest := by
        unfold accepted
        rw [List.filterMap_cons]
        cases accepted? catalog entry.1 entry.2 <;> rfl
      rw [split, lastValue?_append]
      cases lastValue? (accepted catalog rest) name with
      | some value => rfl
      | none =>
          cases accepted? catalog entry.1 entry.2 with
          | none => rfl
          | some kept =>
              rw [Option.none_or, Option.toList_some, lastValue?_singleton]
              dsimp only
              split <;> rfl

/-- What a unit holds after a submission. -/
theorem get?_submit
    (stored submitted : Overrides)
    (name : Text) :
    (submit catalog stored submitted).get? name =
      match lastValue? (accepted catalog submitted.entries) name with
      | some value => (some value).filter (isHeld catalog name)
      | none => (stored.get? name).filter (differsFromDefault catalog name) := by
  rw [submit, SortedMap.get?_filter, get?_foldl_submitValue]
  cases lastValue? (accepted catalog submitted.entries) name with
  | none => rfl
  | some value =>
      dsimp only
      by_cases held : isHeld catalog name value = true
      · have differs : differsFromDefault catalog name value = true := by
          rw [isHeld, Bool.and_eq_true] at held
          exact held.2
        rw [Option.filter_some, if_pos held, Option.filter_some, if_pos differs]
      · rw [Option.filter_some, if_neg held]
        rfl

/-- Of clean submitted values a unit without overrides holds those that can be stored. -/
theorem get?_submit_empty
    {submitted : Overrides}
    (declared : ∀ entry ∈ submitted.entries, (catalog.find? entry.1).isSome = true)
    (clean : ∀ entry ∈ submitted.entries, cleanName entry.1 = entry.1)
    (trimmed : ∀ entry ∈ submitted.entries, entry.2.trim = entry.2)
    (name : Text) :
    (submit catalog .empty submitted).get? name =
      (submitted.get? name).filter (isStorable catalog name) := by
  have unbroken : accepted catalog submitted.entries =
      (submitted.filter fun _ value => !breaksStatement value).entries := by
    change List.filterMap _ submitted.entries = List.filter _ submitted.entries
    rw [← List.filterMap_eq_filter]
    apply List.filterMap_congr
    intro entry member
    rw [accepted?, clean entry member, trimmed entry member, declared entry member, Bool.true_and]
    rfl
  rw [get?_submit, unbroken, SortedMap.lastValue?_entries, SortedMap.get?_filter]
  cases submitted.get? name with
  | none => rfl
  | some value =>
      rw [Option.filter_some, Option.filter_some, isStorable]
      cases breaksStatement value with
      | true => rfl
      | false => rfl

end Submit

/-!
## Merged overrides

Of all that is submitted for a variable, the last value that can stand in a
statement counts.  It replaces what was stored, unless it is empty or says
nothing else than the default.  Where nothing is submitted, what was stored
stays as long as it differs from the default.  So merging the same submission
again changes nothing.
-/

theorem breaksStatement_trim (value : Text) :
    breaksStatement value.trim = breaksStatement value := by
  have unmarked : ∀ spaces : Text, (∀ char ∈ spaces, isWhiteSpace char = true) →
      breaksStatement spaces = false := by
    intro spaces blank
    refine List.any_eq_false.2 fun char member isMark => ?_
    have isBlank := blank char member
    simp only [isStatementMark, Bool.or_eq_true, beq_iff_eq] at isMark
    rcases isMark with (rfl | rfl) | rfl <;> contradiction
  obtain ⟨before, behind, split, blankBefore, blankBehind⟩ :=
    Text.exists_eq_append_trim_append value
  have parts : breaksStatement value = (breaksStatement before ||
      (breaksStatement value.trim || breaksStatement behind)) := by
    conv_lhs => rw [split]
    simp only [breaksStatement, List.any_append]
  rw [parts, unmarked before blankBefore, unmarked behind blankBehind, Bool.false_or,
    Bool.or_false]

/--
The trimmed value of the last entry for a name that can stand in a statement;
the names of the entries are cleaned.
-/
def lastSubmitted?
    (submitted : Overrides)
    (name : Text) : Option Text :=
  (submitted.entries.filter fun entry =>
    cleanName entry.1 == name && !breaksStatement entry.2).getLast?.map fun entry => entry.2.trim

/-- What storing a submission makes of the overrides of a unit. -/
structure IsMerged
    (catalog : Catalog)
    (stored submitted merged : Overrides) : Prop where
  /-- A submitted value replaces what was stored, or removes it. -/
  replaced : ∀ name declared value, catalog.find? name = some declared →
    lastSubmitted? submitted name = some value →
    merged.get? name =
      if normalForm value ≠ [] ∧ normalForm value ≠ normalForm declared.value then some value
      else none
  /-- Where no value is submitted, what was stored stays if it differs from the default. -/
  kept : ∀ name declared, catalog.find? name = some declared →
    lastSubmitted? submitted name = none →
    ∀ value, merged.get? name = some value ↔
      stored.get? name = some value ∧ normalForm value ≠ normalForm declared.value
  /-- No other names are merged in. -/
  declared : ∀ name, catalog.find? name = none → merged.get? name = none

section Merge

variable {catalog : Catalog} {name : Text} {declared : Variable}

/-- Of the values for a declared name those are accepted that can stand in a statement. -/
theorem lastValue?_accepted
    (isDeclared : catalog.find? name = some declared)
    (submitted : Overrides) :
    lastValue? (accepted catalog submitted.entries) name = lastSubmitted? submitted name := by
  unfold lastSubmitted?
  induction submitted.entries using List.reverseRecOn with
  | nil => rfl
  | append_singleton front entry inductionHypothesis =>
      have split : accepted catalog (front ++ [entry]) =
          accepted catalog front ++ (accepted? catalog entry.1 entry.2).toList := by
        unfold accepted
        rw [List.filterMap_append, List.filterMap_cons, List.filterMap_nil]
        cases accepted? catalog entry.1 entry.2 <;> rfl
      have last : lastValue? (accepted? catalog entry.1 entry.2).toList name =
          if cleanName entry.1 == name && !breaksStatement entry.2 then some entry.2.trim
          else none := by
        unfold accepted?
        rw [breaksStatement_trim]
        by_cases here : cleanName entry.1 = name
        · cases breaksStatement entry.2 <;> simp [here, isDeclared, lastValue?_singleton]
        · split <;> simp [here, lastValue?_singleton]
      rw [split, lastValue?_append, last, inductionHypothesis, List.filter_append,
        List.filter_singleton]
      cases cleanName entry.1 == name && !breaksStatement entry.2 with
      | true => simp
      | false => simp

theorem isHeld_iff
    (isDeclared : catalog.find? name = some declared)
    {value : Text} :
    isHeld catalog name value = true ↔
      normalForm value ≠ [] ∧ normalForm value ≠ normalForm declared.value := by
  simp [isHeld, differsFromDefault, isDeclared]

theorem isMerged_submit
    (catalog : Catalog)
    (stored submitted : Overrides) :
    IsMerged catalog stored submitted (submit catalog stored submitted) where
  replaced name declared value isDeclared isSubmitted := by
    rw [get?_submit, lastValue?_accepted isDeclared, isSubmitted]
    dsimp only
    rw [Option.filter_some]
    exact if_congr (isHeld_iff isDeclared) rfl rfl
  kept name declared isDeclared notSubmitted value := by
    rw [get?_submit, lastValue?_accepted isDeclared, notSubmitted]
    dsimp only
    rw [Option.filter_eq_some_iff, differsFromDefault, isDeclared, Option.any_some, bne_iff_ne]
  declared name undeclared := by
    rw [submit, SortedMap.get?_filter, Option.filter_eq_none_iff]
    intro value _
    rw [differsFromDefault, undeclared]
    exact Bool.false_ne_true

/-- Merging a submission again changes nothing. -/
theorem submit_submit
    (catalog : Catalog)
    (stored submitted : Overrides) :
    submit catalog (submit catalog stored submitted) submitted =
      submit catalog stored submitted := by
  apply SortedMap.eq_of_get?
  intro name
  rw [get?_submit, get?_submit]
  cases lastValue? (accepted catalog submitted.entries) name with
  | some value => rfl
  | none => simp [Option.filter_filter]

end Merge

end Overrides
end LessTheme
