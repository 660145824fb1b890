import LessTheme.Program.Defaults
import LessTheme.Proofs.Collection.LastValue

/-!
# Last declarations

Of several declarations of one variable the last one counts.
-/

namespace LessTheme

/-- The value of the last one of some declarations of a variable. -/
def lastDeclaredIn?
    (found : List Declaration)
    (name : Text) : Option Text :=
  lastValue? (found.map Declaration.entry) name

/-- The value of the last declaration of a variable in a source. -/
def lastDeclared?
    (source name : Text) : Option Text :=
  lastDeclaredIn? (declarations source) name

@[simp] theorem lastDeclaredIn?_nil (name : Text) : lastDeclaredIn? [] name = none := rfl

/-- A declaration behind others wins over them. -/
@[simp] theorem lastDeclaredIn?_append
    (front back : List Declaration)
    (name : Text) :
    lastDeclaredIn? (front ++ back) name =
      (lastDeclaredIn? back name).or (lastDeclaredIn? front name) := by
  unfold lastDeclaredIn?
  rw [List.map_append, lastValue?_append]

/-- Declarations that are left out by their names leave the last ones of all other names. -/
theorem lastDeclaredIn?_filter
    (test : Text → Bool)
    (found : List Declaration)
    (name : Text) :
    lastDeclaredIn? (found.filter fun declaration => test declaration.name) name =
      if test name then lastDeclaredIn? found name else none := by
  unfold lastDeclaredIn?
  rw [← lastValue?_filter, List.filter_map]
  rfl

/-- Exactly the names that are declared have a last declaration. -/
theorem isSome_lastDeclaredIn?_iff
    {found : List Declaration}
    {name : Text} :
    (lastDeclaredIn? found name).isSome = true ↔ name ∈ found.map Declaration.name := by
  unfold lastDeclaredIn?
  rw [isSome_lastValue?_iff, List.map_map]
  rfl

theorem lastDeclaredIn?_eq_none
    {found : List Declaration}
    {name : Text}
    (undeclared : name ∉ found.map Declaration.name) :
    lastDeclaredIn? found name = none := by
  rw [← isSome_lastDeclaredIn?_iff, Bool.not_eq_true, Option.isSome_eq_false_iff] at undeclared
  exact Option.isNone_iff_eq_none.1 undeclared

end LessTheme
