import LessTheme.Collection.OrderedMap
import LessTheme.Reference.Fragment

/-!
# Reference cycles

A variable is cyclic if its value leads back to it through references.  The
variables that a value leads to are collected until no new one is found, which
takes no more rounds than there are variables.
-/

namespace LessTheme
namespace Reference

/-- The declared variables that the value of a variable refers to. -/
def targets (values : OrderedMap Text) (name : Text) : List Text :=
  (((values.get? name).map referencedNames).getD []).filter values.contains

/-- The names of a list and those that they refer to, each once. -/
def widen (values : OrderedMap Text) (names : List Text) : List Text :=
  (names ++ names.flatMap (targets values)).eraseDups

/-- Widens a list of names until nothing is added, at most the given number of times. -/
def closure (values : OrderedMap Text) : Nat → List Text → List Text
  | 0, names => names
  | rounds + 1, names =>
      let wider := widen values names
      if wider.length = names.length then names else closure values rounds wider

/-- The variables that a variable leads to through one or more references. -/
def reachable (values : OrderedMap Text) (name : Text) : List Text :=
  closure values values.size (targets values name).eraseDups

/-- Whether a variable leads back to itself. -/
def isCyclic (values : OrderedMap Text) (name : Text) : Bool :=
  (reachable values name).contains name

/-- The variables that lead back to themselves. -/
def cyclicNames (values : OrderedMap Text) : List Text := values.keys.filter (isCyclic values)

end Reference
end LessTheme
