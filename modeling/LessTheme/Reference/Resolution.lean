import LessTheme.Reference.Cycle
import LessTheme.Reference.Substitution

/-!
# Resolving a whole map of values

All references of a map are resolved together.  Each pass replaces every
reference by the value that its variable had before the pass, until a pass
changes nothing or the limit is reached.  References to cyclic variables stay
as they are, and so does a value that would grow too long.
-/

namespace LessTheme
namespace Reference

/-- How many passes are made unless another limit is given. -/
def defaultPasses : Nat := 10

/-- The length in bytes that no value grows beyond. -/
def longestValue : Nat := 4096

/-- The value of a variable after a pass, given the names that are not expanded. -/
def passValue (fixed : List Text) (values : OrderedMap Text) (value : Text) : Text :=
  let expanded := substituteWith (fun name => if fixed.contains name then none else values.get? name) value
  if longestValue < expanded.byteLength && value.byteLength < expanded.byteLength then value
  else expanded

/-- The values after one more pass. -/
def pass (fixed : List Text) (values : OrderedMap Text) : OrderedMap Text :=
  values.mapValues fun _ value => passValue fixed values value

/-- The values after passes up to the limit, or until nothing changes. -/
def passes (fixed : List Text) : Nat → OrderedMap Text → OrderedMap Text
  | 0, values => values
  | limit + 1, values =>
      let next := pass fixed values
      if next = values then values else passes fixed limit next

/-- Resolves the references of a map of values with the given number of passes at most. -/
def resolveAll (values : OrderedMap Text) (limit : Nat) : OrderedMap Text :=
  passes (cyclicNames values) limit values

end Reference
end LessTheme
