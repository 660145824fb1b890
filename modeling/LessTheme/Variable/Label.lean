import LessTheme.Text.Capital

/-!
# Labels

A variable is shown to users under a label made from its name: the variable
`button-hover-color` of the unit `button` has the label `Hover Color`.
-/

namespace LessTheme

/-- The name of a variable without the name of its unit in front. -/
def nameInUnit (unit name : Text) : Text :=
  match List.isPrefixOf? unit name with
  | some ('-' :: rest) => if rest.isEmpty then name else rest
  | _ => name

/-- A word with a capital first letter. -/
def capitalized : Text → Text
  | [] => []
  | first :: rest => capital first ++ rest

/-- The label of a variable of a unit. -/
def label (unit name : Text) : Text :=
  let words := ((nameInUnit unit name).splitWhere (· == '-')).filter fun word => !word.isEmpty
  List.intercalate [' '] (words.map capitalized)

end LessTheme
