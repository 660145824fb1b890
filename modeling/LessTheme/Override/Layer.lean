import LessTheme.Override.Lookup
import LessTheme.Text.Ascii
import LessTheme.Text.WhiteSpace

/-!
# Overrides as declarations

Overrides reach a stylesheet as declarations and the compiler as variables.
Either way names are cleaned, and an override that is empty or could break out
of its declaration is left out.
-/

namespace LessTheme

/-- The characters of a name that names may hold. -/
def cleanName (name : Text) : Text := name.filter isNameChar

/-- A mark that ends a statement. -/
def isStatementMark (char : Char) : Bool := char == ';' || char == '{' || char == '}'

/-- Whether a value would end the declaration that it stands in. -/
def breaksStatement (value : Text) : Bool := value.any isStatementMark

namespace Overrides

/-- The clean name and the trimmed value of an override that may be written. -/
def kept? (name value : Text) : Option (Text × Text) :=
  if (cleanName name).isEmpty || value.trim.isEmpty || breaksStatement value.trim then none
  else some (cleanName name, value.trim)

/-- The overrides that may be written, in the order of their names before cleaning. -/
def assigned (overrides : Overrides) : List (Text × Text) :=
  overrides.entries.filterMap fun entry => kept? entry.1 entry.2

/-- A declaration of a variable on a line. -/
def declarationLine (name value : Text) : Text := '@' :: (name ++ ": " ++ value ++ ";")

/--
Writes the trimmed value of an override under its clean name, unless one of the
two is empty or the value would break out of its declaration.
-/
def writeEntry (written : SortedMap Text) (entry : Text × Text) : SortedMap Text :=
  let clean := cleanName entry.1
  let value := entry.2.trim
  if clean.isEmpty || value.isEmpty then written
  else if breaksStatement value then written
  else written.insert clean value

/-- The overrides that stand in the layer, under their clean names. -/
def written (overrides : Overrides) : SortedMap Text :=
  overrides.entries.foldl writeEntry .empty

/-- The declarations of the overrides, in the order of their clean names. -/
def layer (overrides : Overrides) : Text :=
  List.intercalate ['\n']
    (overrides.written.entries.map fun entry => declarationLine entry.1 entry.2)

/-- An override is written in the layer exactly if it is kept for the compiler. -/
theorem writeEntry_eq (written : SortedMap Text) (entry : Text × Text) :
    writeEntry written entry = written.insertAll (kept? entry.1 entry.2).toList := by
  rw [writeEntry, kept?]
  cases (cleanName entry.1).isEmpty || entry.2.trim.isEmpty <;>
    cases breaksStatement entry.2.trim <;> rfl

/-- The layer holds what inserting the assigned overrides one after the other leads to. -/
theorem written_eq_ofList_assigned (overrides : Overrides) :
    overrides.written = SortedMap.ofList overrides.assigned := by
  have behind : ∀ (entries : List (Text × Text)) (written : SortedMap Text),
      entries.foldl writeEntry written =
        written.insertAll (entries.filterMap fun entry => kept? entry.1 entry.2) := by
    intro entries
    induction entries with
    | nil => exact fun _ => rfl
    | cons entry rest ih =>
        intro written
        rw [List.foldl_cons, ih, writeEntry_eq, List.filterMap_cons]
        cases kept? entry.1 entry.2 <;> rfl
  exact behind overrides.entries .empty

/-- The layer lists the assigned overrides. -/
theorem layer_eq_intercalate {overrides : Overrides} :
    overrides.layer = List.intercalate ['\n']
      ((SortedMap.ofList overrides.assigned).entries.map fun entry =>
        declarationLine entry.1 entry.2) := by
  rw [layer, written_eq_ofList_assigned]

end Overrides
end LessTheme
