import LessTheme.Json.Object
import LessTheme.Json.Printing
import LessTheme.Override.Lookup
import LessTheme.Text.WhiteSpace

/-!
# Overrides as JSON

The overrides of a unit are an object of strings, and the overrides of all
units are an object of such objects.  The keys stand in order.  Of a key that
is given twice the last value is read.
-/

namespace LessTheme

namespace Overrides

/-- The overrides of a unit as an object. -/
def print (depth : Nat) (overrides : Overrides) : Text :=
  Json.object depth (overrides.entries.map fun entry => (entry.1, Json.quoted entry.2))

/-- Reads the overrides of a unit. -/
def reader : Reader Overrides := Reader.map SortedMap.ofList (Json.object? Json.string?)

/-- The overrides that a text writes. -/
def read? (text : Text) : Option Overrides := Json.whole? reader text

end Overrides

namespace OverrideTable

/-- The overrides of all units as an object. -/
def print (table : OverrideTable) : Text :=
  Json.object 0 (table.entries.map fun entry => (entry.1, entry.2.print 1))

/-- Reads the overrides of all units. -/
def reader : Reader OverrideTable :=
  Reader.map SortedMap.ofList (Json.object? Overrides.reader)

/-- The overrides of all units that a text writes.  A blank text writes none. -/
def read? (text : Text) : Option OverrideTable :=
  if text.isBlank then some .empty else Json.whole? reader text

end OverrideTable
end LessTheme
