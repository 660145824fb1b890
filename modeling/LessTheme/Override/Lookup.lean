import LessTheme.Collection.SortedMap

/-!
# Overrides as a unit sees them

Users override the values of variables unit by unit, and an override is seen
from every unit.  Where several units override one name, a unit's own value
comes first, then that of the first unit in order.
-/

namespace LessTheme

/-- The overriding values of one unit, by variable. -/
abbrev Overrides := SortedMap Text

/-- The overrides of all units. -/
abbrev OverrideTable := SortedMap Overrides

namespace Overrides

/-- Sets the values of another map on top. -/
def overlay (overrides top : Overrides) : Overrides := overrides.insertAll top.entries

end Overrides

/-- The overrides of the units that have some. -/
structure OverrideLookup where
  /-- The overrides by unit; none of them is empty. -/
  units : OverrideTable
  deriving DecidableEq

namespace OverrideLookup

/-- The lookup without overrides. -/
def empty : OverrideLookup := ⟨.empty⟩

/-- Sets the overrides of a unit; a unit without overrides is dropped. -/
def insert (lookup : OverrideLookup) (unit : Text) (overrides : Overrides) : OverrideLookup :=
  if overrides.isEmpty then ⟨lookup.units.erase unit⟩ else ⟨lookup.units.insert unit overrides⟩

/-- The overrides of all units but the given one, in order. -/
def others (lookup : OverrideLookup) (unit : Text) : List Overrides :=
  (lookup.units.erase unit).entries.map Prod.snd

/-- The overriding value of a variable, as a unit sees it. -/
def get? (lookup : OverrideLookup) (unit name : Text) : Option Text :=
  ((lookup.units.get? unit).bind fun own => own.get? name).or
    ((lookup.others unit).findSome? fun overrides => overrides.get? name)

/-- All overriding values, as a unit sees them. -/
def visibleFrom (lookup : OverrideLookup) (unit : Text) : Overrides :=
  let foreign : Overrides :=
    (lookup.others unit).foldr (fun overrides below => Overrides.overlay below overrides) .empty
  foreign.overlay ((lookup.units.get? unit).getD .empty)

/-- Whether no unit has overrides. -/
def isEmpty (lookup : OverrideLookup) : Bool := lookup.units.isEmpty

end OverrideLookup
end LessTheme
