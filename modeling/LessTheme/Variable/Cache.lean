import LessTheme.Collection.SortedMap
import LessTheme.Variable.Catalog

/-!
# Cached catalogs

Catalogs are read once and kept until their unit is invalidated.
-/

namespace LessTheme

/-- The catalogs read so far, by unit. -/
abbrev Cache := SortedMap Catalog

namespace Cache

/-- What looking up a catalog gives. -/
structure Lookup (Cause : Type) where
  /-- The catalog, or why its source cannot be read. -/
  outcome : Except Cause Catalog
  /-- The cache afterwards. -/
  cache : Cache
  /-- Whether the source was asked for. -/
  asked : Bool

/--
The catalog of a unit, from the cache or else from its source.  The source is
asked for only if the catalog is not cached, and a failure caches nothing.
-/
def lookUp {Cause : Type} (cache : Cache) (unit : Text) (source : Unit → Except Cause Text) :
    Lookup Cause :=
  match cache.get? unit with
  | some catalog => ⟨.ok catalog, cache, false⟩
  | none =>
      match source () with
      | .ok text => ⟨.ok (Catalog.read unit text), cache.insert unit (Catalog.read unit text), true⟩
      | .error cause => ⟨.error cause, cache, true⟩

/-- Keeps a catalog under the name of its unit. -/
def store (cache : Cache) (catalog : Catalog) : Cache := cache.insert catalog.unit catalog

end Cache
end LessTheme
