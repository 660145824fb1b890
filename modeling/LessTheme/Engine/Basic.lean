import LessTheme.Compiler.Job
import LessTheme.Lowering.Pipeline
import LessTheme.Override.Normal
import LessTheme.Program.Assembly
import LessTheme.Program.Defaults
import LessTheme.Program.Fallback
import LessTheme.Variable.Cache
import LessTheme.Variable.Resolver
import LessTheme.World.Store

/-!
# Requests on a theme

An engine holds a theme, the world outside and the catalogs read so far.  The
stored overrides are read anew for every request, so each request sees the
last saved state.  Catalogs are kept until their unit is invalidated.
-/

namespace LessTheme

/-- A theme with its stored overrides and cached catalogs. -/
structure Engine where
  /-- The theme. -/
  theme : Theme
  /-- How the fallback properties are made. -/
  fallback : Fallback
  /-- The files and the stored overrides. -/
  world : World
  /-- The catalogs read so far. -/
  cache : Cache

/-- A request may fail, and it may change the engine in either case. -/
abbrev Request (Result : Type) := ExceptT ThemeError (StateM Engine) Result

namespace Engine

/-- The engine of a theme in a world, with nothing cached. -/
def start (theme : Theme) (fallback : Fallback) (world : World) : Engine :=
  ⟨theme, fallback, world, .empty⟩

/-- The files that the theme is read from. -/
def files (engine : Engine) : FileTree := engine.world.files

/-! ## Questions that change nothing -/

/-- The units that can be compiled, in order. -/
def units (engine : Engine) : List Text := engine.theme.units engine.files

/-- The stored overrides of all units, the global defaults included. -/
def overrideLookup (engine : Engine) : Except ThemeError OverrideLookup :=
  (engine.units ++ [engine.theme.layout.globalUnit]).foldlM (fun lookup unit =>
    ((engine.world.overridesOf unit).map (lookup.insert unit)).mapError .world) .empty

/-- The stored overrides, as a unit sees them. -/
def effectiveOverrides (engine : Engine) (unit : Text) : Except ThemeError Overrides :=
  engine.overrideLookup.map fun lookup => lookup.visibleFrom unit

/-- The program of a unit under the stored overrides. -/
def assemble (engine : Engine) (unit : Text) : Except ThemeError Program := do
  engine.theme.assemble engine.files unit (← engine.effectiveOverrides unit)

/-- The lowered program of a unit. -/
def lowered (engine : Engine) (unit : Text) : Except ThemeError Lowering.Lowered :=
  (engine.assemble unit).map fun program => Lowering.lower program.source

/-- The job of compiling a unit under unsaved overrides; a missing compiler is noticed first. -/
def compileJob (engine : Engine) (compiler : Compiler) (unit : Text) (pending : Overrides) :
    Except ThemeError Job := do
  compiler.require
  return .make (← engine.lowered unit) pending

/-- The block of fallback properties. -/
def fallbackCss (engine : Engine) : Except ThemeError Text := do
  let defaults ← engine.theme.defaults engine.files
  let overrides ← engine.effectiveOverrides engine.theme.layout.globalUnit
  return engine.fallback.css defaults overrides

/-! ## Catalogs -/

/-- Asks a question that changes nothing. -/
def ask {Answer : Type} (question : Engine → Except ThemeError Answer) : Request Answer := do
  match question (← get) with
  | .ok answer => return answer
  | .error error => throw error

/-- The catalog of a unit, from the cache or else from its source. -/
def cachedCatalog (unit : Text) (source : Engine → Except ThemeError Text) : Request Catalog := do
  let engine ← get
  let looked := engine.cache.lookUp unit fun _ => source engine
  set { engine with cache := looked.cache }
  ask fun _ => looked.outcome

/-- The catalog of the global defaults; it is empty if there is no file. -/
def globalCatalog : Request Catalog := do
  let engine ← get
  cachedCatalog engine.theme.layout.globalUnit fun engine => engine.theme.globals engine.files

/-- The catalog of a unit, which may be that of the global defaults. -/
def catalog (unit : Text) : Request Catalog := do
  let engine ← get
  if unit == engine.theme.layout.globalUnit then globalCatalog
  else cachedCatalog unit fun engine => engine.theme.unitText engine.files unit

/-- Drops the catalog of a unit; says whether there was one. -/
def invalidate (unit : Text) : Request Bool := do
  let engine ← get
  set { engine with cache := engine.cache.erase unit }
  return engine.cache.contains unit

/-- Drops all catalogs. -/
def clearCache : Request Unit := modify fun engine => { engine with cache := .empty }

/-! ## Resolution -/

/-- A resolver over the stored overrides as they are now. -/
def resolver : Request Resolver := do
  let overrides ← ask overrideLookup
  return ⟨← globalCatalog, overrides⟩

/-- The resolved value of a name, as a unit sees it. -/
def resolve (unit name : Text) : Request Text := do
  let resolver ← resolver
  return resolver.resolve (← catalog unit) name defaultBudget

/-- Every variable of a unit with its effective and its resolved value. -/
def inspect (unit : Text) : Request (List ResolvedVariable) := do
  let resolver ← resolver
  return resolver.resolveCatalog (← catalog unit)

/-- The resolved values of a unit, by name. -/
def exported (unit : Text) : Request Overrides := do
  let inspected ← inspect unit
  return .ofList (inspected.map fun found => (found.declared.name, found.resolved))

end Engine
end LessTheme
