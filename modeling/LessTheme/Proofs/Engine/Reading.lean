import LessTheme.Proofs.Engine.Request
import LessTheme.Proofs.Variable.Export

/-!
# Requests that only read

A request that only reads answers what the theme and the world say, and it
changes nothing but the cache.  The cache stays coherent: it holds nothing but
what the files say.
-/

namespace LessTheme
namespace Engine

/-- The cache holds nothing but what the files say. -/
def IsCoherent (engine : Engine) : Prop :=
  ∀ unit found, engine.cache.get? unit = some found →
    engine.theme.catalogOf engine.files unit = .ok found

/-- A new engine has read nothing. -/
theorem isCoherent_start
    (theme : Theme)
    (fallback : Fallback)
    (world : World) :
    (start theme fallback world).IsCoherent := by
  intro unit found cached
  contradiction

/-- A coherent cache stays so when a catalog is forgotten. -/
theorem IsCoherent.erase
    {engine : Engine}
    (coherent : engine.IsCoherent)
    (unit : Text) :
    IsCoherent { engine with cache := engine.cache.erase unit } := by
  intro other found cached
  apply coherent other found
  change (engine.cache.erase unit).get? other = some found at cached
  rw [SortedMap.get?_erase] at cached
  split at cached
  · contradiction
  · exact cached

/-- The cache does not notice a change that leaves what catalogs are read from. -/
theorem IsCoherent.withWorld
    {engine : Engine}
    (coherent : engine.IsCoherent)
    {later : World}
    (same : ∀ unit, engine.theme.catalogOf later.files unit =
      engine.theme.catalogOf engine.files unit) :
    IsCoherent { engine with world := later } := by
  intro unit found cached
  change engine.theme.catalogOf later.files unit = _
  rw [same, coherent unit found cached]

end Engine

namespace Request

variable {Result Next : Type}

/-- The request answers what the theme and the world say, and changes nothing but the cache. -/
def Reads
    (request : Request Result)
    (answer : Theme → World → Except ThemeError Result) : Prop :=
  ∀ engine : Engine, engine.IsCoherent →
    ∃ cache,
      request.on engine = (answer engine.theme engine.world, { engine with cache := cache }) ∧
      Engine.IsCoherent { engine with cache := cache }

theorem reads_pure (result : Result) :
    Reads (pure result) fun _ _ => .ok result :=
  fun engine coherent => ⟨engine.cache, rfl, coherent⟩

/-- A request that reads, followed by one that reads, is one that reads. -/
theorem Reads.bind
    {request : Request Result}
    {next : Result → Request Next}
    {answer : Theme → World → Except ThemeError Result}
    {nextAnswer : Result → Theme → World → Except ThemeError Next}
    (reads : request.Reads answer)
    (nextReads : ∀ result, (next result).Reads (nextAnswer result)) :
    Reads (request >>= next) fun theme world =>
      answer theme world >>= fun result => nextAnswer result theme world := by
  intro engine coherent
  obtain ⟨cache, answers, coherentAfter⟩ := reads engine coherent
  dsimp only
  cases outcome : answer engine.theme engine.world with
  | error error =>
      rw [outcome] at answers
      exact ⟨cache, on_bind_of_error answers, coherentAfter⟩
  | ok result =>
      rw [outcome] at answers
      obtain ⟨later, answersNext, coherentLater⟩ := nextReads result _ coherentAfter
      exact ⟨later, (on_bind_of_ok answers).trans answersNext, coherentLater⟩

theorem Reads.congr
    {request : Request Result}
    {answer other : Theme → World → Except ThemeError Result}
    (reads : request.Reads answer)
    (same : ∀ theme world, answer theme world = other theme world) :
    request.Reads other := by
  intro engine coherent
  obtain ⟨cache, answers, coherentAfter⟩ := reads engine coherent
  exact ⟨cache, by rw [answers, same], coherentAfter⟩

/-- A question that only the theme and the world answer is one that reads. -/
theorem reads_ask
    {question : Engine → Except ThemeError Result}
    {answer : Theme → World → Except ThemeError Result}
    (same : ∀ engine, question engine = answer engine.theme engine.world) :
    Reads (Engine.ask question) answer := by
  intro engine coherent
  refine ⟨engine.cache, ?_, coherent⟩
  rw [on_ask, same]

/-- The catalog of a unit is what its file says, from the cache as well as from the file. -/
theorem reads_catalog (unit : Text) :
    Reads (Engine.catalog unit) fun theme world => theme.catalogOf world.files unit := by
  intro engine coherent
  rw [Engine.on_catalog]
  unfold Cache.lookUp Theme.catalogOf
  cases cached : engine.cache.get? unit with
  | some found =>
      have fresh := coherent unit found cached
      refine ⟨engine.cache, ?_, coherent⟩
      change _ = (engine.theme.catalogOf engine.files unit, _)
      rw [fresh]
  | none =>
      dsimp only
      cases source : engine.theme.catalogSource engine.files unit with
      | error cause =>
          refine ⟨engine.cache, ?_, coherent⟩
          change _ = (Except.map _ (engine.theme.catalogSource engine.files unit), _)
          rw [source]
          rfl
      | ok text =>
          refine ⟨engine.cache.insert unit (Catalog.read unit text), ?_, ?_⟩
          · change _ = (Except.map _ (engine.theme.catalogSource engine.files unit), _)
            rw [source]
            rfl
          · intro other found stored
            change (engine.cache.insert unit (Catalog.read unit text)).get? other = some found
              at stored
            rw [SortedMap.get?_insert] at stored
            split at stored
            case isTrue same =>
              obtain rfl := Option.some.inj stored
              rw [← same]
              change Except.map _ (engine.theme.catalogSource engine.files unit) = _
              rw [source]
              rfl
            case isFalse => exact coherent other found stored

theorem reads_globalCatalog :
    Reads Engine.globalCatalog fun theme world =>
      theme.catalogOf world.files theme.layout.globalUnit := by
  intro engine coherent
  rw [Engine.on_globalCatalog]
  exact reads_catalog _ engine coherent

end Request

/-! ## Exports -/

namespace Theme

/-- The stored overrides of all units. -/
def lookupOf
    (theme : Theme)
    (world : World) : Except ThemeError OverrideLookup :=
  (Engine.start theme .builtIn world).overrideLookup

/-- The resolver over the stored overrides. -/
def resolverOf
    (theme : Theme)
    (world : World) : Except ThemeError Resolver := do
  let overrides ← theme.lookupOf world
  return ⟨← theme.catalogOf world.files theme.layout.globalUnit, overrides⟩

end Theme

namespace Request

/-- A resolver is made of the stored overrides and the global defaults. -/
theorem reads_resolver :
    Reads Engine.resolver Theme.resolverOf := by
  have readsLookup : Reads (Engine.ask Engine.overrideLookup) Theme.lookupOf :=
    reads_ask fun _ => rfl
  exact readsLookup.bind fun overrides => reads_globalCatalog.bind fun globals =>
    reads_pure (Resolver.mk globals overrides)

/-- Inspecting a unit resolves every variable of its catalog. -/
theorem reads_inspect (unit : Text) :
    Reads (Engine.inspect unit) fun theme world => do
      let resolver ← theme.resolverOf world
      return resolver.resolveCatalog (← theme.catalogOf world.files unit) := by
  exact reads_resolver.bind fun resolver => (reads_catalog unit).bind fun catalog =>
    reads_pure (resolver.resolveCatalog catalog)

/-- An export lists what inspecting the unit shows. -/
theorem reads_exported (unit : Text) :
    Reads (Engine.exported unit) fun theme world => do
      let resolver ← theme.resolverOf world
      return resolver.exported (← theme.catalogOf world.files unit) := by
  have reads := (reads_inspect unit).bind fun inspected =>
    reads_pure (SortedMap.ofList (inspected.map fun found =>
      (found.declared.name, found.resolved)))
  refine reads.congr fun theme world => ?_
  simp only [bind_assoc, pure_bind]
  rfl

end Request
end LessTheme
