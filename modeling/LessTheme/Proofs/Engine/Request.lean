import LessTheme.Engine.Saving

/-!
# Running requests

A request on an engine answers and leaves an engine.  The equations here run a
request step by step.
-/

namespace LessTheme
namespace Request

variable {Result Next : Type}

/-- What a request answers and the engine afterwards. -/
def on
    (request : Request Result)
    (engine : Engine) : Except ThemeError Result × Engine :=
  StateT.run (ExceptT.run request) engine

/-- The engine after a request, whatever the request answers. -/
def after
    (request : Request Result)
    (engine : Engine) : Engine :=
  (request.on engine).2

@[simp] theorem on_pure
    (result : Result)
    (engine : Engine) :
    on (pure result) engine = (.ok result, engine) := rfl

@[simp] theorem on_get
    (engine : Engine) :
    on get engine = (.ok engine, engine) := rfl

@[simp] theorem on_set
    (next engine : Engine) :
    on (set next) engine = (.ok (), next) := rfl

/-- A request is followed by the next one, unless it fails. -/
theorem on_bind
    (request : Request Result)
    (next : Result → Request Next)
    (engine : Engine) :
    on (request >>= next) engine =
      match request.on engine with
      | (.ok result, later) => (next result).on later
      | (.error error, later) => (.error error, later) := by
  change StateT.run (ExceptT.run request >>= ExceptT.bindCont next) engine = _
  rw [StateT.run_bind]
  unfold on
  cases StateT.run (ExceptT.run request) engine with
  | mk outcome later => cases outcome <;> rfl

/-- The next request runs on the engine that the first one leaves. -/
theorem on_bind_of_ok
    {request : Request Result}
    {next : Result → Request Next}
    {engine later : Engine}
    {result : Result}
    (answers : request.on engine = (.ok result, later)) :
    on (request >>= next) engine = (next result).on later := by
  rw [on_bind, answers]

/-- A request that fails ends all that was to follow. -/
theorem on_bind_of_error
    {request : Request Result}
    {next : Result → Request Next}
    {engine later : Engine}
    {error : ThemeError}
    (fails : request.on engine = (.error error, later)) :
    on (request >>= next) engine = (.error error, later) := by
  rw [on_bind, fails]

theorem on_discard_of_ok
    {request : Request Result}
    {engine later : Engine}
    {result : Result}
    (answers : request.on engine = (.ok result, later)) :
    on (discard request) engine = (.ok (), later) := by
  change on (request >>= fun _ => pure ()) engine = _
  rw [on_bind_of_ok answers, on_pure]

/-- What is made of an answer does not change the engine. -/
theorem after_bind_pure
    (request : Request Result)
    (finish : Result → Next)
    (engine : Engine) :
    after (request >>= fun result => pure (finish result)) engine = request.after engine := by
  unfold after
  rw [on_bind]
  cases request.on engine with
  | mk outcome later => cases outcome <;> rfl

theorem after_discard
    (request : Request Result)
    (engine : Engine) :
    after (discard request) engine = request.after engine :=
  after_bind_pure request (fun _ => ()) engine

/-- A question to the engine changes nothing. -/
@[simp] theorem on_ask
    (question : Engine → Except ThemeError Result)
    (engine : Engine) :
    on (Engine.ask question) engine = (question engine, engine) := by
  unfold Engine.ask
  rw [on_bind_of_ok (on_get engine)]
  cases question engine <;> rfl

end Request

namespace Engine

/-- A catalog is looked up in the cache, and nothing but the cache changes. -/
theorem on_cachedCatalog
    (unit : Text)
    (source : Engine → Except ThemeError Text)
    (engine : Engine) :
    (cachedCatalog unit source).on engine =
      ((engine.cache.lookUp unit fun _ => source engine).outcome,
        { engine with cache := (engine.cache.lookUp unit fun _ => source engine).cache }) := by
  unfold cachedCatalog
  rw [Request.on_bind_of_ok (Request.on_get engine),
    Request.on_bind_of_ok (Request.on_set _ engine), Request.on_ask]

/-- A change of the world leaves the theme and the cache as they are. -/
theorem on_changeWorld
    (change : World.Change)
    (engine : Engine) :
    (changeWorld change).on engine =
      ((change.run.run engine.world).1.mapError .world,
        { engine with world := (change.run.run engine.world).2 }) := by
  unfold changeWorld
  rw [Request.on_bind_of_ok (Request.on_get engine)]
  cases change.run.run engine.world with
  | mk outcome world => cases outcome <;> rfl

theorem on_changeWorld_of_ok
    {change : World.Change}
    {engine : Engine}
    {later : World}
    (runs : change.run.run engine.world = (.ok (), later)) :
    (changeWorld change).on engine = (.ok (), { engine with world := later }) := by
  rw [on_changeWorld, runs]
  rfl

end Engine

namespace Theme

/-- The text that the catalog of a unit is read from; global defaults need no file. -/
def catalogSource
    (theme : Theme)
    (files : FileTree)
    (unit : Text) : Except ThemeError Text :=
  if unit == theme.layout.globalUnit then theme.globals files else theme.unitText files unit

/-- The catalog of a unit as its file says it. -/
def catalogOf
    (theme : Theme)
    (files : FileTree)
    (unit : Text) : Except ThemeError Catalog :=
  (theme.catalogSource files unit).map (Catalog.read unit)

end Theme

namespace Engine

/-- The catalog of every unit is looked up in the cache, and its source is read if it is absent. -/
theorem on_catalog
    (unit : Text)
    (engine : Engine) :
    (catalog unit).on engine =
      ((engine.cache.lookUp unit fun _ => engine.theme.catalogSource engine.files unit).outcome,
        { engine with
          cache := (engine.cache.lookUp unit fun _ =>
            engine.theme.catalogSource engine.files unit).cache }) := by
  unfold catalog Theme.catalogSource
  rw [Request.on_bind_of_ok (Request.on_get engine)]
  split
  case isTrue isGlobal =>
    unfold globalCatalog
    rw [Request.on_bind_of_ok (Request.on_get engine), on_cachedCatalog, beq_iff_eq.1 isGlobal]
  case isFalse => rw [on_cachedCatalog]

theorem theme_after_catalog
    (engine : Engine)
    (unit : Text) :
    ((catalog unit).after engine).theme = engine.theme := by
  rw [Request.after, on_catalog]

theorem world_after_catalog
    (engine : Engine)
    (unit : Text) :
    ((catalog unit).after engine).world = engine.world := by
  rw [Request.after, on_catalog]

/-- A catalog that is not cached is read from the files. -/
theorem on_catalog_of_not_cached
    {unit : Text}
    {engine : Engine}
    (absent : engine.cache.get? unit = none) :
    ((catalog unit).on engine).1 = engine.theme.catalogOf engine.files unit := by
  rw [on_catalog, Cache.lookUp, absent, Theme.catalogOf]
  cases engine.theme.catalogSource engine.files unit <;> rfl

/-- The catalog of the global defaults is the one of the global unit. -/
theorem on_globalCatalog
    (engine : Engine) :
    globalCatalog.on engine = (catalog engine.theme.layout.globalUnit).on engine := by
  unfold catalog
  rw [Request.on_bind_of_ok (Request.on_get engine), if_pos (beq_self_eq_true _)]

end Engine
end LessTheme
