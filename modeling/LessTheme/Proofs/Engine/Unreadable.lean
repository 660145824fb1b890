import LessTheme.Proofs.Engine.Run
import LessTheme.Proofs.World.StoreCall

/-!
# Overrides that cannot be read

A file of overrides that cannot be understood is never written.  Every change
of the store and every question about overrides reads the whole file first,
and so all of them fail and leave the file as it is.
-/

namespace LessTheme

/-! ## The store -/

namespace StoreCall

/-- A store that cannot be read answers no call and is not changed by any. -/
theorem on_of_table_eq_error
    {world : World}
    {fault : WorldFault}
    (broken : world.table = .error fault)
    (call : StoreCall) :
    call.on world = (.error fault, world) := by
  cases call with
  | get unit =>
      change ((world.overridesOf unit).map StoreAnswer.found, world) = _
      rw [World.overridesOf_of_table_eq_error broken]
      rfl
  | set unit overrides =>
      change Prod.map _ id ((World.setOverrides unit overrides).run.run world) = _
      rw [World.setOverrides_of_table_eq_error broken]
      rfl
  | remove unit =>
      change Prod.map _ id ((World.removeOverrides unit).run.run world) = _
      rw [World.removeOverrides_of_table_eq_error broken]
      rfl

end StoreCall

/-! ## Requests that fail -/

namespace Request

variable {Result Next : Type} {engine : Engine}

/-- The request fails, and it leaves the world as it was. -/
def Fails
    (request : Request Result)
    (engine : Engine) : Prop :=
  ∃ error later, request.on engine = (.error error, later) ∧ later.world = engine.world

theorem fails_ask
    {question : Engine → Except ThemeError Result}
    {error : ThemeError}
    (unanswered : question engine = .error error) :
    Fails (Engine.ask question) engine :=
  ⟨error, engine, by rw [on_ask, unanswered], rfl⟩

theorem Fails.bind
    {request : Request Result}
    (fails : request.Fails engine)
    (next : Result → Request Next) :
    Fails (request >>= next) engine := by
  obtain ⟨error, later, answers, sameWorld⟩ := fails
  exact ⟨error, later, on_bind_of_error answers, sameWorld⟩

theorem Fails.discard
    {request : Request Result}
    (fails : request.Fails engine) :
    Fails (discard request) engine :=
  fails.bind fun _ => pure ()

/-- A request fails if what follows its first step does, and the first step leaves the world. -/
theorem fails_bind
    {request : Request Result}
    {next : Result → Request Next}
    (sameWorld : (request.after engine).world = engine.world)
    (nextFails : ∀ result, (next result).Fails (request.after engine)) :
    Fails (request >>= next) engine := by
  cases runs : request.on engine with
  | mk outcome later =>
      have isLater : request.after engine = later := by rw [after, runs]
      rw [isLater] at sameWorld nextFails
      cases outcome with
      | error error => exact ⟨error, later, on_bind_of_error runs, sameWorld⟩
      | ok result =>
          obtain ⟨error, last, answers, sameLast⟩ := nextFails result
          exact ⟨error, last, (on_bind_of_ok runs).trans answers, sameLast.trans sameWorld⟩

end Request

/-! ## Uses of an engine and of its store -/

/-- A use of an engine, or of its store behind the engine. -/
inductive Access
  /-- A call of the store. -/
  | ofStore (call : StoreCall)
  /-- A call of the engine; applying an export is saving it. -/
  | ofEngine (call : Call)
  /-- Resolving a name, as a unit sees it. -/
  | resolve (unit name : Text)
  /-- Assembling a unit. -/
  | assemble (unit : Text)
  /-- Making the fallback properties. -/
  | fallbackCss

/-- Makes a call of the store behind an engine. -/
def Engine.callStore (call : StoreCall) : Request StoreAnswer := do
  let engine ← get
  set { engine with world := (call.on engine.world).2 }
  ask fun _ => (call.on engine.world).1.mapError .world

namespace Access

/-- The request that a use makes. -/
def request : Access → Request Unit
  | .ofStore call => discard (Engine.callStore call)
  | .ofEngine call => call.request
  | .resolve unit name => discard (Engine.resolve unit name)
  | .assemble unit => discard (Engine.ask fun engine => engine.assemble unit)
  | .fallbackCss => discard (Engine.ask Engine.fallbackCss)

end Access

namespace Engine

/-- The engine after some uses, failing ones included. -/
def afterAccesses
    (engine : Engine)
    (accesses : List Access) : Engine :=
  accesses.foldl (fun engine access => access.request.after engine) engine

/-- Whether each of some uses succeeds, or else the error. -/
def outcomes : Engine → List Access → List (Except ThemeError Unit)
  | _, [] => []
  | engine, access :: rest =>
      (access.request.on engine).1 :: outcomes (access.request.after engine) rest

variable {engine : Engine} {fault : WorldFault}

theorem overrideLookup_of_table_eq_error (broken : engine.world.table = .error fault) :
    engine.overrideLookup = .error (.world fault) := by
  have unread : ∀ unit (lookup : OverrideLookup),
      ((engine.world.overridesOf unit).map (lookup.insert unit)).mapError ThemeError.world =
        .error (.world fault) := by
    intro unit lookup
    rw [World.overridesOf_of_table_eq_error broken]
    rfl
  unfold overrideLookup
  -- The global unit is always asked for, so at least one unit is.
  cases engine.units with
  | nil =>
      rw [List.nil_append, List.foldlM_cons, unread]
      rfl
  | cons unit rest =>
      rw [List.cons_append, List.foldlM_cons, unread]
      rfl

theorem effectiveOverrides_of_table_eq_error
    (broken : engine.world.table = .error fault)
    (unit : Text) :
    engine.effectiveOverrides unit = .error (.world fault) := by
  rw [effectiveOverrides, overrideLookup_of_table_eq_error broken]
  rfl

theorem fails_resolver (broken : engine.world.table = .error fault) :
    resolver.Fails engine :=
  (Request.fails_ask (overrideLookup_of_table_eq_error broken)).bind _

theorem fails_reset
    (broken : engine.world.table = .error fault)
    (unit : Text) :
    (reset unit).Fails engine := by
  refine Request.Fails.bind ⟨.world fault, engine, ?_, rfl⟩ _
  rw [on_changeWorld, World.removeOverrides_of_table_eq_error broken]
  rfl

/-- Saving reads the catalog first, which may be cached then but leaves the world. -/
theorem fails_save
    (broken : engine.world.table = .error fault)
    (unit : Text)
    (submitted : Overrides) :
    (save unit submitted).Fails engine := by
  have sameWorld := world_after_catalog engine unit
  have unread : (((catalog unit).after engine).world.overridesOf unit).mapError ThemeError.world =
      .error (.world fault) := by
    rw [sameWorld, World.overridesOf_of_table_eq_error broken]
    rfl
  refine Request.fails_bind sameWorld fun found => ?_
  apply Request.Fails.bind
  exact Request.fails_ask unread

theorem fallbackCss_of_table_eq_error (broken : engine.world.table = .error fault) :
    ∃ error, engine.fallbackCss = .error error := by
  unfold fallbackCss
  cases engine.theme.defaults engine.files with
  | error error => exact ⟨error, rfl⟩
  | ok defaults =>
      rw [effectiveOverrides_of_table_eq_error broken]
      exact ⟨.world fault, rfl⟩

/-- Every use of overrides that cannot be read fails and leaves the world as it was. -/
theorem fails_access
    (broken : engine.world.table = .error fault)
    (access : Access) :
    access.request.Fails engine := by
  cases access with
  | ofStore call =>
      refine Request.Fails.discard ⟨.world fault, engine, ?_, rfl⟩
      unfold callStore
      rw [Request.on_bind_of_ok (Request.on_get engine), StoreCall.on_of_table_eq_error broken,
        Request.on_bind_of_ok (Request.on_set _ engine), Request.on_ask]
      rfl
  | ofEngine call =>
      cases call with
      | save unit submitted => exact (fails_save broken unit submitted).discard
      | reset unit => exact fails_reset broken unit
      | inspect unit => exact ((fails_resolver broken).bind _).discard
  | resolve unit name => exact ((fails_resolver broken).bind _).discard
  | assemble unit =>
      have unread : engine.assemble unit = .error (.world fault) := by
        unfold assemble
        rw [effectiveOverrides_of_table_eq_error broken]
        rfl
      apply Request.Fails.discard
      exact Request.fails_ask unread
  | fallbackCss =>
      obtain ⟨error, unanswered⟩ := fallbackCss_of_table_eq_error broken
      exact (Request.fails_ask unanswered).discard

/--
While the file of overrides cannot be read or understood, every use of the
store and of an engine over it fails, and no file changes, whatever the uses
are and whatever catalogs have been read before.
-/
theorem outcomes_are_errors_and_world_stays
    {files : FileTree}
    {path : Text}
    {fault : WorldFault}
    (broken : World.tableIn files path = .error fault)
    (engine : Engine)
    (overFile : engine.world = ⟨files, .file path⟩)
    (accesses : List Access) :
    (∀ outcome ∈ engine.outcomes accesses, ∃ error, outcome = .error error) ∧
      (engine.afterAccesses accesses).world = ⟨files, .file path⟩ := by
  induction accesses generalizing engine with
  | nil => exact ⟨by simp [outcomes], overFile⟩
  | cons access rest inductionHypothesis =>
      have brokenHere : engine.world.table = .error fault := by
        rw [overFile]
        exact broken
      obtain ⟨error, later, answers, sameWorld⟩ := fails_access brokenHere access
      have isLater : access.request.after engine = later := by rw [Request.after, answers]
      obtain ⟨restFails, restStays⟩ := inductionHypothesis later (sameWorld.trans overFile)
      constructor
      · intro outcome member
        rw [outcomes, isLater, answers] at member
        obtain rfl | later := List.mem_cons.1 member
        · exact ⟨error, rfl⟩
        · exact restFails outcome later
      · rw [afterAccesses, List.foldl_cons, isLater]
        exact restStays

/-- A file that is no text, under calls that would each write the file otherwise. -/
theorem outcomes_are_errors_and_world_stays_sample :
    let files := Sample.files.put "overrides.json" [0x7b, 0xff]
    let engine := start Sample.theme .builtIn ⟨files, .file "overrides.json"⟩
    let accesses : List Access := [
      .ofStore (.set "card" (.ofList [("card", "2px")])),
      .ofEngine (.save "card" (.ofList [("card", "2px")])),
      .fallbackCss,
      .ofStore (.remove "card"),
      .ofEngine (.reset "card")]
    World.tableIn files "overrides.json" =
        .error (.file (.notText "overrides.json" ⟨1, some 1⟩)) ∧
      (∀ outcome ∈ engine.outcomes accesses, ∃ error, outcome = .error error) ∧
      (engine.afterAccesses accesses).files.read "overrides.json" = .ok [0x7b, 0xff] := by
  intro files engine accesses
  have broken : World.tableIn files "overrides.json" =
      .error (.file (.notText "overrides.json" ⟨1, some 1⟩)) := by
    decide
  obtain ⟨allFail, stays⟩ := outcomes_are_errors_and_world_stays broken engine rfl accesses
  refine ⟨broken, allFail, ?_⟩
  rw [Engine.files, stays]
  decide

end Engine
end LessTheme
