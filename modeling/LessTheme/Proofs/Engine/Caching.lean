import Mathlib.Data.List.Induction
import LessTheme.Proofs.Collection.SortedMap
import LessTheme.Proofs.Engine.SaveCourse
import LessTheme.Proofs.Program.Assembly

/-!
# Cached catalogs over a run

In a run an engine answers calls while the world outside changes at will.  A
catalog says what the file of its unit held when it was read first since the
unit was forgotten last, whatever the file holds by now.  A call looks up the
catalogs of some units in turn; this alone fills the cache, and only for the
unit of the call and for the global defaults.
-/

namespace LessTheme

/-! ## Files -/

namespace Theme

variable {theme : Theme} {files : FileTree} {unit text : Text}

/-- The file of a unit holds a text.  Global defaults without file hold the empty text. -/
def FileHolds
    (theme : Theme)
    (files : FileTree)
    (unit text : Text) : Prop :=
  if files.isFile (theme.unitPath unit) = true then
    (unit = theme.layout.globalUnit ∨ isUnitName unit = true) ∧
      files.readText (theme.unitPath unit) = .ok text
  else unit = theme.layout.globalUnit ∧ text = []

/-- Catalogs are read from what the files of their units hold. -/
theorem catalogSource_eq_ok_iff :
    theme.catalogSource files unit = .ok text ↔ theme.FileHolds files unit text := by
  unfold catalogSource FileHolds
  by_cases isGlobal : unit = theme.layout.globalUnit
  · rw [if_pos (beq_iff_eq.2 isGlobal), globals, layerText, layerText?, isGlobal]
    change Except.map _ (if files.isFile (theme.unitPath theme.layout.globalUnit) = true then _
      else _) = _ ↔ _
    split
    · change Except.map _
        (((files.readText (theme.unitPath theme.layout.globalUnit)).map some).mapError _) = _ ↔ _
      cases files.readText (theme.unitPath theme.layout.globalUnit) <;>
        simp [Except.map, Except.mapError]
    · simp [Except.map, eq_comm]
  · rw [if_neg (by simpa using isGlobal), unitText]
    by_cases present : files.isFile (theme.unitPath unit) = true
    · by_cases isName : isUnitName unit = true
      · simp [present, isName, Outcome.mapError_eq_ok_iff]
      · simp [isName, isGlobal, present]
    · simp [present, isGlobal]

end Theme

namespace Engine

/-! ## Looking up catalogs -/

/-- What the file of a unit holds now. -/
def fileText?
    (engine : Engine)
    (unit : Text) : Option Text :=
  (engine.theme.catalogSource engine.files unit).toOption

theorem fileText?_eq_some_iff
    {engine : Engine}
    {unit text : Text} :
    engine.fileText? unit = some text ↔ engine.theme.FileHolds engine.files unit text := by
  rw [← Theme.catalogSource_eq_ok_iff, fileText?]
  cases engine.theme.catalogSource engine.files unit <;> simp [Except.toOption]

/-- The engine after the catalog of a unit was looked up. -/
def lookedUp
    (engine : Engine)
    (unit : Text) : Engine :=
  (catalog unit).after engine

theorem lookedUp_eq
    (engine : Engine)
    (unit : Text) :
    engine.lookedUp unit =
      { engine with
        cache := (engine.cache.lookUp unit fun _ =>
          engine.theme.catalogSource engine.files unit).cache } := by
  rw [lookedUp, Request.after, on_catalog]

theorem fileText?_lookedUp
    (engine : Engine)
    (unit other : Text) :
    (engine.lookedUp unit).fileText? other = engine.fileText? other := by
  rw [lookedUp_eq]
  rfl

/-- Looking up a catalog caches it, if its file can be read and it is not cached yet. -/
theorem get?_cache_lookedUp
    (engine : Engine)
    (unit other : Text) :
    (engine.lookedUp unit).cache.get? other =
      (engine.cache.get? other).or
        (if other = unit then (engine.fileText? unit).map (Catalog.read unit) else none) := by
  rw [lookedUp_eq]
  dsimp only
  unfold Cache.lookUp fileText?
  cases cached : engine.cache.get? unit with
  | some found =>
      dsimp only
      split
      case isTrue same => rw [same, cached, Option.some_or]
      case isFalse => rw [Option.or_none]
  | none =>
      dsimp only
      cases engine.theme.catalogSource engine.files unit with
      | error cause => simp [Except.toOption]
      | ok text =>
          dsimp only
          rw [SortedMap.get?_insert]
          by_cases same : other = unit
          · rw [if_pos same.symm, if_pos same, same, cached]
            rfl
          · rw [if_neg (Ne.symm same), if_neg same, Option.or_none]

theorem get?_cache_foldl_lookedUp
    (engine : Engine)
    (units : List Text)
    (other : Text) :
    (units.foldl lookedUp engine).cache.get? other =
      (engine.cache.get? other).or
        (if other ∈ units then (engine.fileText? other).map (Catalog.read other) else none) := by
  induction units generalizing engine with
  | nil => simp
  | cons unit rest inductionHypothesis =>
      rw [List.foldl_cons, inductionHypothesis, get?_cache_lookedUp, fileText?_lookedUp,
        Option.or_assoc]
      congr 1
      by_cases same : other = unit
      · rw [if_pos same, if_pos (List.mem_cons.2 (.inl same)), same]
        cases engine.fileText? unit <;> simp
      · simp [same]

end Engine

/-! ## Calls -/

/-- A call that may look up catalogs or forget them. -/
inductive CatalogCall
  /-- Asking for the catalog of a unit. -/
  | catalog (unit : Text)
  /-- Asking for the catalog of the global defaults. -/
  | globalCatalog
  /-- Asking for a resolver. -/
  | resolver
  /-- Looking at the variables of a unit. -/
  | inspect (unit : Text)
  /-- Resolving a name, as a unit sees it. -/
  | resolve (unit name : Text)
  /-- Saving submitted overrides of a unit. -/
  | save (unit : Text) (submitted : Overrides)
  /-- Removing the overrides of a unit. -/
  | reset (unit : Text)
  /-- Dropping the catalog of a unit. -/
  | invalidate (unit : Text)
  /-- Dropping all catalogs. -/
  | clearCache
  deriving DecidableEq

namespace CatalogCall

/-- The request that a call makes. -/
def request : CatalogCall → Request Unit
  | .catalog unit => discard (Engine.catalog unit)
  | .globalCatalog => discard Engine.globalCatalog
  | .resolver => discard Engine.resolver
  | .inspect unit => discard (Engine.inspect unit)
  | .resolve unit name => discard (Engine.resolve unit name)
  | .save unit submitted => discard (Engine.save unit submitted)
  | .reset unit => Engine.reset unit
  | .invalidate unit => discard (Engine.invalidate unit)
  | .clearCache => Engine.clearCache

/-- The unit that a call is about. -/
def unit? : CatalogCall → Option Text
  | .catalog unit | .inspect unit | .resolve unit _ | .save unit _ | .reset unit
  | .invalidate unit => some unit
  | .globalCatalog | .resolver | .clearCache => none

/--
The units whose catalogs a call looks up, in turn.  A resolver needs the stored
overrides first, and what is resolved with it is looked up once there is one.
-/
def consulted (call : CatalogCall) (engine : Engine) : List Text :=
  let forResolver := if engine.overrideLookup.isOk then [engine.theme.layout.globalUnit] else []
  match call with
  | .catalog unit | .save unit _ => [unit]
  | .globalCatalog => [engine.theme.layout.globalUnit]
  | .resolver => forResolver
  | .inspect unit | .resolve unit _ =>
      forResolver ++ if (Engine.resolver.on engine).1.isOk then [unit] else []
  | .reset _ | .invalidate _ | .clearCache => []

/-- Whether a call forgets the catalog of a unit; saving and resetting do if they succeed. -/
def forgets (call : CatalogCall) (engine : Engine) (unit : Text) : Bool :=
  match call with
  | .save own _ | .reset own => unit == own && (call.request.on engine).1.isOk
  | .invalidate own => unit == own
  | .clearCache => true
  | _ => false

end CatalogCall

namespace Engine

theorem theme_foldl_lookedUp
    (engine : Engine)
    (units : List Text) :
    (units.foldl lookedUp engine).theme = engine.theme := by
  induction units generalizing engine with
  | nil => rfl
  | cons unit rest inductionHypothesis =>
      rw [List.foldl_cons, inductionHypothesis, lookedUp_eq]

theorem after_globalCatalog (engine : Engine) :
    globalCatalog.after engine = engine.lookedUp engine.theme.layout.globalUnit := by
  rw [Request.after, on_globalCatalog]
  rfl

theorem after_resolver (engine : Engine) :
    resolver.after engine = (CatalogCall.resolver.consulted engine).foldl lookedUp engine := by
  have asks := Request.on_ask overrideLookup engine
  cases found : engine.overrideLookup with
  | error error =>
      rw [found] at asks
      rw [resolver, Request.after, Request.on_bind_of_error asks]
      simp [CatalogCall.consulted, found, Except.isOk, Except.toBool]
  | ok overrides =>
      rw [found] at asks
      rw [resolver, Request.after, Request.on_bind_of_ok asks]
      simp only [CatalogCall.consulted, found, Except.isOk, Except.toBool, if_true,
        List.foldl_cons, List.foldl_nil]
      rw [← after_globalCatalog]
      exact Request.after_bind_pure globalCatalog (fun globals => Resolver.mk globals overrides)
        engine

/-- What is done with a resolver needs the catalog of the unit that it is done for. -/
theorem after_resolver_bind
    {Result : Type}
    {unit : Text}
    {next : Resolver → Request Result}
    (looksUp : ∀ resolver engine, (next resolver).after engine = engine.lookedUp unit)
    (engine : Engine) :
    (resolver >>= next).after engine =
      ((CatalogCall.inspect unit).consulted engine).foldl lookedUp engine := by
  have reads := after_resolver engine
  rw [CatalogCall.consulted, List.foldl_append]
  change _ = List.foldl lookedUp
    ((CatalogCall.resolver.consulted engine).foldl lookedUp engine) _
  rw [← reads, Request.after, Request.on_bind, Request.after]
  cases resolver.on engine with
  | mk outcome later =>
      cases outcome with
      | error error => rfl
      | ok resolver => exact looksUp resolver later

/-- Saving looks up a catalog and forgets it if the store is written. -/
theorem after_save
    (unit : Text)
    (submitted : Overrides)
    (engine : Engine) :
    ((save unit submitted).after engine).theme = engine.theme ∧
      ((save unit submitted).after engine).cache =
        if ((save unit submitted).on engine).1.isOk then (engine.lookedUp unit).cache.erase unit
        else (engine.lookedUp unit).cache := by
  have sameTheme := theme_after_catalog engine unit
  have course := saveCourse_on engine unit submitted
  unfold Request.after
  cases ends : (save unit submitted).on engine with
  | mk outcome later =>
      rw [ends] at course
      cases course with
      | unread fails => exact ⟨sameTheme, rfl⟩
      | unanswered fails => exact ⟨sameTheme, rfl⟩
      | unstored reads answers fails => exact ⟨sameTheme, rfl⟩
      | stored reads answers stores => exact ⟨sameTheme, rfl⟩

theorem after_reset
    (unit : Text)
    (engine : Engine) :
    ((reset unit).after engine).theme = engine.theme ∧
      ((reset unit).after engine).cache =
        if ((reset unit).on engine).1.isOk then engine.cache.erase unit else engine.cache := by
  unfold reset Request.after
  rw [Request.on_bind, on_changeWorld]
  cases ((World.removeOverrides unit).run.run engine.world).1 with
  | error fault => exact ⟨rfl, rfl⟩
  | ok => exact ⟨rfl, rfl⟩

end Engine

namespace CatalogCall

open Engine

theorem isOk_discard
    {Result : Type}
    (request : Request Result)
    (engine : Engine) :
    ((discard request : Request Unit).on engine).1.isOk = (request.on engine).1.isOk := by
  change (Request.on (request >>= fun _ => pure ()) engine).1.isOk = _
  rw [Request.on_bind]
  cases request.on engine with
  | mk outcome later => cases outcome <;> rfl

theorem eq_clearCache_or_unit?_of_forgets
    {call : CatalogCall}
    {engine : Engine}
    {unit : Text}
    (forgets : call.forgets engine unit = true) :
    call = .clearCache ∨ call.unit? = some unit := by
  cases call with
  | clearCache => exact Or.inl rfl
  | save own _ | reset own =>
      rw [CatalogCall.forgets, Bool.and_eq_true, beq_iff_eq] at forgets
      exact Or.inr (congrArg some forgets.1.symm)
  | invalidate own => exact Or.inr (congrArg some (beq_iff_eq.1 forgets).symm)
  | catalog | globalCatalog | resolver | inspect | resolve => contradiction

theorem unit?_or_eq_globalUnit_of_mem_consulted
    {call : CatalogCall}
    {engine : Engine}
    {unit : Text}
    (member : unit ∈ call.consulted engine) :
    call.unit? = some unit ∨ unit = engine.theme.layout.globalUnit := by
  have ofResolver : unit ∈ CatalogCall.resolver.consulted engine →
      unit = engine.theme.layout.globalUnit := by
    unfold consulted
    dsimp only
    split
    · exact List.mem_singleton.1
    · exact fun member => nomatch member
  cases call with
  | catalog own | save own _ => exact Or.inl (congrArg some (List.mem_singleton.1 member).symm)
  | globalCatalog => exact Or.inr (List.mem_singleton.1 member)
  | resolver => exact Or.inr (ofResolver member)
  | inspect own | resolve own _ =>
      obtain forResolver | isOwn := List.mem_append.1 member
      · exact Or.inr (ofResolver forResolver)
      · split at isOwn
        · exact Or.inl (congrArg some (List.mem_singleton.1 isOwn).symm)
        · contradiction
  | reset | invalidate | clearCache => contradiction

/--
One call: what it forgets is not cached behind it, and all else that is cached
was cached before or is looked up by the call.
-/
theorem after_request
    (call : CatalogCall)
    (engine : Engine) :
    (call.request.after engine).theme = engine.theme ∧
      ∀ unit, (call.request.after engine).cache.get? unit =
        if call.forgets engine unit then none
        else ((call.consulted engine).foldl lookedUp engine).cache.get? unit := by
  have lookups : call.request.after engine = (call.consulted engine).foldl lookedUp engine →
      (∀ unit, call.forgets engine unit = false) →
      (call.request.after engine).theme = engine.theme ∧
        ∀ unit, (call.request.after engine).cache.get? unit =
          if call.forgets engine unit then none
          else ((call.consulted engine).foldl lookedUp engine).cache.get? unit := by
    intro same keeps
    rw [same]
    exact ⟨theme_foldl_lookedUp _ _, fun unit => by rw [if_neg (by simp [keeps])]⟩
  cases call with
  | catalog unit => exact lookups (Request.after_discard _ _) fun _ => rfl
  | globalCatalog =>
      exact lookups ((Request.after_discard _ _).trans (after_globalCatalog _)) fun _ => rfl
  | resolver =>
      exact lookups ((Request.after_discard _ _).trans (after_resolver _)) fun _ => rfl
  | inspect unit =>
      refine lookups ((Request.after_discard _ _).trans ?_) fun _ => rfl
      exact after_resolver_bind (fun _ _ => Request.after_bind_pure _ _ _) engine
  | resolve unit name =>
      refine lookups ((Request.after_discard _ _).trans ?_) fun _ => rfl
      exact after_resolver_bind (fun _ _ => Request.after_bind_pure _ _ _) engine
  | save own submitted =>
      obtain ⟨sameTheme, cached⟩ := after_save own submitted engine
      rw [request, Request.after_discard]
      refine ⟨sameTheme, fun unit => ?_⟩
      rw [cached, forgets, request, isOk_discard]
      change _ = if _ then none else (engine.lookedUp own).cache.get? unit
      cases ((Engine.save own submitted).on engine).1.isOk with
      | false => simp
      | true => simp [SortedMap.get?_erase]
  | reset own =>
      obtain ⟨sameTheme, cached⟩ := after_reset own engine
      refine ⟨sameTheme, fun unit => ?_⟩
      rw [request, cached, forgets, request]
      change _ = if _ then none else engine.cache.get? unit
      cases ((Engine.reset own).on engine).1.isOk with
      | false => simp
      | true => simp [SortedMap.get?_erase]
  | invalidate own =>
      rw [request, Request.after_discard]
      refine ⟨rfl, fun unit => ?_⟩
      change (engine.cache.erase own).get? unit = if unit == own then none else _
      simp only [SortedMap.get?_erase, beq_iff_eq]
      rfl
  | clearCache => exact ⟨rfl, fun _ => rfl⟩

end CatalogCall
/-! ## Runs -/

/-- What happens in a run. -/
inductive Event
  /-- The engine answers a call. -/
  | call (call : CatalogCall)
  /-- The world outside changes, be it the files of the theme or the store. -/
  | change (world : World)

/-- Something that happens, and the engine right before. -/
structure Moment where
  /-- The engine before. -/
  engine : Engine
  /-- What happens to it. -/
  event : Event

namespace Moment

/-- The engine after a moment, whether a call fails or not. -/
def after (moment : Moment) : Engine :=
  match moment.event with
  | .call call => call.request.after moment.engine
  | .change world => { moment.engine with world := world }

/-- A call looks up the catalog of a unit while the file of the unit can be read. -/
def Reads
    (moment : Moment)
    (unit text : Text) : Prop :=
  ∃ call, moment.event = .call call ∧ unit ∈ call.consulted moment.engine ∧
    moment.engine.theme.FileHolds moment.engine.files unit text

/-- A call forgets the catalog of a unit. -/
def Forgets
    (moment : Moment)
    (unit : Text) : Prop :=
  ∃ call, moment.event = .call call ∧ call.forgets moment.engine unit = true

/-- What is cached of a unit: what was cached, or else what is read, unless it is forgotten. -/
theorem get?_cache_after_eq_some_iff
    {moment : Moment}
    {unit : Text}
    {found : Catalog} :
    moment.after.cache.get? unit = some found ↔
      ¬moment.Forgets unit ∧
        (moment.engine.cache.get? unit = some found ∨
          moment.engine.cache.get? unit = none ∧
            ∃ text, moment.Reads unit text ∧ Catalog.read unit text = found) := by
  obtain ⟨engine, event⟩ := moment
  cases event with
  | change world => simp [after, Forgets, Reads]
  | call call =>
      simp only [after, Forgets, Reads, Event.call.injEq, exists_eq_left',
        ← Engine.fileText?_eq_some_iff]
      rw [(call.after_request engine).2, Engine.get?_cache_foldl_lookedUp]
      cases call.forgets engine unit with
      | true => simp
      | false =>
          by_cases isConsulted : unit ∈ call.consulted engine
          · simp [isConsulted, Option.or_eq_some_iff, Option.map_eq_some_iff]
          · simp [isConsulted]

theorem get?_cache_after_eq_none_iff
    {moment : Moment}
    {unit : Text} :
    moment.after.cache.get? unit = none ↔
      moment.Forgets unit ∨
        moment.engine.cache.get? unit = none ∧ ∀ text, ¬moment.Reads unit text := by
  rw [Option.eq_none_iff_forall_ne_some]
  simp only [ne_eq, get?_cache_after_eq_some_iff]
  cases moment.engine.cache.get? unit with
  | some found =>
      simp only [Option.some.injEq, reduceCtorEq, false_and, or_false, not_and]
      exact ⟨fun absent => not_not.1 fun keeps => absent found keeps rfl,
        fun forgets _ keeps => absurd forgets keeps⟩
  | none =>
      simp only [reduceCtorEq, true_and, false_or]
      constructor
      · intro absent
        refine or_iff_not_imp_left.2 fun keeps text reads => ?_
        exact absent (Catalog.read unit text) ⟨keeps, text, reads, rfl⟩
      · rintro (forgets | unread) found ⟨keeps, text, reads, -⟩
        · exact keeps forgets
        · exact unread text reads

end Moment

/-- Every reading of a unit was forgotten since. -/
def AllForgotten
    (moments : List Moment)
    (unit : Text) : Prop :=
  ∀ before reading between text, moments = before ++ reading :: between →
    reading.Reads unit text → ∃ moment ∈ reading :: between, moment.Forgets unit

/-- The first reading of a unit since the unit was forgotten last gave a text. -/
def IsFirstReading
    (moments : List Moment)
    (unit text : Text) : Prop :=
  ∃ earlier reading later, moments = earlier ++ reading :: later ∧ reading.Reads unit text ∧
    (∀ moment ∈ reading :: later, ¬moment.Forgets unit) ∧ AllForgotten earlier unit

section Readings

variable {moments : List Moment} {moment : Moment} {unit text : Text}

theorem allForgotten_append_singleton_iff :
    AllForgotten (moments ++ [moment]) unit ↔
      moment.Forgets unit ∨ AllForgotten moments unit ∧ ∀ text, ¬moment.Reads unit text := by
  constructor
  · intro forgotten
    refine or_iff_not_imp_left.2 fun kept => ⟨?_, ?_⟩
    · intro before reading between text split reads
      obtain ⟨forgetting, member, forgets⟩ := forgotten before reading (between ++ [moment]) text
        (by rw [split, List.append_assoc, List.cons_append]) reads
      rw [← List.cons_append, List.mem_append, List.mem_singleton] at member
      obtain member | rfl := member
      · exact ⟨forgetting, member, forgets⟩
      · exact absurd forgets kept
    · intro text reads
      obtain ⟨forgetting, member, forgets⟩ := forgotten moments moment [] text rfl reads
      rw [List.mem_singleton.1 member] at forgets
      exact kept forgets
  · intro forgets before reading between text split reads
    rcases List.eq_nil_or_concat between with rfl | ⟨between, last, rfl⟩
    · obtain ⟨rfl, rfl⟩ := List.append_singleton_inj.1 split
      obtain forgets | ⟨-, none⟩ := forgets
      · exact ⟨moment, List.mem_cons_self, forgets⟩
      · exact absurd reads (none text)
    · rw [List.concat_eq_append, ← List.cons_append, ← List.append_assoc] at split
      obtain ⟨rfl, rfl⟩ := List.append_singleton_inj.1 split
      rw [List.concat_eq_append, ← List.cons_append]
      obtain forgets | ⟨forgotten, -⟩ := forgets
      · exact ⟨moment, by simp, forgets⟩
      · obtain ⟨forgetting, member, forgets⟩ := forgotten before reading between text rfl reads
        exact ⟨forgetting, List.mem_append_left _ member, forgets⟩

theorem isFirstReading_append_singleton_iff :
    IsFirstReading (moments ++ [moment]) unit text ↔
      ¬moment.Forgets unit ∧
        (IsFirstReading moments unit text ∨
          AllForgotten moments unit ∧ moment.Reads unit text) := by
  constructor
  · rintro ⟨earlier, reading, later, split, reads, kept, forgotten⟩
    rcases List.eq_nil_or_concat later with rfl | ⟨later, last, rfl⟩
    · obtain ⟨rfl, rfl⟩ := List.append_singleton_inj.1 split
      exact ⟨kept moment List.mem_cons_self, Or.inr ⟨forgotten, reads⟩⟩
    · rw [List.concat_eq_append, ← List.cons_append] at split kept
      rw [← List.append_assoc] at split
      obtain ⟨rfl, rfl⟩ := List.append_singleton_inj.1 split
      refine ⟨kept moment (by simp), Or.inl ⟨earlier, reading, later, rfl, reads, ?_, forgotten⟩⟩
      exact fun other member => kept other (List.mem_append_left _ member)
  · rintro ⟨keeps, ⟨earlier, reading, later, rfl, reads, kept, forgotten⟩ | ⟨forgotten, reads⟩⟩
    · refine ⟨earlier, reading, later ++ [moment], by simp, reads, ?_, forgotten⟩
      rw [← List.cons_append]
      intro other member
      rw [List.mem_append, List.mem_singleton] at member
      obtain member | rfl := member
      · exact kept other member
      · exact keeps
    · refine ⟨moments, moment, [], rfl, reads, ?_, forgotten⟩
      exact fun other member => List.mem_singleton.1 member ▸ keeps

end Readings

namespace Engine

/-- The moments of a run. -/
def moments : Engine → List Event → List Moment
  | _, [] => []
  | engine, event :: rest => ⟨engine, event⟩ :: moments (Moment.after ⟨engine, event⟩) rest

/-- The engine after a run. -/
def afterEvents
    (engine : Engine)
    (events : List Event) : Engine :=
  events.foldl (fun engine event => Moment.after ⟨engine, event⟩) engine

theorem moments_append_singleton
    (engine : Engine)
    (events : List Event)
    (event : Event) :
    engine.moments (events ++ [event]) =
      engine.moments events ++ [⟨engine.afterEvents events, event⟩] := by
  induction events generalizing engine with
  | nil => rfl
  | cons first rest inductionHypothesis =>
      exact congrArg (Moment.mk engine first :: ·) (inductionHypothesis _)

theorem afterEvents_append_singleton
    (engine : Engine)
    (events : List Event)
    (event : Event) :
    engine.afterEvents (events ++ [event]) =
      Moment.after ⟨engine.afterEvents events, event⟩ := by
  rw [afterEvents, List.foldl_append]
  rfl

/-- A unit is cached exactly if it has been read since it was forgotten last. -/
theorem get?_cache_afterEvents
    (theme : Theme)
    (fallback : Fallback)
    (world : World)
    (events : List Event)
    (unit : Text) :
    let moments := (start theme fallback world).moments events
    let cached := ((start theme fallback world).afterEvents events).cache.get? unit
    (∀ found, cached = some found ↔
      ∃ text, IsFirstReading moments unit text ∧ Catalog.read unit text = found) ∧
      (cached = none ↔ AllForgotten moments unit) := by
  induction events using List.reverseRecOn with
  | nil => simp [moments, afterEvents, start, IsFirstReading, AllForgotten]
  | append_singleton events event inductionHypothesis =>
      obtain ⟨isCached, isForgotten⟩ := inductionHypothesis
      rw [moments_append_singleton, afterEvents_append_singleton]
      constructor
      · intro found
        rw [Moment.get?_cache_after_eq_some_iff, isCached, isForgotten]
        simp only [isFirstReading_append_singleton_iff]
        grind
      · rw [Moment.get?_cache_after_eq_none_iff, isForgotten, allForgotten_append_singleton_iff]

/-- A call caches nothing of a unit whose file cannot be read. -/
theorem get?_cache_of_forall_not_fileHolds
    {engine : Engine}
    {call : CatalogCall}
    {unit : Text}
    {found : Catalog}
    (unreadable : ∀ text, ¬engine.theme.FileHolds engine.files unit text)
    (cached : (call.request.after engine).cache.get? unit = some found) :
    engine.cache.get? unit = some found := by
  have known := (@Moment.get?_cache_after_eq_some_iff ⟨engine, .call call⟩ unit found).1 cached
  obtain kept | ⟨-, text, ⟨other, -, -, holds⟩, -⟩ := known.2
  · exact kept
  · exact absurd holds (unreadable text)

/-- A call other than dropping all catalogs touches its own unit and the global defaults only. -/
theorem get?_cache_of_other
    {engine : Engine}
    {call : CatalogCall}
    {other : Text}
    (notAll : call ≠ .clearCache)
    (notOwn : call.unit? ≠ some other)
    (notGlobal : other ≠ engine.theme.layout.globalUnit) :
    (call.request.after engine).cache.get? other = engine.cache.get? other := by
  rw [(call.after_request engine).2, get?_cache_foldl_lookedUp]
  have keeps : ¬call.forgets engine other = true := fun forgets =>
    (CatalogCall.eq_clearCache_or_unit?_of_forgets forgets).elim notAll notOwn
  have elsewhere : other ∉ call.consulted engine := fun member =>
    (CatalogCall.unit?_or_eq_globalUnit_of_mem_consulted member).elim notOwn notGlobal
  rw [if_neg keeps, if_neg elsewhere, Option.or_none]

/-- The catalog of a unit is the cached one, or else it is read from the file of the unit. -/
theorem on_catalog_eq_ok_iff
    {engine : Engine}
    {unit : Text}
    {found : Catalog} :
    ((catalog unit).on engine).1 = .ok found ↔
      engine.cache.get? unit = some found ∨
        engine.cache.get? unit = none ∧
          ∃ text, engine.theme.FileHolds engine.files unit text ∧
            Catalog.read unit text = found := by
  rw [on_catalog, Cache.lookUp]
  cases engine.cache.get? unit with
  | some cached => simp
  | none =>
      simp only [← Theme.catalogSource_eq_ok_iff, reduceCtorEq, true_and, false_or]
      cases engine.theme.catalogSource engine.files unit <;> simp

/--
In every run, the catalog of a unit is what the file of the unit held when it
was read first since the unit was forgotten last, and there is a catalog
exactly if there is such a reading.  A reading that fails caches nothing, and
no call but dropping all catalogs changes what is cached of a unit that is
neither its own nor that of the global defaults.
-/
theorem catalogs_are_first_readings_and_others_stay
    (theme : Theme)
    (fallback : Fallback)
    (world : World) :
    (∀ events unit found,
      ((catalog unit).on ((start theme fallback world).afterEvents events)).1 = .ok found ↔
        ∃ text, IsFirstReading
            ((start theme fallback world).moments (events ++ [.call (.catalog unit)])) unit text ∧
          Catalog.read unit text = found) ∧
      (∀ (engine : Engine) (call : CatalogCall) (unit : Text) (found : Catalog),
        (∀ text, ¬engine.theme.FileHolds engine.files unit text) →
          (call.request.after engine).cache.get? unit = some found →
            engine.cache.get? unit = some found) ∧
      ∀ (engine : Engine) (call : CatalogCall) (other : Text),
        call ≠ .clearCache → call.unit? ≠ some other → other ≠ engine.theme.layout.globalUnit →
          (call.request.after engine).cache.get? other = engine.cache.get? other := by
  refine ⟨fun events unit found => ?_,
    fun engine call unit found => get?_cache_of_forall_not_fileHolds,
    fun engine call other => get?_cache_of_other⟩
  obtain ⟨isCached, isForgotten⟩ := get?_cache_afterEvents theme fallback world events unit
  rw [on_catalog_eq_ok_iff, isCached, isForgotten, moments_append_singleton]
  simp only [isFirstReading_append_singleton_iff]
  -- The call itself forgets nothing, and it reads the unit if the file can be read.
  simp [Moment.Forgets, Moment.Reads, CatalogCall.consulted, CatalogCall.forgets,
    or_and_right, exists_or, and_assoc]

/-- A unit whose file changes after it was read, a unit without file, and a save beside a unit. -/
theorem catalogs_are_first_readings_and_others_stay_sample :
    let engine := start Sample.theme .builtIn ⟨Sample.files, .memory .empty⟩
    let rewritten := Sample.files.put "t/components/card.less" (Utf8.encode "@card: 9px;\n")
    let events : List Event := [.call (.inspect "card"), .change ⟨rewritten, .memory .empty⟩]
    ((catalog "card").on (engine.afterEvents events)).1 =
        .ok (Catalog.read "card" "@color: #FFF;\n@card: @color;\n") ∧
      (∀ text, ¬Sample.theme.FileHolds Sample.files "nowhere" text) ∧
      (∀ found, ((CatalogCall.catalog "nowhere").request.after engine).cache.get? "nowhere" ≠
        some found) ∧
      ((CatalogCall.save "card" (.ofList [("card", "2px")])).request.after engine).cache.get?
          "button" = none := by
  intro engine rewritten events
  have holds : Sample.theme.FileHolds Sample.files "card" "@color: #FFF;\n@card: @color;\n" :=
    Theme.catalogSource_eq_ok_iff.1 rfl
  have absent : ∀ text, ¬Sample.theme.FileHolds Sample.files "nowhere" text := by
    intro text holds
    have isRead := Theme.catalogSource_eq_ok_iff.2 holds
    contradiction
  obtain ⟨firstReadings, unread, others⟩ :=
    catalogs_are_first_readings_and_others_stay Sample.theme .builtIn
      ⟨Sample.files, .memory .empty⟩
  have isFirst : IsFirstReading (engine.moments (events ++ [.call (.catalog "card")])) "card"
      "@color: #FFF;\n@card: @color;\n" := by
    refine ⟨[], ⟨engine, .call (.inspect "card")⟩, _, rfl, ⟨_, rfl, ?_, holds⟩, ?_, ?_⟩
    · decide
    · simp [Moment.Forgets, CatalogCall.forgets, moments]
    · intro before reading between text split
      simp at split
  refine ⟨(firstReadings events "card" _).2 ⟨_, isFirst, rfl⟩, absent, fun found cached => ?_,
    others engine _ "button" (by decide) (by decide) (by decide)⟩
  have known : none = some found := unread engine _ "nowhere" found absent cached
  cases known

end Engine
end LessTheme
