import LessTheme.Proofs.Engine.Request
import LessTheme.Proofs.World.Refinement

/-!
# The course of saving

Saving reads the catalog of a unit and its stored overrides, merges what is
submitted and replaces the overrides of the unit.  Each of these steps may
fail, and up to the last one nothing has been stored.
-/

namespace LessTheme
namespace Engine

variable {engine : Engine} {unit : Text} {submitted : Overrides}

/-- Stores the overrides of a unit and forgets its catalog. -/
def store
    (unit : Text)
    (overrides : Overrides) : Request Overrides := do
  changeWorld (World.replaceOverrides unit overrides)
  discard (invalidate unit)
  return overrides

theorem save_eq
    (unit : Text)
    (submitted : Overrides) :
    save unit submitted = (do
      let catalog ← catalog unit
      let stored ← ask fun engine => (engine.world.overridesOf unit).mapError .world
      store unit (stored.submit catalog submitted)) := rfl

theorem on_store
    (unit : Text)
    (overrides : Overrides)
    (engine : Engine) :
    (store unit overrides).on engine =
      match (World.replaceOverrides unit overrides).run.run engine.world with
      | (.ok (), world) =>
          (.ok overrides, { engine with world := world, cache := engine.cache.erase unit })
      | (.error fault, world) => (.error (.world fault), { engine with world := world }) := by
  have changes := on_changeWorld (World.replaceOverrides unit overrides) engine
  unfold store
  cases replaces : (World.replaceOverrides unit overrides).run.run engine.world with
  | mk outcome world =>
      rw [replaces] at changes
      cases outcome with
      | error fault => rw [Request.on_bind_of_error changes]
      | ok =>
          rw [Request.on_bind_of_ok changes]
          rfl

/-- The ways in which saving ends: what it answers, and the engine that it leaves. -/
inductive SaveCourse
    (engine : Engine)
    (unit : Text)
    (submitted : Overrides) : Except ThemeError Overrides × Engine → Prop
  /-- The catalog of the unit cannot be read. -/
  | unread
      {error : ThemeError}
      (fails : ((Engine.catalog unit).on engine).1 = .error error) :
      SaveCourse engine unit submitted (.error error, (Engine.catalog unit).after engine)
  /-- The store does not tell the overrides of the unit. -/
  | unanswered
      {fault : WorldFault}
      (fails : engine.world.overridesOf unit = .error fault) :
      SaveCourse engine unit submitted
        (.error (.world fault), (Engine.catalog unit).after engine)
  /-- The merged overrides cannot be stored. -/
  | unstored
      {catalog : Catalog}
      {stored : Overrides}
      {fault : WorldFault}
      {world : World}
      (reads : ((Engine.catalog unit).on engine).1 = .ok catalog)
      (answers : engine.world.overridesOf unit = .ok stored)
      (fails : (World.replaceOverrides unit (stored.submit catalog submitted)).run.run
        engine.world = (.error fault, world)) :
      SaveCourse engine unit submitted
        (.error (.world fault), { (Engine.catalog unit).after engine with world := world })
  /-- The merged overrides are stored, and the catalog is forgotten. -/
  | stored
      {catalog : Catalog}
      {stored : Overrides}
      {world : World}
      (reads : ((Engine.catalog unit).on engine).1 = .ok catalog)
      (answers : engine.world.overridesOf unit = .ok stored)
      (stores : (World.replaceOverrides unit (stored.submit catalog submitted)).run.run
        engine.world = (.ok (), world)) :
      SaveCourse engine unit submitted
        (.ok (stored.submit catalog submitted),
          { (Engine.catalog unit).after engine with
            world := world, cache := ((Engine.catalog unit).after engine).cache.erase unit })

theorem saveCourse_on
    (engine : Engine)
    (unit : Text)
    (submitted : Overrides) :
    SaveCourse engine unit submitted ((save unit submitted).on engine) := by
  have sameWorld := world_after_catalog engine unit
  rw [save_eq]
  cases reads : (Engine.catalog unit).on engine with
  | mk outcome read =>
      have isRead : (Engine.catalog unit).after engine = read := by rw [Request.after, reads]
      have isOutcome : ((Engine.catalog unit).on engine).1 = outcome := by rw [reads]
      rw [isRead] at sameWorld
      cases outcome with
      | error error =>
          rw [Request.on_bind_of_error reads, ← isRead]
          exact .unread isOutcome
      | ok catalog =>
          rw [Request.on_bind_of_ok reads]
          have asks := Request.on_ask
            (fun engine => (engine.world.overridesOf unit).mapError ThemeError.world) read
          rw [sameWorld] at asks
          cases answers : engine.world.overridesOf unit with
          | error fault =>
              rw [answers] at asks
              rw [Request.on_bind_of_error asks, ← isRead]
              exact .unanswered answers
          | ok stored =>
              rw [answers] at asks
              rw [Request.on_bind_of_ok asks, on_store, sameWorld, ← isRead]
              split
              case h_1 world stores => exact .stored isOutcome answers stores
              case h_2 fault world fails => exact .unstored isOutcome answers fails

/-- Saving succeeds if each of its steps does. -/
theorem on_save_of_ok
    {catalog : Catalog}
    {stored : Overrides}
    {world : World}
    (reads : ((Engine.catalog unit).on engine).1 = .ok catalog)
    (answers : engine.world.overridesOf unit = .ok stored)
    (stores : (World.replaceOverrides unit (stored.submit catalog submitted)).run.run
      engine.world = (.ok (), world)) :
    (save unit submitted).on engine =
      (.ok (stored.submit catalog submitted),
        { (Engine.catalog unit).after engine with
          world := world, cache := ((Engine.catalog unit).after engine).cache.erase unit }) := by
  have course := saveCourse_on engine unit submitted
  cases ends : (save unit submitted).on engine with
  | mk outcome later =>
      rw [ends] at course
      cases course with
      | unread fails => rw [reads] at fails; contradiction
      | unanswered fails => rw [answers] at fails; contradiction
      | unstored otherReads otherAnswers fails =>
          obtain rfl := Except.ok.inj (reads.symm.trans otherReads)
          obtain rfl := Except.ok.inj (answers.symm.trans otherAnswers)
          rw [stores] at fails
          injection fails with fails _
          contradiction
      | stored otherReads otherAnswers otherStores =>
          obtain rfl := Except.ok.inj (reads.symm.trans otherReads)
          obtain rfl := Except.ok.inj (answers.symm.trans otherAnswers)
          obtain ⟨-, rfl⟩ := Prod.mk.inj (stores.symm.trans otherStores)
          rfl

end Engine
end LessTheme
