import LessTheme.Engine.Basic
import LessTheme.Override.Submission

/-!
# Saving overrides

Saving reads the stored overrides of a unit, merges what is submitted and
writes them back; a unit without overrides is taken out of the store.  The
catalog of the unit is dropped when the store has been written.
-/

namespace LessTheme
namespace Engine

/-- Changes the world; what was changed before a fault stays. -/
def changeWorld (change : World.Change) : Request Unit := do
  let engine ← get
  let (result, world) := change.run.run engine.world
  set { engine with world := world }
  return (← result.mapError ThemeError.world)

/-- Saves submitted overrides of a unit and gives what is stored then. -/
def save (unit : Text) (submitted : Overrides) : Request Overrides := do
  let catalog ← catalog unit
  let stored ← ask fun engine => (engine.world.overridesOf unit).mapError .world
  let merged := stored.submit catalog submitted
  changeWorld
    (if merged.isEmpty then World.removeOverrides unit else World.setOverrides unit merged)
  discard (invalidate unit)
  return merged

/-- Removes all overrides of a unit. -/
def reset (unit : Text) : Request Unit := do
  changeWorld (World.removeOverrides unit)
  discard (invalidate unit)

end Engine
end LessTheme
