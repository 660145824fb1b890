import LessTheme.Proofs.World.FileStore

/-!
# Calls of a store

A store is asked for the overrides of a unit, or told to set or to remove
them.  What it answers to a sequence of calls, and the table that it holds
after each of them, do not depend on where the overrides are kept.
-/

namespace LessTheme

/-- A call that a store answers. -/
inductive StoreCall
  /-- Asking for the overrides of a unit. -/
  | get (unit : Text)
  /-- Setting the overrides of a unit. -/
  | set (unit : Text) (overrides : Overrides)
  /-- Removing the overrides of a unit. -/
  | remove (unit : Text)

/-- What a store answers to a call. -/
inductive StoreAnswer
  /-- The overrides that were asked for. -/
  | found (overrides : Overrides)
  /-- The change has been made. -/
  | done
  deriving DecidableEq

namespace StoreCall

/-- What a world answers to a call, and the world afterwards. -/
def on : StoreCall → World → Except WorldFault StoreAnswer × World
  | .get unit, world => ((world.overridesOf unit).map .found, world)
  | .set unit overrides, world =>
      ((World.setOverrides unit overrides).run.run world).map (·.map fun _ => .done) id
  | .remove unit, world =>
      ((World.removeOverrides unit).run.run world).map (·.map fun _ => .done) id

/-- What a table answers to a call, and the table afterwards. -/
def onTable : StoreCall → OverrideTable → StoreAnswer × OverrideTable
  | .get unit, table => (.found (table.overridesOf unit), table)
  | .set unit overrides, table => (.done, table.insert unit overrides)
  | .remove unit, table => (.done, table.erase unit)

end StoreCall

/-- What is seen of a store after one call: its answer and all that it holds. -/
abbrev StoreView := Except WorldFault StoreAnswer × Except WorldFault OverrideTable

/-- What is seen of the store of a world after each of some calls. -/
def World.views : World → List StoreCall → List StoreView
  | _, [] => []
  | world, call :: rest =>
      ((call.on world).1, (call.on world).2.table) :: (call.on world).2.views rest

/-- What is seen of a table after each of some calls. -/
def OverrideTable.views : OverrideTable → List StoreCall → List StoreView
  | _, [] => []
  | table, call :: rest =>
      (.ok (call.onTable table).1, .ok (call.onTable table).2) ::
        views (call.onTable table).2 rest

namespace World.TableRefinement

variable {refinement : TableRefinement} {world : World} {table : OverrideTable}

/-- A call is answered as by the table, and the table changes with the world. -/
theorem on_eq
    (holds : refinement.Holds world table)
    (call : StoreCall) :
    ∃ later, call.on world = (.ok (call.onTable table).1, later) ∧
      refinement.Holds later (call.onTable table).2 := by
  cases call with
  | get unit =>
      refine ⟨world, ?_, holds⟩
      change ((world.overridesOf unit).map StoreAnswer.found, world) = _
      rw [overridesOf_of_table_eq_ok (refinement.answers holds)]
      rfl
  | set unit overrides =>
      obtain ⟨later, runs, holdsLater⟩ := refinement.sets holds unit overrides
      refine ⟨later, ?_, holdsLater⟩
      change Prod.map _ id ((setOverrides unit overrides).run.run world) = _
      rw [runs]
      rfl
  | remove unit =>
      obtain ⟨later, runs, holdsLater⟩ := refinement.removes holds unit
      refine ⟨later, ?_, holdsLater⟩
      change Prod.map _ id ((removeOverrides unit).run.run world) = _
      rw [runs]
      rfl

/-- A world that holds a table looks like the table, whatever calls are made. -/
theorem views_eq
    (holds : refinement.Holds world table)
    (calls : List StoreCall) :
    world.views calls = table.views calls := by
  induction calls generalizing world table with
  | nil => rfl
  | cons call rest inductionHypothesis =>
      obtain ⟨later, answers, holdsLater⟩ := on_eq holds call
      rw [World.views, OverrideTable.views, answers, refinement.answers holdsLater,
        inductionHypothesis holdsLater]

end World.TableRefinement

namespace World

variable {files : FileTree} {path : Text}

/--
Overrides in a file that is missing at first look like overrides in memory,
whatever calls are made: every answer and every table held in between agree.
-/
theorem views_file_eq_views_memory
    (slot : FileTree.Slot path)
    (missing : slot.Holds files none)
    (others : FileTree)
    (calls : List StoreCall) :
    World.views ⟨files, .file path⟩ calls = World.views ⟨others, .memory .empty⟩ calls := by
  have isEmpty : tableIn files path = .ok .empty := by
    unfold tableIn
    rw [slot.isFile missing]
    rfl
  have inFile : (fileRefinement slot).Holds ⟨files, .file path⟩ .empty :=
    ⟨⟨rfl, none, missing⟩, isEmpty⟩
  have inMemory : (memoryRefinement others).Holds ⟨others, .memory .empty⟩ .empty := rfl
  rw [TableRefinement.views_eq inFile, TableRefinement.views_eq inMemory]

/-- Marks, control characters, empty overrides and removals, in a folder that is missing too. -/
theorem views_file_eq_views_memory_sample :
    let files := FileTree.empty .memory
    let slot : FileTree.Slot "stores/overrides.json" :=
      @FileTree.memorySlot files _ rfl rfl
    let calls : List StoreCall :=
      [.remove "card", .set "card" (.ofList [("a\"b\\", "\x00\t\x7f"), ("ä", "😀")]),
        .set "" .empty, .get "card", .remove "card", .get "card"]
    slot.Holds files none ∧
      World.views ⟨files, .file "stores/overrides.json"⟩ calls =
        World.views ⟨files, .memory .empty⟩ calls ∧
      (World.views ⟨files, .memory .empty⟩ calls).getLast? =
        some (.ok (.found .empty), .ok (.ofList [("", .empty)])) := by
  intro files slot calls
  have missing : slot.Holds files none := ⟨Or.inl rfl, rfl⟩
  exact ⟨missing, views_file_eq_views_memory slot missing files calls, by decide⟩

end World
end LessTheme
