import LessTheme.Program.Assembly
import LessTheme.Proofs.Theme.Outcome

/-!
# The layers of an assembled program

An assembly succeeds exactly if all sources of the theme can be read, and then
its layers are what the sources say.  The overrides decide the last layer only.
-/

namespace LessTheme
namespace Theme

/-- All that the program of a unit is assembled from. -/
structure Reading (theme : Theme) (files : FileTree) (unit : Text) where
  /-- The file of the unit. -/
  text : Text
  /-- The base declarations. -/
  base : Text
  /-- The mixins. -/
  mixins : Text
  /-- The declarations for the whole theme. -/
  overall : Text
  /-- The declaration lines of all other units. -/
  foreign : List Text
  /-- The global defaults. -/
  globals : Text
  /-- The inverse layer. -/
  inverse : Text
  textRead : theme.unitText files unit = .ok text
  baseRead : theme.base files = .ok base
  mixinsRead : theme.mixins files = .ok mixins
  overallRead : theme.overall files = .ok overall
  foreignRead :
    theme.declarationLines files ((theme.units files).filter (· != unit)) = .ok foreign
  globalsRead : theme.globals files = .ok globals
  inverseRead : theme.inverse files = .ok inverse

namespace Reading

variable {theme : Theme} {files : FileTree} {unit : Text}

/-- The layers below the overrides. -/
def layers (reading : theme.Reading files unit) : List (Layer × Text) :=
  let own := splitUnit reading.text
  let baseNames := (declarations reading.base).map Declaration.name
  let hooks := (Hook.names own.body).insertAll (Hook.names reading.inverse).entries
  [(.base, reading.base),
    (.mixins, reading.mixins),
    (.crossUnit, List.intercalate ['\n'] reading.foreign),
    (.globalDefaults, List.intercalate ['\n'] (newDeclarationLines baseNames reading.globals)),
    (.theme, reading.overall),
    (.unitDeclarations, List.intercalate ['\n'] own.declarations),
    (.hookStubs, Hook.stubs hooks),
    (.ruleBody, own.body)]

/-- The program with the given overrides. -/
def program (reading : theme.Reading files unit) (overrides : Overrides) : Program :=
  ⟨unit, reading.layers ++ [(.overrides, overrides.layer)]⟩

end Reading

theorem assemble_eq_ok_iff
    {theme : Theme}
    {files : FileTree}
    {unit : Text}
    {overrides : Overrides}
    {program : Program} :
    theme.assemble files unit overrides = .ok program ↔
      ∃ reading : theme.Reading files unit, program = reading.program overrides := by
  constructor
  · intro assembles
    simp only [assemble, Outcome.bind_eq_ok_iff, Outcome.pure_eq_ok_iff] at assembles
    obtain ⟨text, textRead, base, baseRead, mixins, mixinsRead, overall, overallRead, foreign,
      foreignRead, globals, globalsRead, inverse, inverseRead, rfl⟩ := assembles
    exact ⟨⟨text, base, mixins, overall, foreign, globals, inverse, textRead, baseRead,
      mixinsRead, overallRead, foreignRead, globalsRead, inverseRead⟩, rfl⟩
  · rintro ⟨reading, rfl⟩
    simp only [assemble, Outcome.bind_eq_ok_iff, Outcome.pure_eq_ok_iff]
    exact ⟨_, reading.textRead, _, reading.baseRead, _, reading.mixinsRead, _,
      reading.overallRead, _, reading.foreignRead, _, reading.globalsRead, _,
      reading.inverseRead, rfl⟩

end Theme

/-! ## A small theme -/

namespace Sample

/-- A theme in the folder `t`. -/
def theme : Theme := ⟨"t", {}⟩

/-- The files of the theme: two units, base declarations and global defaults. -/
def files : FileTree :=
  { FileTree.empty .memory with
    files := .ofList [
      ("t/base/variables.less", Utf8.encode "@size: 1px;\n"),
      ("t/components/global.less", Utf8.encode "@size: 2px;\n@color: @size;\n"),
      ("t/components/card.less", Utf8.encode "@color: #FFF;\n@card: @color;\n"),
      ("t/components/button.less", Utf8.encode "@button: #FFF;\n@text: #fff;\n"),
      ("t/components/ring.less",
        Utf8.encode "@first: @second;\n@second: @third;\n@third: @first;\n")] }

end Sample
end LessTheme
