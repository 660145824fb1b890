import LessTheme.Declaration

/-!
# The parts of a unit

A unit file is divided into the declarations that open it and its rule body.
A line `// Variables` marks where the declarations begin; without it they
begin with the file.  They end before the first line that opens a block.
-/

namespace LessTheme

/-- The two parts of a unit file. -/
structure UnitParts where
  /-- The declaration lines, trimmed. -/
  declarations : List Text
  /-- All other lines. -/
  body : Text
  deriving DecidableEq, Repr

/-- Whether a line opens a block: it ends in a brace and begins no comment. -/
def opensBlock (line : Text) : Bool :=
  let trimmed := line.trim
  !List.isPrefixOf ['/', '/'] trimmed && !List.isPrefixOf ['/', '*'] trimmed &&
    !List.isPrefixOf ['*'] trimmed && List.isSuffixOf ['{'] trimmed

/--
Whether a text is the word `variables` in any letter case.  The long s counts
as a letter s.
-/
def isVariablesWord (text : Text) : Bool :=
  Text.lower (text.map fun char => if char = 'ſ' then 's' else char) == "variables"

/-- Whether a line marks the beginning of the declarations. -/
def isVariablesMarker (line : Text) : Bool :=
  match line.trimStart with
  | '/' :: '/' :: rest => isVariablesWord (Text.trim rest)
  | text => (blockCommentBody? text).any fun body => isVariablesWord body.trim

/-- The lines through the first marker; no line if there is no marker. -/
def linesThroughMarker (lines : List Text) : List Text :=
  let before := lines.takeWhile fun line => !isVariablesMarker line
  if before.length < lines.length then lines.take (before.length + 1) else []

/-- Divides a unit file. -/
def splitUnit (source : Text) : UnitParts :=
  let lines := source.withoutByteOrderMark.lines
  let front := linesThroughMarker lines
  let section' := (lines.drop front.length).takeWhile fun line => !opensBlock line
  let rest := lines.drop (front.length + section'.length)
  let isDeclaration := fun line => (declaration? line).isSome
  ⟨(section'.filter isDeclaration).map Text.trim,
    List.intercalate ['\n']
      (front ++ section'.filter (fun line => !isDeclaration line) ++ rest)⟩

end LessTheme
