import LessTheme.Source.Delimiter
import LessTheme.Source.Patch
import LessTheme.Text.WhiteSpace

/-!
# At-rules beyond the compiler

Some at-rules of CSS are unknown to the compiler.  They are cut out of the
top level of a stylesheet, a numbered comment marks the place of each, and
after compilation they are added to the result.
-/

namespace LessTheme
namespace Lowering

open Source

/-- The at-rules that the compiler cannot read. -/
def foreignAtRules : List Text := ["container", "layer", "property", "scope", "starting-style"]

/-- What the comment in place of an at-rule begins with. -/
def atRuleMarker : Text := "themeweave:reinject"

/-- The comment that marks the place of the at-rule with the given number. -/
def atRulePlaceholder (number : Nat) : Text :=
  "/* " ++ atRuleMarker ++ " " ++ (toString number).toList ++ " */"

/--
Whether the text after an at sign begins with the given keyword.  A keyword
that a colon follows declares a variable, as in `@layer: 1px;`.
-/
def startsWithKeyword (text keyword : Text) : Bool :=
  Text.equalsIgnoringCase (text.take keyword.length) keyword &&
    !(text.drop keyword.length).head?.any isNameChar &&
    (text.drop keyword.length).find? (fun char => !isAsciiWhiteSpace char) != some ':'

/-- Whether a foreign at-rule begins at the front of the cells. -/
def startsForeignAtRule : List Cell → Bool
  | [] => false
  | cell :: rest => cell.isCode '@' && foreignAtRules.any (startsWithKeyword (chars rest))

/-- Whether a cell ends the head of an at-rule. -/
def endsAtRuleHead (cell : Cell) : Bool := cell.isCode '{' || cell.isCode ';'

/--
The cells of the at-rule at the front: through its semicolon, or through the
brace that closes its block.  An at-rule that has no end gives nothing.
-/
def atRule? (cells : List Cell) : Option (List Cell) :=
  let head := cells.takeWhile fun cell => !endsAtRuleHead cell
  match cells.dropWhile fun cell => !endsAtRuleHead cell with
  | [] => none
  | stop :: rest =>
      if stop.char = ';' then some (head ++ [stop])
      else
        (enclosed? '{' '}' 0 rest).map fun inner =>
          head ++ stop :: (inner ++ [⟨'}', .code, false⟩])

/-- What is remembered while at-rules are cut out. -/
structure AtRuleMemory where
  /-- How many blocks are open. -/
  depth : Nat
  /-- How many at-rules have been cut out. -/
  count : Nat
  deriving DecidableEq, Repr

/-- How many blocks are open after a cell. -/
def blockDepth (depth : Nat) (cell : Cell) : Nat :=
  if cell.isCode '{' then depth + 1
  else if cell.isCode '}' then depth - 1
  else depth

/-- The placeholder of the foreign at-rule at the front of the cells, outside all blocks. -/
def placeholder? (memory : AtRuleMemory) (cells : List Cell) : Option Replacement :=
  if memory.depth = 0 ∧ startsForeignAtRule cells = true then
    (atRule? cells).map fun rule => ⟨rule.length - 1, atRulePlaceholder memory.count⟩
  else none

/-- Cuts foreign at-rules out of the top level. -/
def atRuleRule : Rule AtRuleMemory where
  keep := fun memory cell => { memory with depth := blockDepth memory.depth cell }
  replace := fun memory => { memory with count := memory.count + 1 }
  replacement? := placeholder?

/-- The patch that puts a placeholder for every foreign at-rule. -/
def atRulePatch (source : Text) : Patch := atRuleRule.patch ⟨0, 0⟩ source

/-- The two results of cutting at-rules out of a stylesheet. -/
structure Lowered where
  /-- The stylesheet that is handed to the compiler. -/
  source : Text
  /-- The at-rules cut out of it; the number of a placeholder is an index here. -/
  atRules : List Text
  deriving DecidableEq, Repr

/-- Cuts foreign at-rules out of a stylesheet. -/
def cutAtRules (source : Text) : Lowered :=
  ⟨(atRulePatch source).after, (atRulePatch source).replaced⟩

/-- Puts a block behind a text, after a blank line if the text is not empty. -/
def appendBlock (text block : Text) : Text :=
  if text.isEmpty then block else text ++ "\n\n" ++ block

/-- Adds at-rules to a compiled stylesheet, with blank lines between. -/
def appendAtRules (css : Text) (atRules : List Text) : Text :=
  if atRules.isEmpty then css
  else (atRules.map Text.trim).foldl appendBlock css.trimEnd ++ ['\n']

end Lowering
end LessTheme
