import LessTheme.Source.Segment

/-!
# Line comments

CSS has block comments only, so line comments are written as block comments.
-/

namespace LessTheme
namespace Lowering

open Source

/-- Breaks up every `*/`, which would end a block comment. -/
def breakCommentEnds : Text → Text
  | [] => []
  | '*' :: '/' :: rest => '*' :: ' ' :: '/' :: breakCommentEnds rest
  | char :: rest => char :: breakCommentEnds rest

/-- The block comment with the words of a line comment. -/
def blockForm (comment : Text) : Text :=
  '/' :: '*' :: (breakCommentEnds (comment.drop 2) ++ [' ', '*', '/'])

/-- A segment as it stands after the line comments are rewritten. -/
def withoutLineComment (segment : Segment) : Text :=
  if segment.kind = .lineComment then blockForm segment.text else segment.text

/-- Writes every line comment as a block comment. -/
def blockComments (source : Text) : Text :=
  (segments source).flatMap withoutLineComment

end Lowering
end LessTheme
