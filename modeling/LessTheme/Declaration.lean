import LessTheme.Text.Ascii
import LessTheme.Text.WhiteSpace

/-!
# Declarations

A unit source is read line by line.  A line may declare a variable, with an
optional comment behind the declaration, and a line may set the group of the
declarations after it:

    // @group: Colors
    @button-background: @global-muted-background;   // like this

All other lines carry nothing.
-/

namespace LessTheme

/-- A variable and its value, as a line declares them. -/
structure Declaration where
  /-- The name of the variable. -/
  name : Text
  /-- The value as it is written, without white space around it. -/
  value : Text
  deriving DecidableEq, Repr

/-- The text between the marks of a block comment, and the white space after the comment. -/
def blockCommentBody? (text : Text) : Option Text :=
  match text.trimEnd with
  | '/' :: '*' :: rest =>
      if List.isSuffixOf ['*', '/'] rest then some (rest.take (rest.length - 2)) else none
  | _ => none

/-- Whether a text is one comment that does not go beyond its line. -/
def isLineEndComment (text : Text) : Bool :=
  (List.isPrefixOf ['/', '/'] text && !text.contains '\n') ||
    (blockCommentBody? text).any fun body => !body.contains '\n'

/-- Whether nothing but white space and one comment stands behind a declaration. -/
def isDeclarationEnd (text : Text) : Bool :=
  let rest := text.trimStart
  rest.isEmpty || isLineEndComment rest

/-- The value and what stands behind it, given the text after a name. -/
def declaredValue? (text : Text) : Option Text :=
  match text.trimStart with
  | ':' :: rest =>
      match rest.dropWhile (· != ';') with
      | ';' :: behind =>
          if isDeclarationEnd behind then some (Text.trim (rest.takeWhile (· != ';'))) else none
      | _ => none
  | _ => none

/-- The variable that a line declares. -/
def declaration? (line : Text) : Option Declaration :=
  match line.trimStart with
  | '@' :: rest =>
      if rest.head?.any isNameStart then
        (declaredValue? (rest.dropWhile isNameChar)).map fun value =>
          ⟨rest.takeWhile isNameChar, value⟩
      else none
  | _ => none

/-- The declarations of some lines, in order. -/
def declarationsOf (lines : List Text) : List Declaration := lines.filterMap declaration?

/-- Every declaration of a source, in order and with repetitions. -/
def declarations (source : Text) : List Declaration :=
  declarationsOf source.withoutByteOrderMark.lines

/-! ## Groups -/

/--
The label in the body of a group marker.  A body of white space alone gives
its last character that is no line feed.
-/
def groupLabelOf? (body : Text) : Option Text :=
  let label := body.trim
  if label.isEmpty then
    (body.reverse.find? (· != '\n')).map fun char => [char]
  else if label.contains '\n' then none
  else some label

/-- The text behind the keyword of a group marker. -/
def afterGroupKeyword? (text : Text) : Option Text :=
  List.isPrefixOf? "@group:" text.trimStart

/-- The label of a line that sets the group. -/
def groupLabel? (line : Text) : Option Text :=
  match line.trimStart with
  | '/' :: '/' :: rest => (afterGroupKeyword? rest).bind groupLabelOf?
  | text => ((blockCommentBody? text).bind afterGroupKeyword?).bind groupLabelOf?

/-! ## Names and values -/

/-- A value that declares nothing: empty, or an empty string. -/
def isPlaceholder (value : Text) : Bool :=
  let written := value.trim
  written == [] || written == "~\"\"" || written == "~''" || written == "\"\"" || written == "''"

/-- Whether a name belongs to a helper that is not shown to users. -/
def isInternalName (name : Text) : Bool :=
  List.isPrefixOf "internal-" name || List.isPrefixOf ['_'] name || List.isPrefixOf ['-'] name

end LessTheme
