import LessTheme.Text.Ascii

/-!
# Cells of a stylesheet

A stylesheet is read once, from left to right, and every character is given a
lexical class: code, string or comment.  The pair of a character and its class
is a *cell*.  All passes of the library work on cells, so the decision what is
code is taken here and nowhere else.

A string ends at its quote or, if it is not closed, before the end of the
line.  A block comment ends at the first `*/`.  Two slashes begin a line
comment only outside parentheses and not right after a colon, so that the
addresses in `url(//host/a.png)` and `http://host` stay code.
-/

namespace LessTheme
namespace Source

/-- What a character of a stylesheet belongs to. -/
inductive LexicalClass
  | code
  | string
  | blockComment
  | lineComment
  deriving DecidableEq, Repr

/-- A character with its lexical class. -/
structure Cell where
  /-- The character itself. -/
  char : Char
  /-- What the character belongs to. -/
  kind : LexicalClass
  /-- Whether a string or comment begins with this character. -/
  opens : Bool
  deriving DecidableEq, Repr

namespace Cell

/-- The given character, standing as code. -/
def isCode (cell : Cell) (char : Char) : Bool :=
  cell.kind == .code && cell.char == char

/-- A character of a name, standing as code. -/
def isCodeName (cell : Cell) : Bool :=
  cell.kind == .code && isNameChar cell.char

/-- A character of a comment of either form. -/
def isComment (cell : Cell) : Bool :=
  cell.kind == .blockComment || cell.kind == .lineComment

end Cell

/-- The characters of a list of cells. -/
def chars (cells : List Cell) : Text := cells.map Cell.char

/--
What the next character stands in.  Every mode but the line comment remembers
how many parentheses of the code around are open.
-/
inductive Mode
  /-- Code; the flag tells whether a colon stands right before. -/
  | code (depth : Nat) (afterColon : Bool)
  /-- A string that ends at the given quote. -/
  | string (quote : Char) (depth : Nat)
  /-- Right after a backslash of a string. -/
  | escape (quote : Char) (depth : Nat)
  /-- Between the slash and the star that open a block comment. -/
  | commentOpening (depth : Nat)
  /-- A block comment; the flag tells whether a star stands right before. -/
  | comment (depth : Nat) (afterStar : Bool)
  /-- A line comment. -/
  | lineComment
  deriving DecidableEq, Repr

/--
The number of open parentheses after a character of code.  A brace closes all
of them, so an unbalanced parenthesis never leaks past a block boundary.
-/
def parenthesisDepth (depth : Nat) (char : Char) : Nat :=
  if char = '(' then depth + 1
  else if char = ')' then depth - 1
  else if char = '{' ∨ char = '}' then 0
  else depth

namespace Mode

/-- The mode at the start of a text. -/
def initial : Mode := .code 0 false

/-- Reads one character, given the character after it. -/
def read : Mode → Char → Option Char → Cell × Mode
  | .code depth afterColon, char, next =>
      if char = '"' ∨ char = '\'' then
        (⟨char, .string, true⟩, .string char depth)
      else if char = '/' ∧ next = some '*' then
        (⟨char, .blockComment, true⟩, .commentOpening depth)
      else if char = '/' ∧ next = some '/' ∧ depth = 0 ∧ afterColon = false then
        (⟨char, .lineComment, true⟩, .lineComment)
      else
        (⟨char, .code, false⟩, .code (parenthesisDepth depth char) (char == ':'))
  | .string quote depth, char, _ =>
      if char = '\\' then (⟨char, .string, false⟩, .escape quote depth)
      else if char = '\n' then (⟨char, .code, false⟩, .code depth false)
      else if char = quote then (⟨char, .string, false⟩, .code depth false)
      else (⟨char, .string, false⟩, .string quote depth)
  | .escape quote depth, char, _ =>
      (⟨char, .string, false⟩, .string quote depth)
  | .commentOpening depth, char, _ =>
      (⟨char, .blockComment, false⟩, .comment depth false)
  | .comment depth afterStar, char, _ =>
      if char = '/' ∧ afterStar = true then
        (⟨char, .blockComment, false⟩, .code depth false)
      else
        (⟨char, .blockComment, false⟩, .comment depth (char == '*'))
  | .lineComment, char, _ =>
      if char = '\n' then (⟨char, .code, false⟩, .code 0 false)
      else (⟨char, .lineComment, false⟩, .lineComment)

/-- The cells of a text that is read from the given mode on. -/
def cells : Mode → Text → List Cell
  | _, [] => []
  | mode, char :: rest =>
      (mode.read char rest.head?).1 :: cells (mode.read char rest.head?).2 rest

end Mode

/-- The cells of a whole text. -/
def cells (text : Text) : List Cell := Mode.initial.cells text

/-- Reading keeps the character that it is given. -/
@[simp]
theorem Mode.read_char (mode : Mode) (char : Char) (next : Option Char) :
    (mode.read char next).1.char = char := by
  cases mode <;> simp only [Mode.read] <;> repeat' split
  all_goals rfl

/-- The cells of a text hold its characters in order. -/
@[simp]
theorem Mode.chars_cells (mode : Mode) (text : Text) :
    chars (mode.cells text) = text := by
  induction text generalizing mode with
  | nil => rfl
  | cons char rest ih =>
      simpa [chars, Mode.cells] using ih (mode.read char rest.head?).2

/-- The cells of a whole text hold its characters in order. -/
@[simp]
theorem chars_cells (text : Text) : chars (cells text) = text :=
  Mode.chars_cells Mode.initial text

end Source
end LessTheme
