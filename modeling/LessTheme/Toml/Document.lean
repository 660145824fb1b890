import LessTheme.Toml.Value

/-!
# Reading documents

A document is a sequence of lines.  A header opens a table, and the
assignments after it belong to that table until the next header.
-/

namespace LessTheme
namespace Toml

/-! ## Lines -/

/-- What a line says. -/
inductive Statement
  /-- Gives a key a value. -/
  | assign (key : Key) (node : Node)
  /-- Opens a table. -/
  | openTable (key : Key)
  /-- Opens one more table under a header between double brackets. -/
  | openItem (key : Key)
  deriving Repr

/-- Drops the rest of a line: blanks, a comment and the line end. -/
def endLine? (text : Text) : Option Text :=
  let rest := match skipBlanks text with
    | '#' :: comment => comment.dropWhile isPlain
    | rest => rest
  if rest.isEmpty then some [] else afterLineEnd? rest

/-- Reads a header between double brackets. -/
def itemHeader? : Reader Statement := fun text => do
  let (key, rest) ← key? text
  let (_, rest) ← Reader.mark ']' rest
  let (_, rest) ← Reader.mark ']' rest
  return (.openItem key, rest)

/-- Reads a header between brackets. -/
def tableHeader? : Reader Statement := fun text => do
  let (key, rest) ← key? text
  let (_, rest) ← Reader.mark ']' rest
  return (.openTable key, rest)

/-- Reads a key and its value. -/
def assignment? : Reader Statement := fun text => do
  let (key, rest) ← key? text
  let (_, rest) ← Reader.mark '=' rest
  let (node, rest) ← value? (skipBlanks rest)
  return (.assign key node, rest)

/-- Reads a statement. -/
def statement? : Reader Statement := fun text =>
  match text with
  | '[' :: '[' :: rest => itemHeader? rest
  | '[' :: rest => tableHeader? rest
  | _ => assignment? text

/-- Whether nothing is said before the end of a line. -/
def isSilent (text : Text) : Bool :=
  text.isEmpty || List.isPrefixOf ['#'] text || (afterLineEnd? text).isSome

/-- The statements of a text of no more lines than the given number. -/
def statementsWithin? : Nat → Text → Option (List Statement)
  | 0, text => if text.isEmpty then some [] else none
  | count + 1, text => do
      let start := skipBlanks text
      if isSilent start then statementsWithin? count (← endLine? start)
      else
        let (statement, rest) ← statement? start
        let others ← statementsWithin? count (← endLine? rest)
        return statement :: others

/-- The statements of a text. -/
def statements? (text : Text) : Option (List Statement) := statementsWithin? text.length text

/-! ## Tables -/

/-- A document that is partly read. -/
structure Draft where
  /-- The entries of all tables but the open one. -/
  root : Entries
  /-- The key of the open table; none for the document itself. -/
  key : Option Key
  /-- Whether the open table is one of several under its header. -/
  isItem : Bool
  /-- The entries of the open table. -/
  current : Entries

namespace Draft

/-- The draft before the first line. -/
def start : Draft := ⟨[], none, false, []⟩

/-- Changes the table of the root that some keys lead to. -/
def changeRoot (draft : Draft) (path : List Text) (change : Entries → Option (Entries × Entries)) :
    Option (Entries × Entries) :=
  descend .implied (fun _ entries => change entries) path .header draft.root

/-- Adds one more table under a header between double brackets. -/
def pushItem? (name : Text) (item : Entries) (entries : Entries) : Option Entries :=
  match entries.lookup name with
  | some (.tables items) => some (replaceEntry name (.tables (items ++ [item])) entries)
  | _ => none

/-- Closes the open table. -/
def close? (draft : Draft) : Option Entries :=
  match draft.key with
  | none => some draft.current
  | some key =>
      (draft.changeRoot key.path fun entries =>
        (if draft.isItem then pushItem? key.name draft.current entries
          else addNew? key.name (.table .header draft.current) entries).map
            fun changed => (changed, [])).map Prod.fst

/-- Takes a table out of the root that a header inside it implied; none is there before. -/
def takeImplied? (name : Text) (entries : Entries) : Option (Entries × Entries) :=
  match entries.lookup name with
  | none => some (entries, [])
  | some (.table .implied inner) => some (removeEntry name entries, inner)
  | some _ => none

/-- Makes sure that tables may be put under a header between double brackets. -/
def admitItems? (name : Text) (entries : Entries) : Option (Entries × Entries) :=
  match entries.lookup name with
  | none => some (entries ++ [(name, .tables [])], [])
  | some (.tables _) => some (entries, [])
  | some _ => none

/-- Follows a statement. -/
def follow? (draft : Draft) : Statement → Option Draft
  | .assign key node =>
      (assign? key.path key.name node draft.current).map fun current =>
        { draft with current := current }
  | .openTable key => do
      let closed : Draft := { draft with root := ← draft.close? }
      let (root, inner) ← closed.changeRoot key.path (takeImplied? key.name)
      return ⟨root, some key, false, inner⟩
  | .openItem key => do
      let closed : Draft := { draft with root := ← draft.close? }
      let (root, _) ← closed.changeRoot key.path (admitItems? key.name)
      return ⟨root, some key, true, []⟩

end Draft

/-- The entries of the document that a text writes.  A byte-order mark in front is dropped. -/
def read? (text : Text) : Option Entries := do
  let statements ← statements? text.withoutByteOrderMark
  (← statements.foldlM Draft.follow? .start).close?

end Toml
end LessTheme
