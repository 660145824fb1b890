import LessTheme.Text.Basic

/-!
# Paths

A path is text with slashes between its parts.  It is kept as it was composed,
because reports show it that way; its parts decide which file it names.
-/

namespace LessTheme
namespace Path

/-- Whether a path begins at the root of all files. -/
def isAbsolute (path : Text) : Bool := List.isPrefixOf ['/'] path

/-- Whether a path ends in a slash. -/
def endsInSlash (path : Text) : Bool := List.isSuffixOf ['/'] path

/-- Puts a path behind a folder.  An absolute path stands for itself. -/
def join (folder path : Text) : Text :=
  if isAbsolute path then path
  else if folder.isEmpty || endsInSlash folder then folder ++ path
  else folder ++ '/' :: path

/-- The parts of a path; empty parts and single points say nothing. -/
def parts (path : Text) : List Text :=
  (Text.splitWhere (· == '/') path).filter fun part => !part.isEmpty && part != ['.']

/-- Where the parts of a path begin: at the root of all files or at the working folder. -/
def origin (path : Text) : Text := if isAbsolute path then ['/'] else []

/-- The place of an entry in a folder, given the place of the folder. -/
def child (folder name : Text) : Text :=
  if folder.isEmpty || endsInSlash folder then folder ++ name else folder ++ '/' :: name

/-- Whether a path begins with a single point as a part. -/
def beginsWithPoint (path : Text) : Bool := path == ['.'] || List.isPrefixOf ['.', '/'] path

/--
The place that a path names: two paths with the same parts name the same place.
A single point in front counts, because nothing says which folder it means.
-/
def place (path : Text) : Text :=
  (parts path).foldl child (if beginsWithPoint path then ['.'] else origin path)

/-- The place of the folder that holds the last part of a path. -/
def parentPlace (path : Text) : Text := (parts path).dropLast.foldl child (origin path)

/-- The place that a part leads to from a folder; two points lead back. -/
def enter (folder part : Text) : Text :=
  let above := parts folder
  if part != ['.', '.'] then child folder part
  else if above.isEmpty || above.getLast? == some ['.', '.'] then
    if isAbsolute folder then folder else child folder part
  else parentPlace folder

/-- The places that some parts lead through from a place, that place included. -/
def wayFrom : Text → List Text → List Text
  | here, [] => [here]
  | here, part :: rest => here :: wayFrom (enter here part) rest

/-- The places that a path leads through, where it begins and where it ends included. -/
def way (path : Text) : List Text := wayFrom (origin path) (parts path)

/-- Whether a path says of itself that it names a folder. -/
def namesFolder (path : Text) : Bool := endsInSlash path || List.isSuffixOf ['/', '.'] path

/-- Whether the last part of a path, slashes behind it aside, is the name of an entry. -/
def endsInName (path : Text) : Bool :=
  ((Text.splitWhere (· == '/') path).filter fun part => !part.isEmpty).getLast?.any fun part =>
    part != ['.'] && part != ['.', '.']

/-- Drops slashes and single points that are parts from the end of a path, which is given in reverse. -/
def dropEmptyEnd : Text → Text
  | '/' :: rest => dropEmptyEnd rest
  | '.' :: '/' :: rest => dropEmptyEnd rest
  | rest => rest

/-- The path of the folder that holds the last part of a path; empty for the working folder. -/
def folderOf (path : Text) : Text :=
  let folder := (dropEmptyEnd ((dropEmptyEnd path.reverse).dropWhile (· != '/'))).reverse
  if folder.isEmpty then origin path else folder

/-- Whether a place is given without the name of any folder. -/
def isUnnamed (place : Text) : Bool := (parts place).all (· == ['.', '.'])

/-- What follows a folder in the place of an entry below it. -/
def below? (folder place : Text) : Option Text :=
  if place == folder || isAbsolute folder != isAbsolute place then none
  else List.isPrefixOf? (child folder []) place

/-- The name of the entry of a folder that leads to a place below it. -/
def entryToward? (folder place : Text) : Option Text :=
  (below? folder place).map fun rest => rest.takeWhile (· != '/')

/-- The name of an entry without the extension, if the entry has that extension. -/
def stem? (extension name : Text) : Option Text :=
  let ending := '.' :: extension
  if ending.length < name.length && List.isSuffixOf ending name then
    some (name.take (name.length - ending.length))
  else none

end Path
end LessTheme
