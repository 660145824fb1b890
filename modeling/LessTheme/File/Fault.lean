import LessTheme.Text.Utf8

/-!
# Why a file cannot be used

A fault of the operating system has a number, unless the operating system was
not asked at all.  A table in memory reports the path instead.  A file that is
no text is reported with its path either way.
-/

namespace LessTheme

/-- A fault of a path or of what it leads to. -/
inductive SystemFault
  | noEntry
  | denied
  | exists
  | notFolder
  | isFolder
  | nameTooLong
  | zeroByte
  deriving DecidableEq, Repr

namespace SystemFault

/-- The number of a fault that the operating system reports. -/
def number? : SystemFault → Option Nat
  | .noEntry => some 2
  | .denied => some 13
  | .exists => some 17
  | .notFolder => some 20
  | .isFolder => some 21
  | .nameTooLong => some 36
  | .zeroByte => none

/-- The description of a fault. -/
def description : SystemFault → Text
  | .noEntry => "No such file or directory"
  | .denied => "Permission denied"
  | .exists => "File exists"
  | .notFolder => "Not a directory"
  | .isFolder => "Is a directory"
  | .nameTooLong => "File name too long"
  | .zeroByte => "file name contained an unexpected NUL byte"

/-- The wording of a fault. -/
def message (fault : SystemFault) : Text :=
  match fault.number? with
  | some number => fault.description ++ " (os error " ++ (toString number).toList ++ ")"
  | none => fault.description

end SystemFault

/-- Why a file cannot be used. -/
inductive FileFault
  /-- There is no file under a path. -/
  | absent (path : Text)
  /-- The file under a path may not be read. -/
  | denied (path : Text)
  /-- The operating system refuses. -/
  | system (fault : SystemFault)
  /-- The file under a path is not text. -/
  | notText (path : Text) (report : Utf8.Malformed)
  /-- A fault known by its wording only. -/
  | other (wording : Text)
  deriving DecidableEq, Repr

namespace FileFault

/-- The wording of a fault. -/
def message : FileFault → Text
  | .absent path => "no such file: " ++ path
  | .denied path => "permission denied: " ++ path
  | .system fault => fault.message
  | .notText path report => path ++ " is not valid UTF-8: " ++ report.message
  | .other wording => wording

end FileFault
end LessTheme
