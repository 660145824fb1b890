import LessTheme.Text.Basic

/-!
# Byte-order marks and line ends

The first lowering step leaves no byte-order mark and no carriage return, so
the later ones meet line feeds only.
-/

namespace LessTheme
namespace Lowering

/-- Writes every line end as one line feed. -/
def unifyLineEnds : Text → Text
  | [] => []
  | '\r' :: '\n' :: rest => '\n' :: unifyLineEnds rest
  | '\r' :: rest => '\n' :: unifyLineEnds rest
  | char :: rest => char :: unifyLineEnds rest

/-- Removes every byte-order mark and writes every line end as one line feed. -/
def plainLines (source : Text) : Text :=
  unifyLineEnds (source.filter (· != '\ufeff'))

end Lowering
end LessTheme
