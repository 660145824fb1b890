import LessTheme.Text.Basic

/-!
# UTF-8

Files and other programs deal in bytes.  Bytes are read one after the other
into pieces: characters, and stretches that belong to no character.  A strict
reader refuses the first such stretch, a lenient one puts the replacement
character in its place.  A stretch is as long as the bytes that some character
begins with.
-/

namespace LessTheme

/-- The contents of a file. -/
abbrev Bytes := List UInt8

namespace Utf8

/-- The last six bits of a number, as a byte inside a character. -/
def tailByte (number : Nat) : UInt8 := .ofNat (0x80 + number % 64)

/-- The bytes of a character. -/
def encodeChar (char : Char) : Bytes :=
  let code := char.toNat
  if code < 0x80 then [.ofNat code]
  else if code < 0x800 then [.ofNat (0xC0 + code / 64), tailByte code]
  else if code < 0x10000 then
    [.ofNat (0xE0 + code / 4096), tailByte (code / 64), tailByte code]
  else
    [.ofNat (0xF0 + code / 262144), tailByte (code / 4096), tailByte (code / 64), tailByte code]

/-- The bytes of a text. -/
def encode (text : Text) : Bytes := text.flatMap encodeChar

/-- A character whose first bytes have been read. -/
structure Begun where
  /-- The bits read so far. -/
  bits : Nat
  /-- How many bytes have been read. -/
  read : Nat
  /-- How many bytes are missing. -/
  missing : Nat
  /-- The least byte that may come next. -/
  least : Nat
  /-- The greatest byte that may come next. -/
  greatest : Nat
  deriving DecidableEq, Repr

/-- What bytes are read into. -/
inductive Piece
  /-- A character. -/
  | char (value : Char)
  /-- Bytes that no byte after them makes a character. -/
  | malformed (length : Nat)
  /-- The beginning of a character at the end of the input. -/
  | incomplete
  deriving DecidableEq, Repr

/-- What a byte leads to: the pieces that it completes and the character that it begins. -/
abbrev Step := List Piece × Option Begun

/-- Reads a byte where a character may begin. -/
def beginChar (byte : Nat) : Step :=
  if byte < 0x80 then ([.char (.ofNat byte)], none)
  else if byte < 0xC2 then ([.malformed 1], none)
  else if byte < 0xE0 then ([], some ⟨byte - 0xC0, 1, 1, 0x80, 0xBF⟩)
  else if byte = 0xE0 then ([], some ⟨0, 1, 2, 0xA0, 0xBF⟩)
  else if byte = 0xED then ([], some ⟨0xD, 1, 2, 0x80, 0x9F⟩)
  else if byte < 0xF0 then ([], some ⟨byte - 0xE0, 1, 2, 0x80, 0xBF⟩)
  else if byte = 0xF0 then ([], some ⟨0, 1, 3, 0x90, 0xBF⟩)
  else if byte < 0xF4 then ([], some ⟨byte - 0xF0, 1, 3, 0x80, 0xBF⟩)
  else if byte = 0xF4 then ([], some ⟨4, 1, 3, 0x80, 0x8F⟩)
  else ([.malformed 1], none)

/-- Reads a byte inside a character; a byte that does not fit may begin another character. -/
def Begun.step (begun : Begun) (byte : Nat) : Step :=
  let bits := begun.bits * 64 + (byte - 0x80)
  if byte < begun.least ∨ begun.greatest < byte then
    (.malformed begun.read :: (beginChar byte).1, (beginChar byte).2)
  else if begun.missing ≤ 1 then ([.char (.ofNat bits)], none)
  else ([], some ⟨bits, begun.read + 1, begun.missing - 1, 0x80, 0xBF⟩)

/-- Reads a byte. -/
def step : Option Begun → Nat → Step
  | none, byte => beginChar byte
  | some begun, byte => begun.step byte

/-- The pieces of some bytes, after the beginning of a character. -/
def piecesAfter : Option Begun → Bytes → List Piece
  | none, [] => []
  | some _, [] => [.incomplete]
  | begun, byte :: rest =>
      (step begun byte.toNat).1 ++ piecesAfter (step begun byte.toNat).2 rest

/-- The pieces of some bytes. -/
def pieces (bytes : Bytes) : List Piece := piecesAfter none bytes

/-! ## Lenient reading -/

/-- The character that stands for bytes that belong to no character. -/
def replacement : Char := '\ufffd'

/-- The character for a piece. -/
def Piece.lenient : Piece → Char
  | .char value => value
  | .malformed _ => replacement
  | .incomplete => replacement

/-- The text of some bytes, with replacement characters for what is no character. -/
def decodeLenient (bytes : Bytes) : Text := (pieces bytes).map Piece.lenient

/-! ## Strict reading -/

/-- Where bytes cease to be text. -/
structure Malformed where
  /-- How many bytes before it are text. -/
  start : Nat
  /-- The number of bytes that belong to no character; none if the input ends too early. -/
  length? : Option Nat
  deriving DecidableEq, Repr

namespace Malformed

/-- The wording of the report. -/
def message (report : Malformed) : Text :=
  let start := (toString report.start).toList
  match report.length? with
  | some length =>
      "invalid utf-8 sequence of " ++ (toString length).toList ++ " bytes from index " ++ start
  | none => "incomplete utf-8 byte sequence from index " ++ start

end Malformed

/-- The text of some pieces that begin at a byte; only characters are accepted. -/
def charsFrom (start : Nat) : List Piece → Except Malformed Text
  | [] => .ok []
  | .char value :: rest => (charsFrom (start + value.utf8Size) rest).map (value :: ·)
  | .malformed length :: _ => .error ⟨start, some length⟩
  | .incomplete :: _ => .error ⟨start, none⟩

/-- The text of some bytes, if they are text. -/
def decode (bytes : Bytes) : Except Malformed Text := charsFrom 0 (pieces bytes)

end Utf8
end LessTheme
