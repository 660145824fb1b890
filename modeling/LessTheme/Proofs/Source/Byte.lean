import LessTheme.Proofs.Source.Closed
import LessTheme.Proofs.Text.Utf8

/-!
# Cells of single bytes

A scanner may as well go from byte to byte.  Every byte is taken here for the
character with its number, so the text of the bytes has cells too.  All marks
of a stylesheet are in ASCII, and a byte of a character beyond ASCII is never
in ASCII.  So the bytes of a character belong to what the character belongs to,
and a scanner that looks for marks goes as far over the bytes as over the
characters.
-/

namespace LessTheme

/-- A character that takes more than one byte. -/
def IsWide (char : Char) : Prop := 0x80 ≤ char.toNat

theorem not_isWide_of_eq
    {char mark : Char}
    (same : char = mark)
    (narrow : mark.toNat < 0x80) :
    ¬IsWide char :=
  same ▸ Nat.not_le.2 narrow

/-- No character of a text is beyond ASCII if none is found to be. -/
theorem not_isWide_of_all
    {text : Text}
    (narrow : (text.all fun char => decide (char.toNat < 0x80)) = true) :
    ∀ char ∈ text, ¬IsWide char :=
  fun char member => Nat.not_le.2 (of_decide_eq_true (List.all_eq_true.1 narrow char member))

namespace IsWide

variable {char : Char}

theorem ne
    {mark : Char}
    (wide : IsWide char)
    (narrow : mark.toNat < 0x80) :
    char ≠ mark := fun same => not_isWide_of_eq same narrow wide

theorem isNameChar_eq_false (wide : IsWide char) : isNameChar char = false := by
  have isLarge : 0x80 ≤ char.toNat := wide
  delta isNameChar Char.isAlphanum Char.isAlpha Char.isUpper Char.isLower Char.isDigit
  simp only [ge_iff_le, UInt32.le_iff_toNat_le, Bool.or_eq_false_iff, Bool.and_eq_false_iff,
    decide_eq_false_iff_not, beq_eq_false_iff_ne]
  have code : char.val.toNat = char.toNat := rfl
  refine ⟨⟨⟨⟨?_, ?_⟩, ?_⟩, wide.ne (by decide)⟩, wide.ne (by decide)⟩
  all_goals
    simp
    omega

theorem isAsciiWhiteSpace_eq_false (wide : IsWide char) : isAsciiWhiteSpace char = false := by
  have noMark (mark : Char) (narrow : mark.toNat < 0x80) : (char == mark) = false :=
    beq_false_of_ne (wide.ne narrow)
  simp (disch := decide) only [isAsciiWhiteSpace, noMark, Bool.or_false]

theorem isNameMark_eq_false (wide : IsWide char) : Source.isNameMark char = false := by
  have noMark (mark : Char) (narrow : mark.toNat < 0x80) : (char == mark) = false :=
    beq_false_of_ne (wide.ne narrow)
  simp (disch := decide) only [Source.isNameMark, noMark, Bool.or_false]

end IsWide

theorem Utf8.le_toNat_of_mem_encodeChar
    {char : Char}
    (wide : IsWide char)
    {byte : UInt8}
    (member : byte ∈ Utf8.encodeChar char) :
    0x80 ≤ byte.toNat := by
  have range := Utf8.toNat_ne_surrogate char
  have isLarge : ¬char.toNat < 0x80 := Nat.not_lt.2 wide
  have isTail (number : Nat) : 0x80 ≤ (Utf8.tailByte number).toNat := by
    rw [Utf8.toNat_tailByte]
    omega
  have isLead (first : Nat) (below : 0x80 ≤ first) (isByte : first < 0x100) :
      0x80 ≤ (UInt8.ofNat first).toNat := by rwa [Utf8.toNat_ofNat_of_lt isByte]
  unfold Utf8.encodeChar at member
  generalize char.toNat = code at range isLarge member
  dsimp only at member
  rw [if_neg isLarge] at member
  split_ifs at member
  all_goals
    simp only [List.mem_cons, List.not_mem_nil, or_false] at member
    obtain rfl | member := member
    · exact isLead _ (by omega) (by omega)
  · exact member ▸ isTail _
  · obtain rfl | rfl := member <;> exact isTail _
  · obtain rfl | rfl | rfl := member <;> exact isTail _

namespace Text

/-- The bytes of a character, each as the character with its number. -/
def charBytes (char : Char) : Text :=
  (Utf8.encodeChar char).map fun byte => Char.ofNat byte.toNat

/-- The bytes of a text, each as the character with its number. -/
def bytes (text : Text) : Text := (Utf8.encode text).map fun byte => Char.ofNat byte.toNat

@[simp] theorem bytes_cons
    (char : Char)
    (rest : Text) :
    bytes (char :: rest) = charBytes char ++ bytes rest := by
  rw [bytes, Utf8.encode, List.flatMap_cons, List.map_append]
  rfl

/-- A character of ASCII is its only byte. -/
theorem charBytes_of_not_isWide
    {char : Char}
    (narrow : ¬IsWide char) :
    charBytes char = [char] := by
  have isSmall : char.toNat < 0x80 := Nat.not_le.1 narrow
  rw [charBytes, Utf8.encodeChar]
  simp only [isSmall, if_true, List.map_cons, List.map_nil]
  rw [Utf8.toNat_ofNat_of_lt (by omega), Char.ofNat_toNat]

/-- No byte of a character beyond ASCII is in ASCII. -/
theorem isWide_of_mem_charBytes
    {char byte : Char}
    (wide : IsWide char)
    (member : byte ∈ charBytes char) :
    IsWide byte := by
  obtain ⟨number, isByte, rfl⟩ := List.mem_map.1 member
  have large := Utf8.le_toNat_of_mem_encodeChar wide isByte
  have small := number.toNat_lt
  have isValid : number.toNat.isValidChar := Or.inl (by omega)
  rw [IsWide, Char.ofNat, dif_pos isValid]
  exact large

theorem length_charBytes (char : Char) : (charBytes char).length = char.utf8Size := by
  have same : char.toNat = char.val.toNat := rfl
  rw [charBytes, List.length_map, Utf8.encodeChar, Char.utf8Size]
  simp only [UInt32.le_iff_toNat_le, UInt32.toNat_ofNatLT, same]
  generalize char.val.toNat = code
  split_ifs <;> first
    | rfl
    | omega

theorem utf8Size_of_not_isWide
    {char : Char}
    (narrow : ¬IsWide char) :
    char.utf8Size = 1 := by
  rw [← length_charBytes, charBytes_of_not_isWide narrow]
  rfl

theorem length_bytes (text : Text) : (bytes text).length = text.byteLength := by
  induction text with
  | nil => rfl
  | cons char rest inductionHypothesis =>
      rw [bytes_cons, List.length_append, inductionHypothesis, length_charBytes, byteLength]

theorem charBytes_ne_nil (char : Char) : charBytes char ≠ [] := by
  intro isEmpty
  have size := length_charBytes char
  have positive := char.utf8Size_pos
  rw [isEmpty, List.length_nil] at size
  omega

/-- A character beyond ASCII begins with a byte beyond ASCII. -/
theorem exists_charBytes_eq_cons
    {char : Char}
    (wide : IsWide char) :
    ∃ byte others, charBytes char = byte :: others ∧ IsWide byte := by
  obtain ⟨byte, others, split⟩ := List.exists_cons_of_ne_nil (charBytes_ne_nil char)
  exact ⟨byte, others, split, isWide_of_mem_charBytes wide (split ▸ List.mem_cons_self)⟩

/-- The first byte and the first character are the same if one of them is in ASCII. -/
theorem head?_bytes_eq_some_iff
    {text : Text}
    {mark : Char}
    (narrow : mark.toNat < 0x80) :
    (bytes text).head? = some mark ↔ text.head? = some mark := by
  cases text with
  | nil => rfl
  | cons char rest =>
      rw [bytes_cons]
      by_cases wide : IsWide char
      · obtain ⟨byte, others, split, wideByte⟩ := exists_charBytes_eq_cons wide
        rw [split, List.cons_append, List.head?_cons, List.head?_cons, Option.some.injEq,
          Option.some.injEq]
        exact iff_of_false (wideByte.ne narrow) (wide.ne narrow)
      · rw [charBytes_of_not_isWide wide]
        rfl

/-- A pattern of ASCII begins a text if it begins the bytes. -/
theorem isPrefixOf_bytes
    {pattern : Text}
    (narrow : ∀ char ∈ pattern, ¬IsWide char)
    (text : Text) :
    pattern.isPrefixOf (bytes text) = pattern.isPrefixOf text := by
  induction pattern generalizing text with
  | nil => rw [List.isPrefixOf_nil_left, List.isPrefixOf_nil_left]
  | cons mark others inductionHypothesis =>
      obtain ⟨isNarrow, othersNarrow⟩ := List.forall_mem_cons.1 narrow
      have fails (char : Char) (wide : IsWide char) : (mark == char) = false :=
        beq_false_of_ne fun same => isNarrow (same ▸ wide)
      cases text with
      | nil => rfl
      | cons char rest =>
          rw [bytes_cons]
          by_cases wide : IsWide char
          · obtain ⟨byte, others, split, wideByte⟩ := exists_charBytes_eq_cons wide
            rw [split, List.cons_append, List.isPrefixOf_cons_cons, List.isPrefixOf_cons_cons,
              fails char wide, fails byte wideByte, Bool.false_and, Bool.false_and]
          · rw [charBytes_of_not_isWide wide, List.singleton_append, List.isPrefixOf_cons_cons,
              List.isPrefixOf_cons_cons, inductionHypothesis othersNarrow]

theorem any_head?_bytes
    {test : Char → Bool}
    (fails : ∀ char, IsWide char → test char = false)
    (text : Text) :
    (bytes text).head?.any test = text.head?.any test := by
  cases text with
  | nil => rfl
  | cons char rest =>
      rw [bytes_cons]
      by_cases wide : IsWide char
      · obtain ⟨byte, others, split, wideByte⟩ := exists_charBytes_eq_cons wide
        rw [split, List.cons_append, List.head?_cons, List.head?_cons, Option.any_some,
          Option.any_some, fails char wide, fails byte wideByte]
      · rw [charBytes_of_not_isWide wide]
        rfl

end Text

namespace Source

/-! ## The cells of the bytes -/

/-- The bytes of a cell, as cells of the same kind. -/
def Cell.bytes (cell : Cell) : List Cell :=
  (Text.charBytes cell.char).map fun byte => ⟨byte, cell.kind, cell.opens⟩

/-- The bytes of some cells. -/
def bytesOf (cells : List Cell) : List Cell := cells.flatMap Cell.bytes

@[simp] theorem bytesOf_nil : bytesOf [] = [] := rfl

@[simp] theorem bytesOf_cons
    (cell : Cell)
    (rest : List Cell) :
    bytesOf (cell :: rest) = cell.bytes ++ bytesOf rest := rfl

theorem bytesOf_append (front back : List Cell) :
    bytesOf (front ++ back) = bytesOf front ++ bytesOf back :=
  List.flatMap_append

theorem chars_bytesOf (cells : List Cell) : chars (bytesOf cells) = Text.bytes (chars cells) := by
  induction cells with
  | nil => rfl
  | cons cell rest inductionHypothesis =>
      rw [bytesOf_cons, chars_append, inductionHypothesis, chars_cons, Text.bytes_cons, Cell.bytes,
        chars, List.map_map]
      exact congrArg (· ++ _) (List.map_id _)

theorem length_bytesOf (cells : List Cell) :
    (bytesOf cells).length = Text.byteLength (chars cells) := by
  rw [← length_chars, chars_bytesOf, Text.length_bytes]

theorem Cell.bytes_of_not_isWide
    {cell : Cell}
    (narrow : ¬IsWide cell.char) :
    cell.bytes = [cell] := by
  rw [Cell.bytes, Text.charBytes_of_not_isWide narrow]
  rfl

/-- Cells of ASCII are their bytes. -/
theorem bytesOf_eq_self
    {cells : List Cell}
    (narrow : ∀ cell ∈ cells, ¬IsWide cell.char) :
    bytesOf cells = cells := by
  induction cells with
  | nil => rfl
  | cons cell rest inductionHypothesis =>
      obtain ⟨here, later⟩ := List.forall_mem_cons.1 narrow
      rw [bytesOf_cons, Cell.bytes_of_not_isWide here, inductionHypothesis later]
      rfl

/-- Cells of ASCII in front are passed over with as many bytes. -/
theorem drop_bytesOf
    {count : Nat}
    {cells : List Cell}
    (narrow : ∀ cell ∈ cells.take count, ¬IsWide cell.char) :
    (bytesOf cells).drop count = bytesOf (cells.drop count) := by
  induction count generalizing cells with
  | zero => rfl
  | succ further inductionHypothesis =>
      cases cells with
      | nil => rfl
      | cons cell rest =>
          obtain ⟨here, later⟩ := List.forall_mem_cons.1 narrow
          rw [bytesOf_cons, Cell.bytes_of_not_isWide here, List.singleton_append,
            List.drop_succ_cons, List.drop_succ_cons, inductionHypothesis later]

theorem Cell.length_bytes (cell : Cell) : cell.bytes.length = cell.char.utf8Size := by
  rw [Cell.bytes, List.length_map, Text.length_charBytes]

theorem Cell.bytes_ne_nil (cell : Cell) : cell.bytes ≠ [] := by
  rw [Cell.bytes, ne_eq, List.map_eq_nil_iff]
  exact Text.charBytes_ne_nil cell.char

theorem Cell.isCode_eq_false_of_isWide
    {cell : Cell}
    (wide : IsWide cell.char)
    {mark : Char}
    (narrow : mark.toNat < 0x80) :
    cell.isCode mark = false := by
  rw [Cell.isCode, beq_false_of_ne (wide.ne narrow), Bool.and_false]

theorem Cell.not_isWide_of_isCodeName
    {cell : Cell}
    (named : cell.isCodeName = true) :
    ¬IsWide cell.char := by
  intro wide
  rw [Cell.isCodeName, wide.isNameChar_eq_false, Bool.and_false] at named
  contradiction

theorem Cell.of_mem_bytes
    {cell byte : Cell}
    (member : byte ∈ cell.bytes) :
    byte.kind = cell.kind ∧ (IsWide cell.char → IsWide byte.char) := by
  obtain ⟨char, isByte, rfl⟩ := List.mem_map.1 member
  exact ⟨rfl, fun wide => Text.isWide_of_mem_charBytes wide isByte⟩

/-- A cell beyond ASCII begins with a byte beyond ASCII. -/
theorem Cell.exists_bytes_eq_cons
    {cell : Cell}
    (wide : IsWide cell.char) :
    ∃ byte others, cell.bytes = byte :: others ∧ IsWide byte.char := by
  obtain ⟨byte, others, split⟩ := List.exists_cons_of_ne_nil cell.bytes_ne_nil
  exact ⟨byte, others, split, (Cell.of_mem_bytes (split ▸ List.mem_cons_self)).2 wide⟩

namespace Mode

/-- What a character beyond ASCII belongs to, and the mode behind it. -/
def readWide : Mode → LexicalClass × Mode
  | .code depth _ => (.code, .code depth false)
  | .string quote depth => (.string, .string quote depth)
  | .escape quote depth => (.string, .string quote depth)
  | .commentOpening depth => (.blockComment, .comment depth false)
  | .comment depth _ => (.blockComment, .comment depth false)
  | .lineComment => (.lineComment, .lineComment)

theorem readWide_readWide (mode : Mode) : mode.readWide.2.readWide = mode.readWide := by
  cases mode <;> rfl

theorem HasQuote.readWide
    {mode : Mode}
    (hasQuote : mode.HasQuote) :
    mode.readWide.2.HasQuote := by
  cases mode with
  | string | escape => exact hasQuote
  | code | commentOpening | comment | lineComment => trivial

/-- Every character beyond ASCII is read alike. -/
theorem HasQuote.read_of_isWide
    {mode : Mode}
    (hasQuote : mode.HasQuote)
    {char : Char}
    (wide : IsWide char)
    (next : Option Char) :
    mode.read char next = (⟨char, mode.readWide.1, false⟩, mode.readWide.2) := by
  have noMark (mark : Char) (narrow : mark.toNat < 0x80) : ¬char = mark := wide.ne narrow
  have noMarkBool (mark : Char) (narrow : mark.toNat < 0x80) : (char == mark) = false :=
    beq_false_of_ne (wide.ne narrow)
  cases mode with
  | code depth afterColon =>
      simp (disch := decide) [Mode.read, Mode.readWide, parenthesisDepth, noMark, noMarkBool]
  | string quote depth =>
      have noQuote : char ≠ quote := by
        obtain rfl | rfl := hasQuote <;> exact wide.ne (by decide)
      simp (disch := decide) [Mode.read, Mode.readWide, noMark, noQuote]
  | escape | commentOpening => rfl
  | comment depth afterStar =>
      simp (disch := decide) [Mode.read, Mode.readWide, noMark, noMarkBool]
  | lineComment => simp (disch := decide) [Mode.read, Mode.readWide, noMark]

theorem HasQuote.cells_append_of_isWide
    {mode : Mode}
    (hasQuote : mode.HasQuote)
    {front : Text}
    (wide : ∀ char ∈ front, IsWide char)
    (nonempty : front ≠ [])
    (rest : Text) :
    mode.cells (front ++ rest) =
      front.map (⟨·, mode.readWide.1, false⟩) ++ mode.readWide.2.cells rest := by
  induction front generalizing mode with
  | nil => contradiction
  | cons char others inductionHypothesis =>
      obtain ⟨here, later⟩ := List.forall_mem_cons.1 wide
      rw [List.cons_append, Mode.cells, hasQuote.read_of_isWide here, List.map_cons,
        List.cons_append]
      cases others with
      | nil => rfl
      | cons second others =>
          rw [inductionHypothesis hasQuote.readWide later (List.cons_ne_nil _ _),
            readWide_readWide]

theorem read_congr
    {next other : Option Char}
    (star : next = some '*' ↔ other = some '*')
    (slash : next = some '/' ↔ other = some '/')
    (mode : Mode)
    (char : Char) :
    mode.read char next = mode.read char other := by
  cases mode with
  | code depth afterColon => simp only [Mode.read, star, slash]
  | string | escape | commentOpening | comment | lineComment => rfl

/-- The bytes of a text are read into the bytes of its cells. -/
theorem HasQuote.cells_bytes
    {mode : Mode}
    (hasQuote : mode.HasQuote)
    (text : Text) :
    mode.cells (Text.bytes text) = bytesOf (mode.cells text) := by
  induction text generalizing mode with
  | nil => rfl
  | cons char rest inductionHypothesis =>
      rw [Text.bytes_cons, Mode.cells, bytesOf_cons]
      by_cases wide : IsWide char
      · rw [hasQuote.read_of_isWide wide, hasQuote.cells_append_of_isWide
          (fun _ => Text.isWide_of_mem_charBytes wide) (Text.charBytes_ne_nil char),
          inductionHypothesis hasQuote.readWide]
        rfl
      · have sameRead : mode.read char (Text.bytes rest).head? = mode.read char rest.head? :=
          read_congr (Text.head?_bytes_eq_some_iff (by decide))
            (Text.head?_bytes_eq_some_iff (by decide)) mode char
        have isChar : ¬IsWide (mode.read char rest.head?).1.char := by rwa [Mode.read_char]
        rw [Text.charBytes_of_not_isWide wide, Cell.bytes_of_not_isWide isChar,
          ← inductionHypothesis (hasQuote.read char rest.head?), List.singleton_append, Mode.cells,
          sameRead]
        rfl

end Mode

/-- The bytes of a text are read into the bytes of its cells. -/
theorem cells_bytes (text : Text) : cells (Text.bytes text) = bytesOf (cells text) := by
  have hasQuote : Mode.initial.HasQuote := trivial
  exact hasQuote.cells_bytes text

/-! ## Scanning bytes -/

/-- A search that passes over each byte of a character beyond ASCII passes over all of them. -/
theorem search_append_of_isWide
    {Result : Type}
    {search : Nat → List Cell → Result}
    (passes : ∀ cell, IsWide cell.char → ∀ place rest,
      search place (cell :: rest) = search (place + 1) rest)
    {front : List Cell}
    (wide : ∀ cell ∈ front, IsWide cell.char)
    (place : Nat)
    (rest : List Cell) :
    search place (front ++ rest) = search (place + front.length) rest := by
  induction front generalizing place with
  | nil => rfl
  | cons cell others inductionHypothesis =>
      obtain ⟨here, later⟩ := List.forall_mem_cons.1 wide
      rw [List.cons_append, passes cell here, inductionHypothesis later, List.length_cons,
        Nat.add_right_comm, Nat.add_assoc]

/-- The bytes of a cell beyond ASCII are passed over. -/
theorem search_bytes_append_of_isWide
    {Result : Type}
    {search : Nat → List Cell → Result}
    (passes : ∀ cell, IsWide cell.char → ∀ place rest,
      search place (cell :: rest) = search (place + 1) rest)
    {cell : Cell}
    (wide : IsWide cell.char)
    (place : Nat)
    (rest : List Cell) :
    search place (cell.bytes ++ rest) = search (place + cell.char.utf8Size) rest := by
  rw [search_append_of_isWide passes fun _ member => (Cell.of_mem_bytes member).2 wide,
    cell.length_bytes]

/-- Whether a test says of every byte of a cell what it says of the cell. -/
def IsBytewise (test : Cell → Bool) : Prop :=
  ∀ cell, ∀ byte ∈ cell.bytes, test byte = test cell

namespace IsBytewise

theorem of_isWide
    {test : Cell → Bool}
    (fails : ∀ cell, IsWide cell.char → test cell = false) :
    IsBytewise test := by
  intro cell byte member
  by_cases wide : IsWide cell.char
  · rw [fails cell wide, fails byte ((Cell.of_mem_bytes member).2 wide)]
  · rw [Cell.bytes_of_not_isWide wide, List.mem_singleton] at member
    rw [member]

theorem isCode
    {mark : Char}
    (narrow : mark.toNat < 0x80) :
    IsBytewise (Cell.isCode · mark) :=
  of_isWide fun _ wide => Cell.isCode_eq_false_of_isWide wide narrow

theorem isCodeName : IsBytewise Cell.isCodeName := by
  refine of_isWide fun cell wide => Bool.eq_false_iff.2 fun named => ?_
  exact Cell.not_isWide_of_isCodeName named wide

theorem isComment : IsBytewise Cell.isComment := by
  intro cell byte member
  rw [Cell.isComment, Cell.isComment, (Cell.of_mem_bytes member).1]

variable {test other : Cell → Bool}

theorem not (isTest : IsBytewise test) : IsBytewise fun cell => !test cell :=
  fun cell byte member => congrArg Bool.not (isTest cell byte member)

theorem or
    (isTest : IsBytewise test)
    (isOther : IsBytewise other) :
    IsBytewise fun cell => test cell || other cell :=
  fun cell byte member => congrArg₂ Bool.or (isTest cell byte member) (isOther cell byte member)

theorem and
    (isTest : IsBytewise test)
    (isOther : IsBytewise other) :
    IsBytewise fun cell => test cell && other cell :=
  fun cell byte member => congrArg₂ Bool.and (isTest cell byte member) (isOther cell byte member)

theorem any_bytes
    (isTest : IsBytewise test)
    (cell : Cell) :
    cell.bytes.any test = test cell := by
  have same := isTest cell
  obtain ⟨byte, others, split⟩ := List.exists_cons_of_ne_nil cell.bytes_ne_nil
  rw [split] at same ⊢
  cases holds : test cell with
  | true => exact List.any_eq_true.2 ⟨byte, List.mem_cons_self, by rw [same byte, holds]; simp⟩
  | false => exact List.any_eq_false.2 fun other member => by simp [same other member, holds]

theorem any_bytesOf
    (isTest : IsBytewise test)
    (cells : List Cell) :
    (bytesOf cells).any test = cells.any test := by
  rw [bytesOf, List.any_flatMap]
  exact congrArg cells.any (funext isTest.any_bytes)

/-- A run of cells over which a test holds is a run of bytes, in whatever order these are. -/
theorem takeWhile_flatMap
    (isTest : IsBytewise test)
    {order : Cell → List Cell}
    (isOrder : ∀ cell, (order cell).Perm cell.bytes)
    (cells : List Cell) :
    (cells.flatMap order).takeWhile test = (cells.takeWhile test).flatMap order ∧
      (cells.flatMap order).dropWhile test = (cells.dropWhile test).flatMap order := by
  induction cells with
  | nil => exact ⟨rfl, rfl⟩
  | cons cell rest inductionHypothesis =>
      have same (byte : Cell) (member : byte ∈ order cell) : test byte = test cell :=
        isTest cell byte ((isOrder cell).mem_iff.1 member)
      rw [List.flatMap_cons]
      cases holds : test cell with
      | true =>
          rw [List.takeWhile_append_of_pos fun byte member => (same byte member).trans holds,
            List.dropWhile_append_of_pos fun byte member => (same byte member).trans holds,
            List.takeWhile_cons_of_pos holds, List.dropWhile_cons_of_pos holds,
            inductionHypothesis.1, inductionHypothesis.2]
          exact ⟨rfl, rfl⟩
      | false =>
          have fails : ¬test cell = true := by rw [holds]; decide
          have nonempty : order cell ≠ [] := fun isEmpty =>
            cell.bytes_ne_nil (List.nil_perm.1 (isEmpty ▸ isOrder cell))
          obtain ⟨byte, others, split⟩ := List.exists_cons_of_ne_nil nonempty
          have byteFails : ¬test byte = true := by
            rwa [same byte (split ▸ List.mem_cons_self)]
          rw [List.takeWhile_cons_of_neg fails, List.dropWhile_cons_of_neg fails,
            List.flatMap_cons, split, List.cons_append, List.takeWhile_cons_of_neg byteFails,
            List.dropWhile_cons_of_neg byteFails]
          exact ⟨rfl, rfl⟩

theorem takeWhile_bytesOf
    (isTest : IsBytewise test)
    (cells : List Cell) :
    (bytesOf cells).takeWhile test = bytesOf (cells.takeWhile test) :=
  (isTest.takeWhile_flatMap (fun _ => .refl _) cells).1

theorem dropWhile_bytesOf
    (isTest : IsBytewise test)
    (cells : List Cell) :
    (bytesOf cells).dropWhile test = bytesOf (cells.dropWhile test) :=
  (isTest.takeWhile_flatMap (fun _ => .refl _) cells).2

end IsBytewise

/-! ## Delimiters -/

section Delimiters

variable {opening closing : Char}

theorem enclosed?_append_of_isWide
    (narrowOpening : opening.toNat < 0x80)
    (narrowClosing : closing.toNat < 0x80)
    {front : List Cell}
    (wide : ∀ cell ∈ front, IsWide cell.char)
    (depth : Nat)
    (rest : List Cell) :
    enclosed? opening closing depth (front ++ rest) =
      (enclosed? opening closing depth rest).map (front ++ ·) := by
  induction front with
  | nil => simp
  | cons cell others inductionHypothesis =>
      obtain ⟨here, later⟩ := List.forall_mem_cons.1 wide
      have noOpening := Cell.isCode_eq_false_of_isWide here narrowOpening
      have noClosing := Cell.isCode_eq_false_of_isWide here narrowClosing
      rw [List.cons_append, Nesting.enclosed?_cons_of_isCode_eq_false noOpening noClosing,
        inductionHypothesis later, Option.map_map]
      rfl

/-- The same delimiter is found over the bytes. -/
theorem enclosed?_bytesOf
    (narrowOpening : opening.toNat < 0x80)
    (narrowClosing : closing.toNat < 0x80)
    (depth : Nat)
    (cells : List Cell) :
    enclosed? opening closing depth (bytesOf cells) =
      (enclosed? opening closing depth cells).map bytesOf := by
  induction cells generalizing depth with
  | nil => rfl
  | cons cell rest inductionHypothesis =>
      rw [bytesOf_cons]
      by_cases wide : IsWide cell.char
      · have wideBytes (byte : Cell) (member : byte ∈ cell.bytes) : IsWide byte.char :=
          (Cell.of_mem_bytes member).2 wide
        have noOpening := Cell.isCode_eq_false_of_isWide wide narrowOpening
        have noClosing := Cell.isCode_eq_false_of_isWide wide narrowClosing
        rw [enclosed?_append_of_isWide narrowOpening narrowClosing wideBytes, inductionHypothesis,
          Nesting.enclosed?_cons_of_isCode_eq_false noOpening noClosing, Option.map_map,
          Option.map_map]
        rfl
      · have extend (found : Option (List Cell)) :
            (found.map bytesOf).map (cell :: ·) = (found.map (cell :: ·)).map bytesOf := by
          cases found with
          | none => rfl
          | some inner =>
              simp only [Option.map_some, bytesOf_cons, Cell.bytes_of_not_isWide wide,
                List.singleton_append]
        rw [Cell.bytes_of_not_isWide wide, List.singleton_append, enclosed?.eq_def]
        conv_rhs => rw [enclosed?.eq_def]
        dsimp only
        split_ifs
        · rw [inductionHypothesis, extend]
        · cases depth with
          | zero => rfl
          | succ outer =>
              dsimp only
              rw [inductionHypothesis, extend]
        · rw [inductionHypothesis, extend]

theorem delimited?_bytesOf
    (narrowOpening : opening.toNat < 0x80)
    (narrowClosing : closing.toNat < 0x80)
    (cells : List Cell) :
    delimited? opening closing (bytesOf cells) =
      (delimited? opening closing cells).map bytesOf := by
  cases cells with
  | nil => rfl
  | cons cell rest =>
      rw [bytesOf_cons, delimited?]
      by_cases wide : IsWide cell.char
      · obtain ⟨byte, others, split, wideByte⟩ := Cell.exists_bytes_eq_cons wide
        rw [Cell.isCode_eq_false_of_isWide wide narrowOpening, split, List.cons_append, delimited?,
          Cell.isCode_eq_false_of_isWide wideByte narrowOpening]
        rfl
      · rw [Cell.bytes_of_not_isWide wide, List.singleton_append, delimited?,
          enclosed?_bytesOf narrowOpening narrowClosing]
        split_ifs <;> rfl

end Delimiters

end Source
end LessTheme
