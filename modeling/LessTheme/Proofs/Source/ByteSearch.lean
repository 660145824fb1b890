import LessTheme.Proofs.Source.Byte
import LessTheme.Proofs.Source.CallNesting
import LessTheme.Source.Split

/-!
# Searches over bytes

A text may be searched byte by byte, and what is found between two bytes is
sliced out of it.  Pieces between separators are found in this way, and calls
by their opening parentheses: the name is read backward from there, and the
parenthesis that closes the call is looked for ahead.  Nothing begins or opens
a call inside a name, so the calls come in the order in which they are listed
from left to right.  Both searches find what is found over the characters, and
no slice is refused.
-/

namespace LessTheme
namespace Source

/-! ## Pieces between separators -/

/--
The trimmed pieces of a text between separators at top level, unless a slice is refused,
given how many brackets are open, the byte at which the piece starts and the place of
the bytes ahead.
-/
def piecesFrom?
    (text : Text)
    (separator : Char) : Nat → Nat → Nat → List Cell → Option (List Text)
  | _, start, _, [] => (text.slice? start text.byteLength).map fun piece => [piece.trim]
  | depth, start, place, byte :: rest =>
      if depth = 0 ∧ byte.isSeparator separator = true then do
        let piece ← text.slice? start place
        let later ← piecesFrom? text separator depth (place + 1) (place + 1) rest
        return piece.trim :: later
      else piecesFrom? text separator (bracketDepth depth byte) start (place + 1) rest

/-- The trimmed pieces of a text between separators at top level, unless a slice is refused. -/
def splitTopLevel?
    (separator : Char)
    (text : Text) : Option (List Text) :=
  piecesFrom? text separator 0 0 0 (cells (Text.bytes text))

section Pieces

variable {text : Text} {separator : Char}

theorem bracketDepth_of_isWide
    {cell : Cell}
    (wide : IsWide cell.char)
    (depth : Nat) :
    bracketDepth depth cell = depth := by
  have noMark (mark : Char) (narrow : mark.toNat < 0x80) : cell.isCode mark = false :=
    Cell.isCode_eq_false_of_isWide wide narrow
  simp (disch := decide) only [bracketDepth, noMark, Bool.or_self, Bool.false_eq_true, if_false]

theorem piecesFrom?_cons_of_isWide
    (narrow : separator.toNat < 0x80)
    (depth start : Nat)
    {cell : Cell}
    (wide : IsWide cell.char)
    (place : Nat)
    (rest : List Cell) :
    piecesFrom? text separator depth start place (cell :: rest) =
      piecesFrom? text separator depth start (place + 1) rest := by
  have noSeparator : ¬(depth = 0 ∧ cell.isSeparator separator = true) := by
    rw [Cell.isSeparator, Cell.isCode_eq_false_of_isWide wide narrow]
    exact fun separates => Bool.false_ne_true separates.2
  rw [piecesFrom?, if_neg noSeparator, bracketDepth_of_isWide wide]

/-- A cell that separates nothing is passed over. -/
theorem piecesFrom?_bytesOf_cons
    (narrow : separator.toNat < 0x80)
    {depth : Nat}
    {cell : Cell}
    (noSeparator : ¬(depth = 0 ∧ cell.isSeparator separator = true))
    (start place : Nat)
    (rest : List Cell) :
    piecesFrom? text separator depth start place (bytesOf (cell :: rest)) =
      piecesFrom? text separator (bracketDepth depth cell) start (place + cell.char.utf8Size)
        (bytesOf rest) := by
  rw [bytesOf_cons]
  by_cases wide : IsWide cell.char
  · rw [bracketDepth_of_isWide wide]
    exact search_bytes_append_of_isWide (fun _ => piecesFrom?_cons_of_isWide narrow depth start)
      wide _ _
  · rw [Cell.bytes_of_not_isWide wide, Text.utf8Size_of_not_isWide wide, List.singleton_append,
      piecesFrom?, if_neg noSeparator]

theorem modifyHead_nil_append (pieces : List Text) :
    pieces.modifyHead (([] : Text) ++ ·) = pieces := by
  cases pieces <;> rfl

/-- The same pieces are found over the bytes, and no slice is refused. -/
theorem piecesFrom?_bytesOf
    (narrow : separator.toNat < 0x80)
    {front piece : Text}
    {cells : List Cell}
    (whole : text = front ++ (piece ++ chars cells))
    (depth : Nat) :
    piecesFrom? text separator depth front.byteLength (Text.byteLength (front ++ piece))
        (bytesOf cells) =
      some (((splitCells (Cell.isSeparator separator) depth cells).modifyHead
        (piece ++ ·)).map Text.trim) := by
  induction cells generalizing depth front piece with
  | nil =>
      have isSlice : text.slice? front.byteLength text.byteLength = some piece :=
        Text.slice?_eq_some_iff.2 ⟨front, [], by simp [whole], rfl, by simp [whole]⟩
      rw [bytesOf_nil, piecesFrom?, isSlice]
      simp [splitCells]
  | cons cell rest inductionHypothesis =>
      by_cases splits : depth = 0 ∧ cell.isSeparator separator = true
      · have isNarrow : ¬IsWide cell.char := by
          have separates := splits.2
          rw [Cell.isSeparator, Bool.and_eq_true] at separates
          exact not_isWide_of_eq (Cell.char_of_isCode separates.1) narrow
        have isSlice : text.slice? front.byteLength (Text.byteLength (front ++ piece)) =
            some piece :=
          Text.slice?_eq_some_iff.2 ⟨front, _, whole, rfl, rfl⟩
        have behind : text = (front ++ piece ++ [cell.char]) ++ ([] ++ chars rest) := by
          simp [whole]
        have further := inductionHypothesis behind depth
        have reached : Text.byteLength (front ++ piece ++ [cell.char]) =
            Text.byteLength (front ++ piece) + 1 := by
          rw [Text.byteLength_append, Text.byteLength, Text.utf8Size_of_not_isWide isNarrow]
          rfl
        rw [List.append_nil, reached] at further
        rw [bytesOf_cons, Cell.bytes_of_not_isWide isNarrow, List.singleton_append, piecesFrom?,
          if_pos splits, isSlice, further, modifyHead_nil_append, splitCells, if_pos splits]
        simp
      · have behind : text = front ++ ((piece ++ [cell.char]) ++ chars rest) := by
          simp [whole]
        have further := inductionHypothesis behind (bracketDepth depth cell)
        have reached : Text.byteLength (front ++ (piece ++ [cell.char])) =
            Text.byteLength (front ++ piece) + cell.char.utf8Size := by
          rw [← List.append_assoc, Text.byteLength_append]
          rfl
        rw [reached] at further
        rw [piecesFrom?_bytesOf_cons narrow splits, further, splitCells, if_neg splits,
          List.modifyHead_modifyHead]
        simp [Function.comp_def]

/-- A text is split at the same places byte by byte, and no slice is refused. -/
theorem splitTopLevel?_eq
    (narrow : separator.toNat < 0x80)
    (text : Text) :
    splitTopLevel? separator text = some (splitTopLevel separator text) := by
  have found := @piecesFrom?_bytesOf text separator narrow [] [] (cells text)
    (chars_cells text).symm 0
  rw [modifyHead_nil_append] at found
  rw [splitTopLevel?, cells_bytes]
  exact found

end Pieces

/-! ## Calls -/

/-- The bytes at which the parts of a call stand. -/
structure CallRange where
  /-- The byte at which the name starts. -/
  start : Nat
  /-- The byte of the opening parenthesis. -/
  opening : Nat
  /-- The byte of the closing parenthesis. -/
  closing : Nat
  deriving DecidableEq, Repr

/-! ## The search over bytes -/

/--
The call to one of some functions that is opened between the bytes before, the last one
first, and the bytes behind.
-/
def callOpenedAt?
    (source : Text)
    (names : List Text)
    (before behind : List Cell) : Option (Option CallRange) :=
  let name := before.takeWhile Cell.isCodeName
  let start := before.length - name.length
  if name.isEmpty || !mayStartCall (before.dropWhile Cell.isCodeName).head? then some none
  else (source.slice? start before.length).map fun word =>
    if word.isOneOf names then
      (enclosed? '(' ')' 0 behind).map fun inner =>
        ⟨start, before.length, before.length + 1 + inner.length⟩
    else none

/-- The calls to some functions that are opened among some bytes, given the bytes before. -/
def callRangesFrom?
    (source : Text)
    (names : List Text) : List Cell → List Cell → Option (List CallRange)
  | _, [] => some []
  | before, byte :: rest => do
      let here ← if byte.isCode '(' then callOpenedAt? source names before rest else some none
      let later ← callRangesFrom? source names (byte :: before) rest
      return here.toList ++ later

/-- The calls of a text to some functions, unless a slice is refused. -/
def callRanges?
    (source : Text)
    (names : List Text) : Option (List CallRange) :=
  callRangesFrom? source names [] (cells (Text.bytes source))

/-! ## The search over characters -/

/-- The call whose name ends before the given cells, the cells of the name last one first. -/
def openedCall? (before cells : List Cell) : Option Call :=
  let name := before.takeWhile Cell.isCodeName
  if name.isEmpty then none
  else callAt? (before.length - name.length) (before.dropWhile Cell.isCodeName).head?
    (name.reverse ++ cells)

/-- The calls that are opened among some cells, given the cells before, the last one first. -/
def openedCalls : List Cell → List Cell → List Call
  | _, [] => []
  | before, cell :: rest =>
      (if cell.isCode '(' then (openedCall? before (cell :: rest)).toList else []) ++
        openedCalls (cell :: before) rest

theorem callAt?_append_of_isCodeName
    {name cells : List Cell}
    (named : ∀ cell ∈ name, cell.isCodeName = true)
    (ends : cells.head?.any Cell.isCodeName = false)
    (start : Nat)
    (before : Option Cell) :
    callAt? start before (name ++ cells) =
      if mayStartCall before && !name.isEmpty then
        (delimited? '(' ')' cells).map fun arguments => ⟨start, chars name, chars arguments⟩
      else none := by
  have noName : cells.takeWhile Cell.isCodeName = [] ∧ cells.dropWhile Cell.isCodeName = cells := by
    cases cells with
    | nil => exact ⟨rfl, rfl⟩
    | cons cell rest =>
        rw [List.head?_cons, Option.any_some] at ends
        have isNone : ¬cell.isCodeName = true := by rw [ends]; decide
        exact ⟨List.takeWhile_cons_of_neg isNone, List.dropWhile_cons_of_neg isNone⟩
  rw [callAt?, List.takeWhile_append_of_pos named, List.dropWhile_append_of_pos named, noName.1,
    noName.2, List.append_nil]

theorem isCodeName_of_mem_reverse_takeWhile
    {before : List Cell} :
    ∀ cell ∈ (before.takeWhile Cell.isCodeName).reverse, cell.isCodeName = true :=
  fun _ member => List.mem_takeWhile_imp (List.mem_reverse.1 member)

/-- No call is opened by anything but a parenthesis. -/
theorem openedCall?_eq_none
    {before cells : List Cell}
    (noName : cells.head?.any Cell.isCodeName = false)
    (noParenthesis : cells.head?.any (Cell.isCode · '(') = false) :
    openedCall? before cells = none := by
  have noCall : delimited? '(' ')' cells = none := by
    cases cells with
    | nil => rfl
    | cons cell rest =>
        rw [List.head?_cons, Option.any_some] at noParenthesis
        rw [delimited?, noParenthesis]
        rfl
  rw [openedCall?, callAt?_append_of_isCodeName isCodeName_of_mem_reverse_takeWhile noName, noCall]
  simp

/-- The call that is open in front of some cells is found first, then those that begin in them. -/
theorem openedCalls_eq
    (before cells : List Cell) :
    openedCalls before cells =
      (openedCall? before cells).toList ++ callsFrom before.length before.head? cells := by
  induction cells generalizing before with
  | nil =>
      rw [openedCall?_eq_none rfl rfl]
      rfl
  | cons cell rest inductionHypothesis =>
      rw [openedCalls, inductionHypothesis, callsFrom, List.length_cons, List.head?_cons]
      cases named : cell.isCodeName with
      | true =>
          have noParenthesis : cell.isCode '(' = false :=
            Cell.isCode_eq_false_of_isCodeName named rfl
          rw [noParenthesis, if_neg Bool.false_ne_true, List.nil_append, ← List.append_assoc]
          congr 1
          have split := List.takeWhile_append_dropWhile (p := Cell.isCodeName) (l := before)
          rw [openedCall?, openedCall?, List.takeWhile_cons_of_pos named,
            List.dropWhile_cons_of_pos named]
          cases isName : before.takeWhile Cell.isCodeName with
          | nil =>
              rw [isName, List.nil_append] at split
              rw [split]
              rfl
          | cons first others =>
              have isLast : before.head? = some first := by rw [← split, isName]; rfl
              have isNamed : first.isCodeName = true :=
                List.mem_takeWhile_imp (isName ▸ List.mem_cons_self)
              have noCall : callAt? before.length before.head? (cell :: rest) = none := by
                rw [callAt?, isLast, mayStartCall, isNamed]
                rfl
              rw [noCall, Option.toList_none, List.append_nil]
              simp
      | false =>
          have isNone : ¬cell.isCodeName = true := by rw [named]; decide
          have noCall : callAt? before.length before.head? (cell :: rest) = none := by
            rw [callAt?, List.takeWhile_cons_of_neg isNone]
            simp
          have notOpen : openedCall? (cell :: before) rest = none := by
            rw [openedCall?, List.takeWhile_cons_of_neg isNone]
            rfl
          rw [noCall, notOpen, Option.toList_none, List.nil_append]
          congr 1
          split_ifs with isParenthesis
          · rfl
          · rw [openedCall?_eq_none (by rwa [List.head?_cons, Option.any_some])]
            · rfl
            · rw [List.head?_cons, Option.any_some]
              exact Bool.not_eq_true _ ▸ isParenthesis

theorem openedCalls_nil (text : Text) : openedCalls [] (cells text) = calls text := by
  rw [openedCalls_eq]
  rfl

/-! ## Names read backward over bytes -/

theorem reverse_bytesOf (cells : List Cell) :
    (bytesOf cells).reverse = cells.reverse.flatMap fun cell => cell.bytes.reverse :=
  List.reverse_flatMap

theorem bytesOf_reverse_takeWhile (before : List Cell) :
    bytesOf (before.takeWhile Cell.isCodeName).reverse =
      (before.takeWhile Cell.isCodeName).reverse :=
  bytesOf_eq_self fun cell member =>
    Cell.not_isWide_of_isCodeName (isCodeName_of_mem_reverse_takeWhile cell member)

/-- The same name is read backward over the bytes. -/
theorem takeWhile_reverse_bytesOf (front : List Cell) :
    (bytesOf front).reverse.takeWhile Cell.isCodeName =
      front.reverse.takeWhile Cell.isCodeName := by
  have isName := congrArg List.reverse (bytesOf_reverse_takeWhile front.reverse)
  rw [reverse_bytesOf, List.reverse_reverse] at isName
  rw [reverse_bytesOf,
    (IsBytewise.isCodeName.takeWhile_flatMap (fun cell => cell.bytes.reverse_perm) _).1, isName]

theorem isBytewise_mayStartCall : IsBytewise fun cell => mayStartCall (some cell) :=
  IsBytewise.isCodeName.not.and
    (IsBytewise.of_isWide fun _ wide => wide.isNameMark_eq_false).not

/-- A call may begin behind a character if it may begin behind its last byte. -/
theorem mayStartCall_head?_dropWhile_reverse_bytesOf (front : List Cell) :
    mayStartCall ((bytesOf front).reverse.dropWhile Cell.isCodeName).head? =
      mayStartCall (front.reverse.dropWhile Cell.isCodeName).head? := by
  rw [reverse_bytesOf,
    (IsBytewise.isCodeName.takeWhile_flatMap (fun cell => cell.bytes.reverse_perm) _).2]
  cases front.reverse.dropWhile Cell.isCodeName with
  | nil => rfl
  | cons cell rest =>
      obtain ⟨byte, others, split⟩ :=
        List.exists_cons_of_ne_nil (List.reverse_ne_nil_iff.2 cell.bytes_ne_nil)
      have member : byte ∈ cell.bytes := List.mem_reverse.1 (split ▸ List.mem_cons_self)
      rw [List.flatMap_cons, split, List.cons_append, List.head?_cons, List.head?_cons]
      exact isBytewise_mayStartCall cell byte member

/-! ## The same calls -/

/-- The bytes at which the parts of a call stand in a text. -/
def Call.range (source : Text) (call : Call) : CallRange :=
  ⟨Text.byteLength (source.take call.start), Text.byteLength (source.take call.opening),
    Text.byteLength (source.take call.closing)⟩

theorem Call.range_eq
    {source front name arguments behind : Text}
    (whole : source = front ++ (name ++ '(' :: (arguments ++ behind))) :
    Call.range source ⟨front.length, name, arguments⟩ =
      ⟨front.byteLength, Text.byteLength (front ++ name),
        Text.byteLength (front ++ name) + 1 + arguments.byteLength⟩ := by
  have isStart : source.take front.length = front := by rw [whole, List.take_left]
  have isOpening : source.take (front.length + name.length) = front ++ name := by
    rw [whole, ← List.append_assoc, ← List.length_append, List.take_left]
  have isClosing : source.take (front.length + name.length + 1 + arguments.length) =
      (front ++ name) ++ '(' :: arguments := by
    have split : source = ((front ++ name) ++ '(' :: arguments) ++ behind := by simp [whole]
    have length : front.length + name.length + 1 + arguments.length =
        ((front ++ name) ++ '(' :: arguments).length := by
      simp only [List.length_append, List.length_cons]
      omega
    rw [split, length, List.take_left]
  rw [Call.range, Call.closing, Call.opening, isStart, isOpening, isClosing,
    Text.byteLength_append (front ++ name), Text.byteLength, Nat.add_assoc _ 1]
  rfl

section Search

variable {source : Text} {names : List Text}

/-- The bytes of the parts of a call whose parenthesis is opened and closed among some cells. -/
theorem Call.range_of_enclosed?_eq_some
    {front name rest inner : List Cell}
    {cell : Cell}
    (isParenthesis : cell.isCode '(' = true)
    (whole : source = chars (front ++ name ++ cell :: rest))
    (enclosed : enclosed? '(' ')' 0 rest = some inner) :
    Call.range source ⟨front.length, chars name, chars inner⟩ =
      ⟨Text.byteLength (chars front), Text.byteLength (chars (front ++ name)),
        Text.byteLength (chars (front ++ name)) + 1 + (bytesOf inner).length⟩ := by
  obtain ⟨stop, behind, rfl, -⟩ := exists_eq_append_of_enclosed?_eq_some enclosed
  have parted : source =
      chars front ++ (chars name ++ '(' :: (chars inner ++ chars (stop :: behind))) := by
    rw [whole, chars_append, chars_append, chars_cons, chars_append, List.append_assoc,
      Cell.char_of_isCode isParenthesis]
  have isRange := Call.range_eq parted
  rwa [length_chars, ← chars_append, ← length_bytesOf inner] at isRange

/-- At a parenthesis the same call is opened over the bytes, and no slice is refused. -/
theorem callOpenedAt?_bytesOf
    {front rest : List Cell}
    {cell : Cell}
    (isParenthesis : cell.isCode '(' = true)
    (whole : source = chars (front ++ cell :: rest)) :
    callOpenedAt? source names (bytesOf front).reverse (bytesOf rest) =
      some (((openedCall? front.reverse (cell :: rest)).filter (Call.isNamed names)).map
        (Call.range source)) := by
  have noName : (cell :: rest).head?.any Cell.isCodeName = false := by
    rw [List.head?_cons, Option.any_some, Cell.eq_of_isCode isParenthesis]
    rfl
  have isName := bytesOf_reverse_takeWhile front.reverse
  have split := List.takeWhile_append_dropWhile (p := Cell.isCodeName) (l := front.reverse)
  rw [callOpenedAt?, openedCall?, takeWhile_reverse_bytesOf,
    mayStartCall_head?_dropWhile_reverse_bytesOf,
    callAt?_append_of_isCodeName isCodeName_of_mem_reverse_takeWhile noName, delimited?,
    if_pos isParenthesis, enclosed?_bytesOf (by decide) (by decide), List.length_reverse,
    List.length_reverse, length_bytesOf]
  generalize front.reverse.takeWhile Cell.isCodeName = name at *
  generalize front.reverse.dropWhile Cell.isCodeName = others at *
  obtain rfl : front = others.reverse ++ name.reverse := by
    rw [← List.reverse_append, split, List.reverse_reverse]
  have isStart : Text.byteLength (chars (others.reverse ++ name.reverse)) - name.length =
      Text.byteLength (chars others.reverse) := by
    rw [← length_bytesOf, bytesOf_append, isName, List.length_append, List.length_reverse,
      Nat.add_sub_cancel, length_bytesOf]
  have isFront : (others.reverse ++ name.reverse).length - name.length = others.reverse.length := by
    rw [List.length_append, List.length_reverse, List.length_reverse, Nat.add_sub_cancel]
  have isSlice : source.slice? (Text.byteLength (chars others.reverse))
      (Text.byteLength (chars (others.reverse ++ name.reverse))) = some (chars name.reverse) := by
    rw [Text.slice?_eq_some_iff]
    refine ⟨chars others.reverse, chars (cell :: rest), ?_, rfl, by rw [chars_append]⟩
    rw [whole, chars_append, chars_append, List.append_assoc]
  rw [isStart, isFront, isSlice, List.isEmpty_reverse]
  -- No name or a mark in front of it means no call in both searches.
  cases name.isEmpty with
  | true => rfl
  | false =>
      cases mayStartCall others.head? with
      | false => rfl
      | true =>
          have sameName (start : Nat) (arguments : Text) :
              Call.isNamed names ⟨start, chars name.reverse, arguments⟩ =
                (chars name.reverse).isOneOf names := rfl
          simp only [Bool.not_true, Bool.not_false, Bool.or_self, Bool.and_self, if_true,
            Bool.false_eq_true, if_false]
          cases enclosed : enclosed? '(' ')' 0 rest with
          | none => simp
          | some inner =>
              rw [Option.map_some, Option.map_some, Option.map_some, Option.map_some,
                Option.filter_some, sameName,
                ← Call.range_of_enclosed?_eq_some isParenthesis whole enclosed]
              split_ifs <;> rfl

theorem callRangesFrom?_append_of_isWide
    {behind : List Cell}
    (wide : ∀ cell ∈ behind, IsWide cell.char)
    (before rest : List Cell) :
    callRangesFrom? source names before (behind ++ rest) =
      callRangesFrom? source names (behind.reverse ++ before) rest := by
  induction behind generalizing before with
  | nil => rfl
  | cons cell others inductionHypothesis =>
      obtain ⟨here, later⟩ := List.forall_mem_cons.1 wide
      rw [List.cons_append, callRangesFrom?, Cell.isCode_eq_false_of_isWide here (by decide),
        inductionHypothesis later, List.reverse_cons, List.append_assoc]
      simp

theorem callRangesFrom?_bytesOf
    {front rest : List Cell}
    (whole : source = chars (front ++ rest)) :
    callRangesFrom? source names (bytesOf front).reverse (bytesOf rest) =
      some (((openedCalls front.reverse rest).filter (Call.isNamed names)).map
        (Call.range source)) := by
  induction rest generalizing front with
  | nil => rfl
  | cons cell rest inductionHypothesis =>
      have further := @inductionHypothesis (front ++ [cell]) (by rw [whole]; simp)
      rw [bytesOf_append, List.reverse_append, List.reverse_append, bytesOf_cons, bytesOf_nil,
        List.append_nil] at further
      rw [bytesOf_cons, openedCalls]
      by_cases wide : IsWide cell.char
      · rw [callRangesFrom?_append_of_isWide fun _ member => (Cell.of_mem_bytes member).2 wide,
          further, Cell.isCode_eq_false_of_isWide wide (by decide)]
        rfl
      · rw [Cell.bytes_of_not_isWide wide] at further ⊢
        rw [List.singleton_append, callRangesFrom?]
        cases isParenthesis : cell.isCode '(' with
        | true =>
            rw [if_pos rfl, if_pos rfl, callOpenedAt?_bytesOf isParenthesis whole,
              List.filter_append, List.map_append]
            change (callRangesFrom? source names ([cell].reverse ++ (bytesOf front).reverse)
              (bytesOf rest)).bind _ = _
            rw [further]
            cases openedCall? front.reverse (cell :: rest) with
            | none => rfl
            | some call => cases named : call.isNamed names <;> simp [Option.filter_some, named]
        | false =>
            change (callRangesFrom? source names ([cell].reverse ++ (bytesOf front).reverse)
              (bytesOf rest)).bind _ = _
            rw [further]
            rfl

end Search

/-- The calls of a text are found over its bytes, and no slice is refused. -/
theorem callRanges?_eq
    (source : Text)
    (names : List Text) :
    callRanges? source names = some ((callsTo names source).map (Call.range source)) := by
  rw [callRanges?, cells_bytes, callsTo, ← openedCalls_nil]
  exact @callRangesFrom?_bytesOf source names [] (cells source) (chars_cells source).symm

end Source
end LessTheme
