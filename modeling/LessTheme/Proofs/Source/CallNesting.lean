import LessTheme.Proofs.Source.CallParts
import LessTheme.Proofs.Text.Pieces
import Mathlib.Order.Bounds.Basic

/-!
# Nesting of calls

A delimiter is closed at the first byte up to which as many delimiters are
closed as opened, counted from the delimiter itself and only in code.  What the
parentheses of a call leave open at the start of a call among its arguments is
closed again before the outer call ends, so calls never overlap in part.
-/

namespace LessTheme
namespace Source

/-! ## Counting delimiters -/

/-- Cells with their first bytes, from the given byte on. -/
def placedFrom (start : Nat) : List Cell → List (Nat × Cell)
  | [] => []
  | cell :: rest => (start, cell) :: placedFrom (start + cell.char.utf8Size) rest

/-- Whether the given character starts at a byte of a text, as code. -/
def StandsAt (text : Text) (char : Char) (byte : Nat) : Prop :=
  ∃ cell, (byte, cell) ∈ placedFrom 0 (cells text) ∧ cell.isCode char = true

/-- How often a character stands as code from one byte of a text up to another one. -/
def codeCount (text : Text) (char : Char) (first last : Nat) : Nat :=
  (placedFrom 0 (cells text)).countP fun (byte, cell) =>
    first ≤ byte && byte ≤ last && cell.isCode char

/-- How often a character stands as code up to a byte, in cells from the given byte on. -/
def countUpTo (start : Nat) (cells : List Cell) (char : Char) (last : Nat) : Nat :=
  (placedFrom start cells).countP fun (byte, cell) => byte ≤ last && cell.isCode char

theorem placedFrom_append
    (start : Nat)
    (front back : List Cell) :
    placedFrom start (front ++ back) =
      placedFrom start front ++ placedFrom (start + Text.byteLength (chars front)) back := by
  induction front generalizing start with
  | nil => rfl
  | cons cell rest inductionHypothesis =>
      rw [List.cons_append, placedFrom, inductionHypothesis, Nat.add_assoc]
      rfl

/-- A cell is placed behind the cells in front of it. -/
theorem exists_split_of_mem_placedFrom
    {start byte : Nat}
    {cells : List Cell}
    {cell : Cell}
    (member : (byte, cell) ∈ placedFrom start cells) :
    ∃ front rest, cells = front ++ cell :: rest ∧
      byte = start + Text.byteLength (chars front) := by
  induction cells generalizing start with
  | nil => contradiction
  | cons first others inductionHypothesis =>
      obtain isFirst | inOthers := List.mem_cons.1 member
      · obtain ⟨rfl, rfl⟩ := Prod.mk.inj isFirst
        exact ⟨[], others, rfl, rfl⟩
      · obtain ⟨front, rest, rfl, rfl⟩ := inductionHypothesis inOthers
        exact ⟨first :: front, rest, rfl, Nat.add_assoc _ _ _⟩

theorem le_of_mem_placedFrom
    {start byte : Nat}
    {cells : List Cell}
    {cell : Cell}
    (member : (byte, cell) ∈ placedFrom start cells) :
    start ≤ byte := by
  obtain ⟨front, rest, -, rfl⟩ := exists_split_of_mem_placedFrom member
  exact Nat.le_add_right _ _

theorem countUpTo_cons
    (start : Nat)
    (cell : Cell)
    (rest : List Cell)
    (char : Char)
    (last : Nat) :
    countUpTo start (cell :: rest) char last =
      (if start ≤ last then (cell.isCode char).toNat else 0) +
        countUpTo (start + cell.char.utf8Size) rest char last := by
  rw [countUpTo, placedFrom, List.countP_cons, Nat.add_comm]
  congr 1
  by_cases inRange : start ≤ last <;> cases isCode : cell.isCode char <;> simp [inRange, isCode]

theorem countUpTo_eq_zero
    {start last : Nat}
    (before : last < start)
    (cells : List Cell)
    (char : Char) :
    countUpTo start cells char last = 0 := by
  refine List.countP_eq_zero.2 fun ⟨byte, cell⟩ member => ?_
  have isBehind : ¬byte ≤ last :=
    Nat.not_le.2 (Nat.lt_of_lt_of_le before (le_of_mem_placedFrom member))
  simp [isBehind]

/-- From a cell of a text on, what stands in front of the cell does not count. -/
theorem codeCount_eq_countUpTo
    {text : Text}
    {front back : List Cell}
    (split : cells text = front ++ back)
    (char : Char)
    (last : Nat) :
    codeCount text char (Text.byteLength (chars front)) last =
      countUpTo (Text.byteLength (chars front)) back char last := by
  rw [codeCount, split, placedFrom_append, List.countP_append, Nat.zero_add, countUpTo]
  have noneInFront : (placedFrom 0 front).countP (fun (byte, cell) =>
      Text.byteLength (chars front) ≤ byte && byte ≤ last && cell.isCode char) = 0 := by
    refine List.countP_eq_zero.2 fun ⟨byte, cell⟩ member => ?_
    obtain ⟨before, rest, rfl, rfl⟩ := exists_split_of_mem_placedFrom member
    have isBefore : ¬Text.byteLength (chars (before ++ cell :: rest)) ≤
        0 + Text.byteLength (chars before) := by
      rw [chars_append, Text.byteLength_append, Nat.zero_add, Nat.not_le]
      exact Nat.lt_add_of_pos_right (Text.byteLength_pos (List.cons_ne_nil _ _))
    simp only [isBefore, decide_false, Bool.false_and, Bool.false_eq_true, not_false_iff]
  rw [noneInFront, Nat.zero_add]
  refine List.countP_congr fun ⟨byte, cell⟩ member => ?_
  simp [le_of_mem_placedFrom member]

/-! ## Closing delimiters -/

section Delimiters

variable {opening closing : Char}

/-- A cell ends what is enclosed, or it opens or closes a further delimiter or none. -/
theorem enclosed?_cons_cases
    (apart : opening ≠ closing)
    (depth : Nat)
    (cell : Cell)
    (rest : List Cell) :
    (enclosed? opening closing depth (cell :: rest) = some [] ∧ depth = 0 ∧
        cell.isCode opening = false ∧ cell.isCode closing = true) ∨
      ∃ further, enclosed? opening closing depth (cell :: rest) =
          (enclosed? opening closing further rest).map (cell :: ·) ∧
        depth + (cell.isCode opening).toNat = further + (cell.isCode closing).toNat := by
  rw [enclosed?.eq_def]
  cases opens : cell.isCode opening with
  | true =>
      have notClosing : cell.isCode closing = false :=
        Cell.isCode_eq_false_of_isCode opens apart
      exact .inr ⟨depth + 1, by simp [opens], by simp [notClosing]⟩
  | false =>
      cases closes : cell.isCode closing with
      | false => exact .inr ⟨depth, by simp [opens, closes], rfl⟩
      | true =>
          cases depth with
          | zero => exact .inl ⟨by simp [opens, closes], rfl, rfl, rfl⟩
          | succ outer => exact .inr ⟨outer, by simp [opens, closes], rfl⟩

/-- More delimiters are open than closed up to the one that ends what is enclosed. -/
theorem countUpTo_of_enclosed?
    (apart : opening ≠ closing)
    (depth start : Nat)
    (cells : List Cell) :
    (∀ inner, enclosed? opening closing depth cells = some inner →
        countUpTo start cells closing (start + Text.byteLength (chars inner)) =
          depth + 1 + countUpTo start cells opening (start + Text.byteLength (chars inner))) ∧
      ∀ byte, (∀ inner, enclosed? opening closing depth cells = some inner →
          byte < start + Text.byteLength (chars inner)) →
        countUpTo start cells closing byte < depth + 1 + countUpTo start cells opening byte := by
  induction cells generalizing depth start with
  | nil =>
      refine ⟨nofun, fun byte _ => ?_⟩
      exact Nat.lt_of_lt_of_le (Nat.succ_pos depth) (Nat.le_add_right _ _)
  | cons cell rest inductionHypothesis =>
      have inFront : ∀ byte < start, countUpTo start (cell :: rest) closing byte <
          depth + 1 + countUpTo start (cell :: rest) opening byte := by
        intro byte before
        rw [countUpTo_eq_zero before, countUpTo_eq_zero before]
        exact Nat.succ_pos depth
      obtain ⟨ends, rfl, notOpening, closes⟩ | ⟨further, goesOn, sameDepth⟩ :=
        enclosed?_cons_cases apart depth cell rest
      · have nothingBehind (char : Char) :
            countUpTo (start + cell.char.utf8Size) rest char start = 0 :=
          countUpTo_eq_zero (Nat.lt_add_of_pos_right cell.char.utf8Size_pos) rest char
        refine ⟨fun inner enclosed => ?_, fun byte before => inFront byte (before [] ends)⟩
        obtain rfl := Option.some.inj (ends.symm.trans enclosed)
        change countUpTo start (cell :: rest) closing start =
          0 + 1 + countUpTo start (cell :: rest) opening start
        simp [countUpTo_cons, nothingBehind, notOpening, closes]
      · obtain ⟨atEnd, before⟩ := inductionHypothesis further (start + cell.char.utf8Size)
        rw [goesOn]
        constructor
        · intro inner enclosed
          obtain ⟨tail, tailEnclosed, rfl⟩ := Option.map_eq_some_iff.1 enclosed
          have sameCount := atEnd tail tailEnclosed
          rw [Nat.add_assoc] at sameCount
          have behindStart : start ≤ start + Text.byteLength (chars (cell :: tail)) :=
            Nat.le_add_right _ _
          rw [countUpTo_cons, countUpTo_cons, if_pos behindStart, if_pos behindStart, chars_cons,
            Text.byteLength, sameCount]
          omega
        · intro byte notEnded
          by_cases isBefore : byte < start
          · exact inFront byte isBefore
          · have positive := before byte fun tail tailEnclosed => by
              have notReached := notEnded (cell :: tail) (by rw [tailEnclosed]; rfl)
              rwa [chars_cons, Text.byteLength, ← Nat.add_assoc] at notReached
            rw [countUpTo_cons, countUpTo_cons, if_pos (Nat.not_lt.1 isBefore),
              if_pos (Nat.not_lt.1 isBefore)]
            omega

/-- A delimiter is closed where what it encloses ends. -/
theorem closingByte?_eq_map
    {text : Text}
    {front rest : List Cell}
    {cell : Cell}
    (split : cells text = front ++ cell :: rest)
    (opens : cell.isCode opening = true) :
    closingByte? text (Text.byteLength (chars front)) opening closing =
      (enclosed? opening closing 0 rest).map fun inner =>
        Text.byteLength (chars front) + opening.utf8Size + Text.byteLength (chars inner) := by
  have wholeText : text = chars front ++ chars (cell :: rest) := by
    rw [← chars_append, ← split, chars_cells]
  have index : text.indexOfByte? (Text.byteLength (chars front)) = some front.length := by
    rw [wholeText, Text.indexOfByte?_append, length_chars]
  rw [closingByte?, index, split]
  simp only [bind_pure_comp, Option.bind_some, Option.bind_eq_bind]
  rw [List.drop_left, delimited?, if_pos opens]
  rfl

/-- The counts from an opening delimiter on are those behind it, and the delimiter itself. -/
theorem codeCount_of_split
    (apart : opening ≠ closing)
    {text : Text}
    {front rest : List Cell}
    {cell : Cell}
    (split : cells text = front ++ cell :: rest)
    (opens : cell.isCode opening = true)
    {last : Nat}
    (behind : Text.byteLength (chars front) ≤ last) :
    codeCount text opening (Text.byteLength (chars front)) last =
        1 + countUpTo (Text.byteLength (chars front) + opening.utf8Size) rest opening last ∧
      codeCount text closing (Text.byteLength (chars front)) last =
        countUpTo (Text.byteLength (chars front) + opening.utf8Size) rest closing last := by
  have notClosing : cell.isCode closing = false := Cell.isCode_eq_false_of_isCode opens apart
  rw [codeCount_eq_countUpTo split, codeCount_eq_countUpTo split, countUpTo_cons, countUpTo_cons,
    if_pos behind, if_pos behind, opens, notClosing, Cell.char_of_isCode opens]
  exact ⟨rfl, Nat.zero_add _⟩

variable {text : Text} {start : Nat}

/-- Up to the byte at which a delimiter is closed more are opened than closed. -/
theorem codeCount_of_standsAt
    (apart : opening ≠ closing)
    (stands : StandsAt text opening start) :
    (∀ stop, closingByte? text start opening closing = some stop →
        start < stop ∧ codeCount text closing start stop = codeCount text opening start stop) ∧
      ∀ byte, start ≤ byte →
        (∀ stop, closingByte? text start opening closing = some stop → byte < stop) →
          codeCount text closing start byte < codeCount text opening start byte := by
  obtain ⟨cell, member, opens⟩ := stands
  obtain ⟨front, rest, split, isStart⟩ := exists_split_of_mem_placedFrom member
  rw [Nat.zero_add] at isStart
  subst isStart
  obtain ⟨atEnd, before⟩ := countUpTo_of_enclosed? apart 0
    (Text.byteLength (chars front) + opening.utf8Size) rest
  rw [closingByte?_eq_map split opens]
  constructor
  · intro stop closed
    obtain ⟨inner, enclosed, rfl⟩ := Option.map_eq_some_iff.1 closed
    have isBehind : Text.byteLength (chars front) <
        Text.byteLength (chars front) + opening.utf8Size + Text.byteLength (chars inner) :=
      Nat.lt_add_right _ (Nat.lt_add_of_pos_right opening.utf8Size_pos)
    obtain ⟨opened, closedCount⟩ := codeCount_of_split apart split opens (Nat.le_of_lt isBehind)
    exact ⟨isBehind, by rw [opened, closedCount, atEnd inner enclosed, Nat.zero_add]⟩
  · intro byte isBehind notReached
    obtain ⟨opened, closedCount⟩ := codeCount_of_split apart split opens isBehind
    rw [opened, closedCount]
    have positive := before byte fun inner enclosed => notReached _ (by rw [enclosed]; rfl)
    rwa [Nat.zero_add] at positive

/-- A delimiter is closed at the first byte up to which as many are closed as opened. -/
theorem closingByte?_eq_some_iff_isLeast
    (apart : opening ≠ closing)
    (stands : StandsAt text opening start)
    (stop : Nat) :
    closingByte? text start opening closing = some stop ↔
      IsLeast {byte | start < byte ∧
        codeCount text closing start byte = codeCount text opening start byte} stop := by
  obtain ⟨atEnd, before⟩ := codeCount_of_standsAt apart stands
  have isLeast : ∀ found, closingByte? text start opening closing = some found →
      IsLeast {byte | start < byte ∧
        codeCount text closing start byte = codeCount text opening start byte} found := by
    intro found closed
    refine ⟨atEnd found closed, fun byte ⟨isBehind, same⟩ => Nat.not_lt.1 fun isBefore => ?_⟩
    have positive := before byte (Nat.le_of_lt isBehind) fun other otherClosed => by
      rwa [Option.some.inj (otherClosed.symm.trans closed)]
    exact absurd same (Nat.ne_of_lt positive)
  refine ⟨isLeast stop, fun least => ?_⟩
  cases closed : closingByte? text start opening closing with
  | none =>
      obtain ⟨isBehind, same⟩ := least.1
      have positive := before stop (Nat.le_of_lt isBehind) fun other otherClosed =>
        nomatch closed.symm.trans otherClosed
      exact absurd same (Nat.ne_of_lt positive)
  | some found => rw [(isLeast found closed).unique least]

end Delimiters

/-! ## Calls -/

/-- Whether a call ends before another one begins. -/
def Call.EndsBefore (call other : Call) : Prop := call.closing < other.start

/-- Whether another call lies between the parentheses of a call. -/
def Call.Encloses (call other : Call) : Prop :=
  call.opening < other.start ∧ other.closing < call.closing

namespace CallParts

variable (parts : CallParts)

/-- A call ends with its last cell. -/
theorem closing_call (start : Nat) :
    (parts.call start).closing + 1 = start + parts.cells.length := by
  simp only [Call.closing, Call.opening, call, cells, length_chars, List.length_append,
    List.length_cons, List.length_nil]
  omega

/-- What may begin a call behind the first cell of another one is in its arguments or behind it. -/
theorem place_of_start
    {before : Option Cell}
    {front behind rest : List Cell}
    {cell : Cell}
    (split : front ++ cell :: behind = parts.cells ++ rest)
    (nonempty : front ≠ [])
    (mayStart : mayStartCall (front.getLast?.or before) = true)
    (isName : cell.isCodeName = true) :
    (∃ between, front = parts.cells ++ between) ∨
      ∃ ahead others, front = parts.name ++ parts.opening :: ahead ∧
        parts.arguments = ahead ++ cell :: others ∧
        behind = others ++ parts.closing :: rest := by
  have noOpening : cell ≠ parts.opening := by
    rintro rfl
    exact absurd parts.opens (Bool.eq_false_iff.1 (Cell.isCode_eq_false_of_isCodeName isName rfl))
  have noClosing : cell ≠ parts.closing := by
    rintro rfl
    exact absurd parts.closes (Bool.eq_false_iff.1 (Cell.isCode_eq_false_of_isCodeName isName rfl))
  have parted : front ++ cell :: behind =
      parts.name ++ parts.opening :: (parts.arguments ++ parts.closing :: rest) := by
    rw [split, cells, List.append_assoc, List.cons_append, List.append_assoc]
    rfl
  obtain ⟨names, isFront, -⟩ | ⟨further, rfl, isBehind⟩ := List.append_eq_append_iff.1 parted
  · -- A call does not begin right behind a character of the name.
    have isLast := List.getLast?_eq_some_getLast nonempty
    have named := parts.named (front.getLast nonempty)
      (isFront ▸ List.mem_append_left names (List.getLast_mem nonempty))
    rw [isLast, Option.some_or, mayStartCall, named] at mayStart
    contradiction
  · cases further with
    | nil => exact absurd (List.cons.inj isBehind).1.symm noOpening
    | cons opening ahead =>
        obtain ⟨rfl, inner⟩ := List.cons.inj isBehind
        obtain ⟨tail, rfl, isRest⟩ | ⟨tail, isArguments, isBehind⟩ :=
          List.append_eq_append_iff.1 inner
        · cases tail with
          | nil => exact absurd (List.cons.inj isRest).1.symm noClosing
          | cons closing between =>
              obtain ⟨rfl, -⟩ := List.cons.inj isRest
              exact .inl ⟨between, by simp [cells]⟩
        · cases tail with
          | nil => exact absurd (List.cons.inj isBehind).1 noClosing
          | cons first others =>
              obtain ⟨rfl, rfl⟩ := List.cons.inj isBehind
              exact .inr ⟨ahead, others, rfl, isArguments, rfl⟩

/-- A call that begins in front of a closing parenthesis ends there. -/
theorem length_cells_le
    {depth : Nat}
    {inner rest behind : List Cell}
    {stop : Cell}
    (closes : Closes depth inner)
    (stops : stop.isCode ')' = true)
    (split : inner ++ stop :: rest = parts.cells ++ behind) :
    parts.cells.length ≤ inner.length := by
  have enclosed := closes.enclosed?_eq_some stops rest
  rw [split, parts.enclosed?_append] at enclosed
  obtain ⟨between, -, reaches⟩ := Option.map_eq_some_iff.1 enclosed
  rw [← reaches, List.length_append]
  exact Nat.le_add_right _ _

end CallParts

/-- A call that begins behind the first cell of another one lies in its arguments or behind it. -/
theorem endsBefore_or_encloses
    {start : Nat}
    {before : Option Cell}
    {front behind : List Cell}
    {cell : Cell}
    {call other : Call}
    (found : callAt? start before (front ++ cell :: behind) = some call)
    (nonempty : front ≠ [])
    (otherFound : callAt? (start + front.length) (front.getLast?.or before) (cell :: behind) =
      some other) :
    call.EndsBefore other ∨ call.Encloses other := by
  obtain ⟨-, isName, -, -⟩ := begins_of_callAt?_eq_some otherFound
  obtain ⟨-, parts, rest, split, rfl⟩ := exists_callParts_of_callAt?_eq_some found
  obtain ⟨mayStart, otherParts, otherRest, otherSplit, rfl⟩ :=
    exists_callParts_of_callAt?_eq_some otherFound
  have callEnd := parts.closing_call start
  obtain ⟨between, rfl⟩ | ⟨ahead, others, rfl, isArguments, rfl⟩ :=
    parts.place_of_start split nonempty mayStart isName
  · left
    change (parts.call start).closing < start + (parts.cells ++ between).length
    rw [List.length_append]
    omega
  · right
    obtain ⟨depth, closes⟩ := Closes.exists_of_append (isArguments ▸ parts.balanced)
    have isShorter := otherParts.length_cells_le closes parts.closes otherSplit
    have otherEnd := otherParts.closing_call
      (start + (parts.name ++ parts.opening :: ahead).length)
    have callLength : parts.cells.length =
        (parts.name ++ parts.opening :: ahead).length + (cell :: others).length + 1 := by
      simp [CallParts.cells, isArguments, Nat.add_assoc]
      omega
    refine ⟨?_, by omega⟩
    change start + (chars parts.name).length < start + _
    simp

/-- Of the calls among some cells each ends before a later one begins, or encloses it. -/
theorem pairwise_callsFrom
    (start : Nat)
    (before : Option Cell)
    (cells : List Cell) :
    (callsFrom start before cells).Pairwise fun call later =>
      call.EndsBefore later ∨ call.Encloses later := by
  induction cells generalizing start before with
  | nil => exact .nil
  | cons cell rest inductionHypothesis =>
      rw [callsFrom, List.pairwise_append]
      refine ⟨?_, inductionHypothesis _ _, fun call isFirst later isLater => ?_⟩
      · cases callAt? start before (cell :: rest) <;> simp
      · obtain ⟨front, next, others, rfl, found⟩ := mem_callsFrom_iff.1 isLater
        have isBehind : start + 1 + front.length = start + (cell :: front).length := by
          rw [List.length_cons, Nat.add_assoc, Nat.add_comm 1]
        rw [isBehind, ← getLast?_cons_or] at found
        exact endsBefore_or_encloses (Option.mem_toList.1 isFirst) (List.cons_ne_nil cell front)
          found

/-- Whether a call stands in a text with all its parts, where a call may begin. -/
def Call.StandsIn (text : Text) (call : Call) : Prop :=
  ∃ front, ∃ parts : CallParts, ∃ rest, cells text = front ++ (parts.cells ++ rest) ∧
    mayStartCall front.getLast? = true ∧ call = parts.call front.length

/-- Exactly the calls that stand in a text are found. -/
theorem mem_calls_iff_standsIn
    {text : Text}
    {call : Call} :
    call ∈ calls text ↔ call.StandsIn text := by
  rw [calls, mem_callsFrom_iff]
  constructor
  · rintro ⟨front, cell, behind, split, found⟩
    obtain ⟨mayStart, parts, rest, isBehind, rfl⟩ := exists_callParts_of_callAt?_eq_some found
    rw [Option.or_none] at mayStart
    exact ⟨front, parts, rest, by rw [split, isBehind], mayStart, by rw [Nat.zero_add]⟩
  · rintro ⟨front, parts, rest, split, mayStart, rfl⟩
    obtain ⟨cell, others, isCells, -⟩ := parts.exists_cells_eq_cons
    refine ⟨front, cell, others ++ rest, by rw [split, isCells, List.cons_append], ?_⟩
    rw [← List.cons_append, ← isCells, parts.callAt?_append, Option.or_none, if_pos mayStart,
      Nat.zero_add]

/-- The parentheses of a call belong together. -/
theorem Call.StandsIn.closingByte?_eq
    {text : Text}
    {call : Call}
    (standsIn : call.StandsIn text) :
    closingByte? text (Text.byteLength (text.take call.opening)) '(' ')' =
      some (Text.byteLength (text.take call.closing)) := by
  obtain ⟨front, parts, rest, split, -, rfl⟩ := standsIn
  have parted : cells text = (front ++ parts.name) ++
      parts.opening :: (parts.arguments ++ parts.closing :: rest) := by
    rw [split]
    simp [CallParts.cells]
  have inText : text = chars (front ++ parts.name) ++
      ('(' :: chars parts.arguments ++ chars (parts.closing :: rest)) := by
    rw [← chars_cells text, parted]
    simp [Cell.char_of_isCode parts.opens]
  have upToOpening : text.take (parts.call front.length).opening =
      chars (front ++ parts.name) := by
    rw [inText]
    exact List.take_left' (by simp [Call.opening, CallParts.call])
  have upToClosing : text.take (parts.call front.length).closing =
      chars (front ++ parts.name) ++ '(' :: chars parts.arguments := by
    rw [inText, ← List.append_assoc]
    exact List.take_left' (by
      simp [Call.closing, Call.opening, CallParts.call, Nat.add_assoc, Nat.add_comm 1])
  rw [upToOpening, upToClosing, closingByte?_eq_map parted parts.opens, parts.enclosed?_arguments,
    Option.map_some, Text.byteLength_append, Text.byteLength, Nat.add_assoc]

/--
A delimiter of code is closed at the first byte behind it up to which code
closes as many delimiters as it opens, and opens more before that.  The calls
of a text to some functions are those that stand in it, in the order of their
opening parentheses, each of which is closed where the call ends, and of two
calls one ends before the other begins or has the other between its parentheses.
-/
theorem delimiters_match_and_calls_nest (text : Text) :
    (∀ opening closing start, opening ≠ closing → StandsAt text opening start →
      (∀ stop, closingByte? text start opening closing = some stop ↔
        IsLeast {byte | start < byte ∧
          codeCount text closing start byte = codeCount text opening start byte} stop) ∧
      ∀ byte, start ≤ byte →
        (∀ stop, closingByte? text start opening closing = some stop → byte < stop) →
          codeCount text closing start byte < codeCount text opening start byte) ∧
    ∀ names,
      (∀ call, call ∈ callsTo names text ↔ call.StandsIn text ∧ call.isNamed names = true) ∧
      (callsTo names text).Pairwise (fun call later => call.opening < later.opening ∧
        (call.EndsBefore later ∨ call.Encloses later)) ∧
      ∀ call ∈ callsTo names text,
        closingByte? text (Text.byteLength (text.take call.opening)) '(' ')' =
          some (Text.byteLength (text.take call.closing)) := by
  have isCall (names : List Text) (call : Call) :
      call ∈ callsTo names text ↔ call.StandsIn text ∧ call.isNamed names = true := by
    rw [callsTo, List.mem_filter, mem_calls_iff_standsIn]
  refine ⟨fun opening closing start apart stands => ?_,
    fun names => ⟨isCall names, ?_, fun call member => ?_⟩⟩
  · exact ⟨closingByte?_eq_some_iff_isLeast apart stands, (codeCount_of_standsAt apart stands).2⟩
  · refine ((pairwise_callsFrom 0 none (cells text)).filter _).imp fun {call later} nested => ?_
    refine ⟨?_, nested⟩
    have startLe : later.start ≤ later.opening := Nat.le_add_right _ _
    have beforeClosing : call.opening < call.closing := by
      simp only [Call.closing]
      omega
    obtain before | ⟨behindOpening, -⟩ := nested
    · exact Nat.lt_of_lt_of_le (Nat.lt_trans beforeClosing before) startLe
    · exact Nat.lt_of_lt_of_le behindOpening startLe
  · exact ((isCall names call).1 member).1.closingByte?_eq

theorem delimiters_match_and_calls_nest_sample :
    '(' ≠ ')' ∧ StandsAt "f(\")\",(/*)*/g(1)))" '(' 1 ∧
      closingByte? "f(\")\",(/*)*/g(1)))" 1 '(' ')' = some 17 ∧
      IsLeast {byte | 1 < byte ∧ codeCount "f(\")\",(/*)*/g(1)))" ')' 1 byte =
        codeCount "f(\")\",(/*)*/g(1)))" '(' 1 byte} 17 :=
  have apart : '(' ≠ ')' := by decide
  have stands : StandsAt "f(\")\",(/*)*/g(1)))" '(' 1 := ⟨⟨'(', .code, false⟩, by decide, rfl⟩
  have closed : closingByte? "f(\")\",(/*)*/g(1)))" 1 '(' ')' = some 17 := by decide
  ⟨apart, stands, closed,
    (((delimiters_match_and_calls_nest _).1 '(' ')' 1 apart stands).1 17).1 closed⟩

end Source
end LessTheme
