import LessTheme.Source.Call

/-!
# Where calls stand

A call found in a text stands there: the cells at its start begin with its
name, its parentheses and its arguments.
-/

namespace LessTheme
namespace Source

@[simp] theorem chars_nil : chars [] = [] := rfl

@[simp] theorem chars_cons
    (cell : Cell)
    (cells : List Cell) :
    chars (cell :: cells) = cell.char :: chars cells := rfl

@[simp] theorem chars_append
    (left right : List Cell) :
    chars (left ++ right) = chars left ++ chars right :=
  List.map_append

@[simp] theorem length_chars (cells : List Cell) : (chars cells).length = cells.length :=
  List.length_map _

theorem chars_take
    (count : Nat)
    (cells : List Cell) :
    chars (cells.take count) = (chars cells).take count :=
  List.map_take

/-- What is enclosed ends right before a closing delimiter. -/
theorem exists_eq_append_of_enclosed?_eq_some
    {opening closing : Char}
    {depth : Nat}
    {cells inner : List Cell}
    (enclosed : enclosed? opening closing depth cells = some inner) :
    ∃ stop rest, cells = inner ++ stop :: rest ∧ stop.isCode closing = true := by
  induction cells generalizing depth inner with
  | nil => simp [enclosed?] at enclosed
  | cons cell rest inductionHypothesis =>
      have further : ∀ {depth},
          (enclosed? opening closing depth rest).map (cell :: ·) = some inner →
            ∃ stop others, cell :: rest = inner ++ stop :: others ∧
              stop.isCode closing = true := by
        intro depth found
        obtain ⟨tail, tailEnclosed, rfl⟩ := Option.map_eq_some_iff.1 found
        obtain ⟨stop, others, rfl, closes⟩ := inductionHypothesis tailEnclosed
        exact ⟨stop, others, rfl, closes⟩
      unfold enclosed? at enclosed
      split at enclosed
      · exact further enclosed
      · split at enclosed
        case isTrue closes =>
          cases depth with
          | zero =>
              obtain rfl := Option.some.inj enclosed
              exact ⟨cell, rest, rfl, closes⟩
          | succ outer => exact further enclosed
        case isFalse => exact further enclosed

/-- A delimited stretch stands between its two delimiters. -/
theorem exists_eq_of_delimited?_eq_some
    {opening closing : Char}
    {cells inner : List Cell}
    (delimited : delimited? opening closing cells = some inner) :
    ∃ start stop rest, cells = start :: (inner ++ stop :: rest) ∧
      start.isCode opening = true ∧ stop.isCode closing = true := by
  cases cells with
  | nil => simp [delimited?] at delimited
  | cons start rest =>
      simp only [delimited?, Option.ite_none_right_eq_some] at delimited
      obtain ⟨stop, others, rfl, closes⟩ :=
        exists_eq_append_of_enclosed?_eq_some delimited.2
      exact ⟨start, stop, others, rfl, delimited.1, closes⟩

theorem Cell.char_of_isCode
    {cell : Cell}
    {char : Char}
    (isCode : cell.isCode char = true) :
    cell.char = char := by
  simp only [Cell.isCode, Bool.and_eq_true, beq_iff_eq] at isCode
  exact isCode.2

/-- A call at the front of some cells is what they begin with. -/
theorem text_isPrefix_of_callAt?_eq_some
    {start : Nat}
    {before : Option Cell}
    {cells : List Cell}
    {call : Call}
    (found : callAt? start before cells = some call) :
    call.text <+: chars cells := by
  unfold callAt? at found
  simp only at found
  split at found
  · obtain ⟨inner, delimited, rfl⟩ := Option.map_eq_some_iff.1 found
    obtain ⟨opening, closing, rest, split, opens, closes⟩ :=
      exists_eq_of_delimited?_eq_some delimited
    refine ⟨chars rest, ?_⟩
    have whole : chars cells = chars (cells.takeWhile Cell.isCodeName) ++
        chars (cells.dropWhile Cell.isCodeName) := by
      rw [← chars_append, List.takeWhile_append_dropWhile]
    rw [whole, split]
    simp [Call.text, Cell.char_of_isCode opens, Cell.char_of_isCode closes]
  · contradiction

/-- A call begins with a character of its name, where a call may begin. -/
theorem begins_of_callAt?_eq_some
    {start : Nat}
    {before : Option Cell}
    {cell : Cell}
    {behind : List Cell}
    {call : Call}
    (found : callAt? start before (cell :: behind) = some call) :
    mayStartCall before = true ∧ cell.isCodeName = true ∧ call.name ≠ [] ∧
      ∀ char ∈ call.name, isNameChar char = true := by
  unfold callAt? at found
  simp only at found
  split at found
  case isFalse => contradiction
  case isTrue begins =>
    obtain ⟨arguments, -, rfl⟩ := Option.map_eq_some_iff.1 found
    simp only [Bool.and_eq_true, Bool.not_eq_true', List.isEmpty_eq_false_iff] at begins
    obtain ⟨mayStart, nonempty⟩ := begins
    refine ⟨mayStart, ?_, by simpa [chars] using nonempty, fun char member => ?_⟩
    · rw [← Bool.not_eq_false]
      intro noName
      simp [noName] at nonempty
    · obtain ⟨named, inName, rfl⟩ := List.mem_map.1 member
      have isCodeName := List.all_eq_true.1 List.all_takeWhile named inName
      rw [Cell.isCodeName, Bool.and_eq_true] at isCodeName
      exact isCodeName.2

theorem start_of_callAt?_eq_some
    {start : Nat}
    {before : Option Cell}
    {cells : List Cell}
    {call : Call}
    (found : callAt? start before cells = some call) :
    call.start = start := by
  unfold callAt? at found
  simp only at found
  split at found
  · obtain ⟨inner, -, rfl⟩ := Option.map_eq_some_iff.1 found
    rfl
  · contradiction

/-- Moving the start of a call changes neither its name nor its arguments. -/
theorem callAt?_eq_map_start
    (start : Nat)
    (before : Option Cell)
    (cells : List Cell) :
    callAt? start before cells =
      (callAt? 0 before cells).map fun call => { call with start := start } := by
  unfold callAt?
  simp only
  split
  · rw [Option.map_map]
    rfl
  · rfl

theorem getLast?_cons_or
    {α : Type}
    (first : α)
    (rest : List α)
    (before : Option α) :
    (first :: rest).getLast?.or before = rest.getLast?.or (some first) := by
  rw [List.getLast?_cons]
  cases rest.getLast? <;> rfl

/-- Every call among some cells is found at one of them. -/
theorem mem_callsFrom_iff
    {start : Nat}
    {before : Option Cell}
    {cells : List Cell}
    {call : Call} :
    call ∈ callsFrom start before cells ↔
      ∃ front cell rest, cells = front ++ cell :: rest ∧
        callAt? (start + front.length) (front.getLast?.or before) (cell :: rest) =
          some call := by
  induction cells generalizing start before with
  | nil => simp [callsFrom]
  | cons cell rest inductionHypothesis =>
      rw [callsFrom, List.mem_append, Option.mem_toList, inductionHypothesis]
      constructor
      · rintro (here | ⟨front, next, others, split, found⟩)
        · exact ⟨[], cell, rest, rfl, here⟩
        · refine ⟨cell :: front, next, others, by rw [split]; rfl, ?_⟩
          rwa [List.length_cons, ← Nat.add_assoc, Nat.add_right_comm, getLast?_cons_or]
      · rintro ⟨front, next, others, split, found⟩
        cases front with
        | nil =>
            obtain ⟨rfl, rfl⟩ := List.cons.inj split
            exact Or.inl found
        | cons first front =>
            obtain ⟨rfl, restSplit⟩ := List.cons.inj split
            refine Or.inr ⟨front, next, others, restSplit, ?_⟩
            rwa [List.length_cons, ← Nat.add_assoc, Nat.add_right_comm, getLast?_cons_or] at found

/-- A call of a text stands in the text at its start. -/
theorem text_isPrefix_drop_of_mem_calls
    {source : Text}
    {call : Call}
    (member : call ∈ calls source) :
    call.text <+: source.drop call.start := by
  obtain ⟨front, cell, rest, split, found⟩ := mem_callsFrom_iff.1 member
  have begins := text_isPrefix_of_callAt?_eq_some found
  have place : chars (cell :: rest) = source.drop front.length := by
    rw [← chars_cells source, split, chars_append, ← length_chars front, List.drop_left]
  rw [place] at begins
  rw [start_of_callAt?_eq_some found, Nat.zero_add]
  exact begins

end Source
end LessTheme
