import LessTheme.Json.Object
import LessTheme.Json.Printing
import LessTheme.Json.Quoted

/-!
# Strings and objects that are written and read

Strings and objects are read back from what is written for them, whatever stands
behind it.
-/

namespace LessTheme
namespace Json

/-! ## Escapes -/

theorem hexNumber?_control :
    ∀ code < 0x20, hexNumber? ['0', '0', hexDigit (code / 16), hexDigit (code % 16)] = some code := by
  decide

theorem escaped?_of_escapeLetter?_eq_some
    {char letter : Char}
    (escapes : escapeLetter? char = some letter) :
    escaped? letter = some char ∧ letter ≠ 'u' := by
  unfold escapeLetter? at escapes
  split at escapes <;> cases escapes <;> decide

theorem ne_of_escapeLetter?_eq_none
    {char : Char}
    (plain : escapeLetter? char = none) :
    char ≠ '"' ∧ char ≠ '\\' := by
  constructor <;> rintro rfl <;> contradiction

theorem stringBody?_letter
    {letter char : Char}
    (isEscaped : escaped? letter = some char)
    (notUnicode : letter ≠ 'u')
    (rest : Text) :
    stringBody? none ('\\' :: letter :: rest) = Reader.before char (stringBody? none rest) := by
  rw [stringBody?.eq_5 letter rest fun _ _ _ _ _ isUnicode _ => notUnicode isUnicode, isEscaped]
  rfl

theorem stringBody?_control
    {code : Nat}
    (isControl : code < 0x20)
    (rest : Text) :
    stringBody? none
        ('\\' :: 'u' :: '0' :: '0' :: hexDigit (code / 16) :: hexDigit (code % 16) :: rest) =
      Reader.before (.ofNat code) (stringBody? none rest) := by
  have notHigh : ¬isHighSurrogate code = true := by
    unfold isHighSurrogate
    rw [Bool.and_eq_true, decide_eq_true_eq, decide_eq_true_eq]
    omega
  have notLow : ¬isLowSurrogate code = true := by
    unfold isLowSurrogate
    rw [Bool.and_eq_true, decide_eq_true_eq, decide_eq_true_eq]
    omega
  rw [stringBody?.eq_4 _ _ _ _ rest code (hexNumber?_control code isControl), if_neg notHigh,
    if_neg notLow]

theorem stringBody?_plain
    {char : Char}
    (notMark : char ≠ '"' ∧ char ≠ '\\')
    (isPrintable : ¬char.toNat < 0x20)
    (rest : Text) :
    stringBody? none (char :: rest) = Reader.before char (stringBody? none rest) := by
  rw [stringBody?.eq_6 char rest notMark.1 (fun _ _ _ _ _ isMark _ => notMark.2 isMark)
    fun _ _ isMark _ => notMark.2 isMark]
  simp [isPrintable, notMark.2]

/-! ## Strings -/

theorem stringBody?_escape_append
    (char : Char)
    (rest : Text) :
    stringBody? none (escape char ++ rest) = Reader.before char (stringBody? none rest) := by
  unfold escape
  split
  case h_1 letter escapes =>
    obtain ⟨isEscaped, notUnicode⟩ := escaped?_of_escapeLetter?_eq_some escapes
    exact stringBody?_letter isEscaped notUnicode rest
  case h_2 plain =>
    split
    case isTrue isControl =>
      have reads := stringBody?_control isControl rest
      rwa [Char.ofNat_toNat] at reads
    case isFalse isPrintable =>
      exact stringBody?_plain (ne_of_escapeLetter?_eq_none plain) isPrintable rest

theorem stringBody?_flatMap_escape_append
    (text rest : Text) :
    stringBody? none (text.flatMap escape ++ '"' :: rest) = some (text, rest) := by
  induction text with
  | nil => exact stringBody?.eq_1 rest
  | cons char others inductionHypothesis =>
      rw [List.flatMap_cons, List.append_assoc, stringBody?_escape_append, inductionHypothesis]
      rfl

/-- A text is read back from its string. -/
theorem string?_quoted_append
    (text rest : Text) :
    string? (quoted text ++ rest) = some (text, rest) := by
  unfold quoted
  rw [List.cons_append, List.append_assoc]
  exact stringBody?_flatMap_escape_append text rest

end Json

/-!
## Objects that are written and read

An object is read back if its values are.  The induction is on the members;
the number of characters left bounds the number of members left.
-/

namespace Json

variable {Value : Type}

theorem skipBlanks_cons_of_isBlank
    {char : Char}
    (blank : isBlank char = true)
    (rest : Text) :
    skipBlanks (char :: rest) = skipBlanks rest :=
  List.dropWhile_cons_of_pos blank

theorem skipBlanks_cons_of_not_isBlank
    {char : Char}
    (mark : isBlank char = false)
    (rest : Text) :
    skipBlanks (char :: rest) = char :: rest :=
  List.dropWhile_cons_of_neg (by rw [mark]; decide)

theorem skipBlanks_indent_append
    (depth : Nat)
    (rest : Text) :
    skipBlanks (indent depth ++ rest) = skipBlanks rest := by
  unfold indent
  induction 2 * depth with
  | zero => rfl
  | succ count inductionHypothesis =>
      rw [List.replicate_succ, List.cons_append, skipBlanks_cons_of_isBlank (by decide),
        inductionHypothesis]

theorem length_skipBlanks_le (text : Text) : (skipBlanks text).length ≤ text.length :=
  (List.dropWhile_sublist isBlank).length_le

/-- A text that a reader reads as a value, and that does not begin with white space. -/
structure Writes
    (value? : Reader Value)
    (value : Value)
    (text : Text) : Prop where
  reads : ∀ rest, value? (text ++ rest) = some (value, rest)
  begins : ∀ rest, skipBlanks (text ++ rest) = text ++ rest

theorem writes_quoted (text : Text) : Writes string? text (quoted text) := by
  constructor
  · exact string?_quoted_append text
  · intro rest
    exact skipBlanks_cons_of_not_isBlank (by decide) _

/-! ## Members -/

section Members

variable {value? : Reader Value} {print : Value → Text}

theorem member?_member_append
    {value : Value}
    {text : Text}
    (writes : Writes value? value text)
    (key rest : Text) :
    member? value? (member key text ++ rest) = some ((key, value), rest) := by
  unfold member? member
  rw [List.append_assoc, List.append_assoc, string?_quoted_append]
  change (value? (skipBlanks (' ' :: (text ++ rest))) >>= fun reading =>
    some ((key, reading.1), reading.2)) = _
  rw [skipBlanks_cons_of_isBlank (by decide), writes.begins, writes.reads]
  rfl

/-- The line of a member of an object. -/
def memberLine
    (depth : Nat)
    (print : Value → Text)
    (entry : Text × Value) : Text :=
  '\n' :: (indent depth ++ member entry.1 (print entry.2))

theorem skipBlanks_memberLine_append
    (depth : Nat)
    (entry : Text × Value)
    (rest : Text) :
    skipBlanks (memberLine depth print entry ++ rest) =
      member entry.1 (print entry.2) ++ rest := by
  unfold memberLine
  rw [List.cons_append, List.append_assoc, skipBlanks_cons_of_isBlank (by decide),
    skipBlanks_indent_append]
  exact skipBlanks_cons_of_not_isBlank (by decide) _

theorem length_le_length_skipBlanks
    (print : Value → Text)
    (depth : Nat)
    (entries : List (Text × Value))
    (rest : Text) :
    entries.length ≤ (skipBlanks
      (List.intercalate [','] (entries.map (memberLine depth print)) ++ rest)).length := by
  induction entries with
  | nil => exact Nat.zero_le _
  | cons entry others inductionHypothesis =>
      have nonempty : 0 < (member entry.1 (print entry.2)).length := Nat.succ_pos _
      cases others with
      | nil =>
          rw [List.map_singleton, List.intercalate_singleton, skipBlanks_memberLine_append,
            List.length_append, List.length_singleton]
          omega
      | cons next others =>
          rw [List.map_cons, List.map_cons, List.intercalate_cons_cons, ← List.map_cons,
            List.append_assoc, List.append_assoc, skipBlanks_memberLine_append,
            List.length_append, List.length_append, List.length_singleton]
          have shorter := Nat.le_trans inductionHypothesis (length_skipBlanks_le _)
          rw [List.length_cons]
          omega

theorem members?_memberLines
    {entries : List (Text × Value)}
    (nonempty : entries ≠ [])
    (writes : ∀ entry ∈ entries, Writes value? entry.2 (print entry.2))
    {count : Nat}
    (enough : entries.length ≤ count)
    (depth outer : Nat)
    (rest : Text) :
    members? value? count (skipBlanks
        (List.intercalate [','] (entries.map (memberLine depth print)) ++
          '\n' :: (indent outer ++ '}' :: rest))) =
      some (entries, rest) := by
  induction entries generalizing count with
  | nil => contradiction
  | cons entry others inductionHypothesis =>
      have writesHere := writes entry List.mem_cons_self
      cases count with
      | zero => contradiction
      | succ count =>
          cases others with
          | nil =>
              rw [List.map_singleton, List.intercalate_singleton, skipBlanks_memberLine_append,
                members?, member?_member_append writesHere, Option.bind_eq_bind,
                Option.bind_some]
              dsimp only
              rw [skipBlanks_cons_of_isBlank (by decide), skipBlanks_indent_append,
                skipBlanks_cons_of_not_isBlank (by decide)]
              rfl
          | cons next others =>
              have further := inductionHypothesis (List.cons_ne_nil _ _)
                (fun other member => writes other (List.mem_cons_of_mem _ member))
                (Nat.le_of_succ_le_succ enough)
              rw [List.map_cons, List.map_cons, List.intercalate_cons_cons, ← List.map_cons,
                List.append_assoc, List.append_assoc, skipBlanks_memberLine_append,
                members?, member?_member_append writesHere, Option.bind_eq_bind,
                Option.bind_some]
              dsimp only
              rw [List.singleton_append, skipBlanks_cons_of_not_isBlank (by decide)]
              change Option.bind (members? value? count (skipBlanks _)) _ = _
              rw [further]
              rfl

theorem members?_brace
    (count : Nat)
    (rest : Text) :
    members? value? count ('}' :: rest) = none := by
  cases count <;> rfl

theorem object_eq
    (print : Value → Text)
    (depth : Nat)
    (entries : List (Text × Value)) :
    object depth (entries.map fun entry => (entry.1, print entry.2)) =
      if entries.isEmpty then "\x7b\x7d".toList
      else '{' :: (List.intercalate [','] (entries.map (memberLine (depth + 1) print)) ++
        '\n' :: (indent depth ++ ['}'])) := by
  unfold object bracketed
  cases entries with
  | nil => rfl
  | cons entry others =>
      rw [List.map_map, List.map_map]
      rfl

/-- An object is read as its members, if each value is read. -/
theorem writes_object
    (print : Value → Text)
    {entries : List (Text × Value)}
    (writes : ∀ entry ∈ entries, Writes value? entry.2 (print entry.2))
    (depth : Nat) :
    Writes (object? value?) entries
      (object depth (entries.map fun entry => (entry.1, print entry.2))) := by
  rw [object_eq]
  cases entries with
  | nil => exact ⟨fun rest => rfl, fun rest => rfl⟩
  | cons entry others =>
      rw [List.isEmpty_cons, if_neg Bool.false_ne_true]
      constructor
      · intro rest
        have enough := length_le_length_skipBlanks print (depth + 1) (entry :: others)
          ('\n' :: (indent depth ++ '}' :: rest))
        have reads := members?_memberLines (List.cons_ne_nil _ _) writes enough (depth + 1) depth
          rest
        rw [List.cons_append, List.append_assoc, List.cons_append, List.append_assoc,
          List.singleton_append]
        unfold object?
        split
        case h_1 opened =>
          obtain ⟨-, rfl⟩ := List.cons.inj opened
          split
          case h_1 closes =>
            rw [closes, members?_brace] at reads
            contradiction
          case h_2 => exact reads
        case h_2 unopened => exact absurd rfl (unopened _)
      · intro rest
        exact skipBlanks_cons_of_not_isBlank (by decide) _

/-- A whole text is read as a value, if it begins and ends with it. -/
theorem Writes.whole?_eq
    {value : Value}
    {text : Text}
    (writes : Writes value? value text) :
    whole? value? text = some value := by
  have begins := writes.begins []
  have reads := writes.reads []
  rw [List.append_nil] at begins reads
  unfold whole?
  rw [begins, reads]
  rfl

end Members
end Json
end LessTheme
