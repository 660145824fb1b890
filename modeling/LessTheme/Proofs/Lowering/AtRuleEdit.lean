import LessTheme.Proofs.Lowering.AtRule
import LessTheme.Proofs.Source.Byte
import LessTheme.Proofs.Source.Edit
import LessTheme.Proofs.Text.LetterCase

/-!
# At-rules cut out byte by byte

The search for foreign at-rules may go over the bytes of a stylesheet.  Every
at-rule that it finds is cut out of the text between two bytes, and an edit
puts its placeholder there.  An at-rule begins with an at sign and ends with a
semicolon or a brace, so nothing is cut in the middle of a character, and the
edits are those of the patch.
-/

namespace LessTheme
namespace Lowering

open Source

/-! ## The search over bytes -/

/--
The edits for the foreign at-rules among some bytes and the text of each at-rule, given
what is remembered, the place of the bytes and how many of them are cut out already.
-/
def atRuleEditsFrom? (source : Text) :
    AtRuleMemory → Nat → Nat → List Cell → Option (List Edit × List Text)
  | _, _, _, [] => some ([], [])
  | memory, place, skipped + 1, _ :: rest =>
      atRuleEditsFrom? source memory (place + 1) skipped rest
  | memory, place, 0, byte :: rest =>
      match placeholder? memory (byte :: rest) with
      | some placeholder => do
          let stop := place + (placeholder.furtherCells + 1)
          let fragment ← source.slice? place stop
          let later ← atRuleEditsFrom? source (atRuleRule.replace memory) (place + 1)
            placeholder.furtherCells rest
          return (⟨place, stop, placeholder.new⟩ :: later.1, fragment :: later.2)
      | none => atRuleEditsFrom? source (atRuleRule.keep memory byte) (place + 1) 0 rest

/-- The edits for all foreign at-rules of a stylesheet, and the texts of the at-rules. -/
def atRuleEdits? (source : Text) : Option (List Edit × List Text) :=
  atRuleEditsFrom? source ⟨0, 0⟩ 0 0 (cells (Text.bytes source))

/-! ## Keywords -/

theorem isWide_toLower_iff (char : Char) : IsWide char.toLower ↔ IsWide char := by
  have same := @apply_toLower Bool (fun each => decide (0x80 ≤ each.toNat)) (by decide) char
  exact decide_eq_decide.1 same

theorem find?_bytes_eq_some_iff
    {test : Char → Bool}
    (holds : ∀ char, IsWide char → test char = true)
    {mark : Char}
    (narrow : mark.toNat < 0x80)
    (text : Text) :
    (Text.bytes text).find? test = some mark ↔ text.find? test = some mark := by
  induction text with
  | nil => rfl
  | cons char rest inductionHypothesis =>
      rw [Text.bytes_cons]
      by_cases wide : IsWide char
      · obtain ⟨byte, others, split, wideByte⟩ := Text.exists_charBytes_eq_cons wide
        rw [split, List.cons_append, List.find?_cons_of_pos (holds byte wideByte),
          List.find?_cons_of_pos (holds char wide), Option.some.injEq, Option.some.injEq]
        exact iff_of_false (wideByte.ne narrow) (wide.ne narrow)
      · rw [Text.charBytes_of_not_isWide wide, List.singleton_append, List.find?_cons,
          List.find?_cons]
        cases test char with
        | true => rfl
        | false => exact inductionHypothesis

theorem startsWithKeyword_cons_cons
    (char letter : Char)
    (rest keyword : Text) :
    startsWithKeyword (char :: rest) (letter :: keyword) =
      (char.toLower == letter.toLower && startsWithKeyword rest keyword) := by
  simp only [startsWithKeyword, Text.equalsIgnoringCase, Text.lower, List.length_cons,
    List.take_succ_cons, List.drop_succ_cons, List.map_cons, List.cons_beq_cons, Bool.and_assoc]

/-- A keyword stands in front of a text if it stands in front of the bytes. -/
theorem startsWithKeyword_bytes
    {keyword : Text}
    (narrow : ∀ char ∈ keyword, ¬IsWide char)
    (text : Text) :
    startsWithKeyword (Text.bytes text) keyword = startsWithKeyword text keyword := by
  induction keyword generalizing text with
  | nil =>
      have sameEnd : ((Text.bytes text).find? fun char => !isAsciiWhiteSpace char) = some ':' ↔
          (text.find? fun char => !isAsciiWhiteSpace char) = some ':' := by
        refine find?_bytes_eq_some_iff (fun char wide => ?_) (by decide) text
        rw [wide.isAsciiWhiteSpace_eq_false]
        rfl
      have sameHead := Text.any_head?_bytes (fun _ wide => wide.isNameChar_eq_false) text
      simp only [startsWithKeyword, List.length_nil, List.take_zero, List.drop_zero, sameHead,
        bne, beq_eq_decide, sameEnd]
  | cons letter others inductionHypothesis =>
      obtain ⟨isNarrow, othersNarrow⟩ := List.forall_mem_cons.1 narrow
      have fails (char : Char) (wide : IsWide char) : (char.toLower == letter.toLower) = false := by
        refine beq_false_of_ne fun same => isNarrow ?_
        rwa [← isWide_toLower_iff, ← same, isWide_toLower_iff]
      cases text with
      | nil => rfl
      | cons char rest =>
          rw [Text.bytes_cons, startsWithKeyword_cons_cons]
          by_cases wide : IsWide char
          · obtain ⟨byte, others, split, wideByte⟩ := Text.exists_charBytes_eq_cons wide
            rw [split, List.cons_append, startsWithKeyword_cons_cons, fails char wide,
              fails byte wideByte, Bool.false_and, Bool.false_and]
          · rw [Text.charBytes_of_not_isWide wide, List.singleton_append,
              startsWithKeyword_cons_cons, inductionHypothesis othersNarrow]

theorem not_isWide_of_mem_foreignAtRules :
    ∀ keyword ∈ foreignAtRules, ∀ char ∈ keyword, ¬IsWide char := by
  have narrow : (foreignAtRules.all fun keyword =>
      keyword.all fun char => decide (char.toNat < 0x80)) = true := by decide
  exact fun keyword member => not_isWide_of_all (List.all_eq_true.1 narrow keyword member)

theorem startsForeignAtRule_bytesOf (cells : List Cell) :
    startsForeignAtRule (bytesOf cells) = startsForeignAtRule cells := by
  cases cells with
  | nil => rfl
  | cons cell rest =>
      rw [bytesOf_cons, startsForeignAtRule]
      by_cases wide : IsWide cell.char
      · obtain ⟨byte, others, split, wideByte⟩ := Cell.exists_bytes_eq_cons wide
        rw [split, List.cons_append, startsForeignAtRule,
          Cell.isCode_eq_false_of_isWide wide (by decide),
          Cell.isCode_eq_false_of_isWide wideByte (by decide), Bool.false_and, Bool.false_and]
      · rw [Cell.bytes_of_not_isWide wide, List.singleton_append, startsForeignAtRule,
          chars_bytesOf]
        refine congrArg (cell.isCode '@' && ·) (Bool.eq_iff_iff.2 ?_)
        rw [List.any_eq_true, List.any_eq_true]
        refine exists_congr fun keyword => and_congr_right fun member => ?_
        rw [startsWithKeyword_bytes (not_isWide_of_mem_foreignAtRules keyword member)]

/-! ## At-rules -/

theorem isBytewise_endsAtRuleHead : IsBytewise endsAtRuleHead :=
  (IsBytewise.isCode (by decide)).or (.isCode (by decide))

theorem atRule?_bytesOf (cells : List Cell) :
    atRule? (bytesOf cells) = (atRule? cells).map bytesOf := by
  rw [atRule?, isBytewise_endsAtRuleHead.not.takeWhile_bytesOf,
    isBytewise_endsAtRuleHead.not.dropWhile_bytesOf, atRule?]
  have stopEnds := List.head?_dropWhile_not (fun cell => !endsAtRuleHead cell) cells
  cases behind : cells.dropWhile fun cell => !endsAtRuleHead cell with
  | nil => rfl
  | cons stop rest =>
      rw [behind] at stopEnds
      have isStop : endsAtRuleHead stop = true := by simpa using stopEnds
      have narrow : ¬IsWide stop.char := by
        intro wide
        rw [endsAtRuleHead, Cell.isCode_eq_false_of_isWide wide (by decide),
          Cell.isCode_eq_false_of_isWide wide (by decide)] at isStop
        contradiction
      rw [bytesOf_cons, Cell.bytes_of_not_isWide narrow, List.singleton_append]
      dsimp only
      split_ifs
      · rw [Option.map_some, bytesOf_append, bytesOf_cons, Cell.bytes_of_not_isWide narrow]
        rfl
      · rw [enclosed?_bytesOf (by decide) (by decide), Option.map_map, Option.map_map]
        refine congrArg (Option.map · _) (funext fun inner => ?_)
        simp only [Function.comp_apply, bytesOf_append, bytesOf_cons,
          Cell.bytes_of_not_isWide narrow, List.singleton_append]
        rfl

theorem placeholder?_bytesOf
    (memory : AtRuleMemory)
    (cells : List Cell) :
    placeholder? memory (bytesOf cells) =
      if memory.depth = 0 ∧ startsForeignAtRule cells = true then
        (atRule? cells).map fun rule =>
          ⟨Text.byteLength (chars rule) - 1, atRulePlaceholder memory.count⟩
      else none := by
  rw [placeholder?, startsForeignAtRule_bytesOf, atRule?_bytesOf, Option.map_map]
  simp only [Function.comp_def, length_bytesOf]

/-! ## The course of the search -/

theorem keep_of_isWide
    {cell : Cell}
    (wide : IsWide cell.char)
    (memory : AtRuleMemory) :
    atRuleRule.keep memory cell = memory := by
  change { memory with depth := blockDepth memory.depth cell } = memory
  rw [blockDepth, Cell.isCode_eq_false_of_isWide wide (by decide),
    Cell.isCode_eq_false_of_isWide wide (by decide)]
  rfl

section Search

variable {source : Text} {memory : AtRuleMemory}

theorem atRuleEditsFrom?_append_of_skipped
    (place : Nat)
    (front rest : List Cell) :
    atRuleEditsFrom? source memory place front.length (front ++ rest) =
      atRuleEditsFrom? source memory (place + front.length) 0 rest := by
  induction front generalizing place with
  | nil => rfl
  | cons cell others inductionHypothesis =>
      rw [List.cons_append, List.length_cons, atRuleEditsFrom?, inductionHypothesis,
        Nat.add_right_comm, Nat.add_assoc]

theorem atRuleEditsFrom?_cons_of_isWide
    {cell : Cell}
    (wide : IsWide cell.char)
    (place : Nat)
    (rest : List Cell) :
    atRuleEditsFrom? source memory place 0 (cell :: rest) =
      atRuleEditsFrom? source memory (place + 1) 0 rest := by
  have noRule : placeholder? memory (cell :: rest) = none := by
    rw [placeholder?, startsForeignAtRule, Cell.isCode_eq_false_of_isWide wide (by decide)]
    exact if_neg fun begins => Bool.false_ne_true begins.2
  rw [atRuleEditsFrom?, noRule]
  dsimp only
  rw [keep_of_isWide wide]

/-- A cell at which no at-rule is cut out is passed over. -/
theorem atRuleEditsFrom?_cons_of_eq_none
    {cell : Cell}
    {rest : List Cell}
    (noRule : placeholder? memory (cell :: rest) = none)
    (place : Nat) :
    atRuleEditsFrom? source memory place 0 (bytesOf (cell :: rest)) =
      atRuleEditsFrom? source (atRuleRule.keep memory cell) (place + cell.char.utf8Size) 0
        (bytesOf rest) := by
  rw [bytesOf_cons]
  by_cases wide : IsWide cell.char
  · rw [keep_of_isWide wide]
    exact search_bytes_append_of_isWide (fun _ => atRuleEditsFrom?_cons_of_isWide) wide _ _
  · have noRuleBytes : placeholder? memory (cell :: bytesOf rest) = none := by
      have found := placeholder?_bytesOf memory (cell :: rest)
      rw [bytesOf_cons, Cell.bytes_of_not_isWide wide, List.singleton_append] at found
      rw [found]
      rw [placeholder?] at noRule
      split_ifs at noRule ⊢
      · rw [Option.map_eq_none_iff] at noRule
        rw [noRule]
        rfl
      · rfl
    rw [Cell.bytes_of_not_isWide wide, Text.utf8Size_of_not_isWide wide, List.singleton_append,
      atRuleEditsFrom?, noRuleBytes]

/-- An at-rule is found over the cells with as many bytes as are found over the bytes. -/
theorem exists_of_placeholder?_eq_some_bytes
    {cell : Cell}
    {rest : List Cell}
    {replacement : Replacement}
    (made : placeholder? memory (cell :: rest) = some replacement) :
    ∃ tail behind, rest = tail ++ behind ∧ ¬IsWide cell.char ∧
      replacement.furtherCells = tail.length ∧
      placeholder? memory (cell :: bytesOf rest) =
        some ⟨(bytesOf tail).length, replacement.new⟩ := by
  have found := placeholder?_bytesOf memory (cell :: rest)
  rw [placeholder?] at made
  split_ifs at made with begins
  obtain ⟨rule, isRule, rfl⟩ := Option.map_eq_some_iff.1 made
  obtain ⟨own, behind, split, isAtRule⟩ := exists_isAtRule_of_atRule?_eq_some isRule
  rw [if_pos begins, isRule, Option.map_some, ← isAtRule.sameChars] at found
  have isSign : cell.isCode '@' = true := (Bool.and_eq_true_iff.1 begins.2).1
  have narrow : ¬IsWide cell.char := not_isWide_of_eq (Cell.char_of_isCode isSign) (by decide)
  rw [bytesOf_cons, Cell.bytes_of_not_isWide narrow, List.singleton_append] at found
  cases own with
  | nil => simpa using isAtRule.ends
  | cons first tail =>
      rw [List.cons_append] at split
      obtain ⟨rfl, rfl⟩ := List.cons.inj split
      have sameLength := congrArg List.length isAtRule.sameChars
      rw [length_chars, length_chars, List.length_cons] at sameLength
      refine ⟨tail, behind, rfl, narrow, ?_, ?_⟩
      · exact (Nat.sub_eq_of_eq_add sameLength.symm)
      · rw [← length_bytesOf, bytesOf_cons, Cell.bytes_of_not_isWide narrow, List.length_append,
          List.length_singleton, Nat.add_sub_cancel_left] at found
        exact found

/-- Over the bytes an at-rule is cut out where the rule cuts it out over the cells. -/
theorem atRuleEditsFrom?_bytesOf
    {front : Text}
    {cells : List Cell}
    (whole : source = front ++ chars cells) :
    atRuleEditsFrom? source memory front.byteLength 0 (bytesOf cells) =
      some ((atRuleRule.patchFrom memory 0 cells).edits front.byteLength,
        (atRuleRule.patchFrom memory 0 cells).replaced) := by
  induction length : cells.length using Nat.strong_induction_on
    generalizing memory front cells with
  | _ count inductionHypothesis =>
  subst length
  cases cells with
  | nil => rfl
  | cons cell rest =>
      unfold Rule.patchFrom
      cases made : atRuleRule.replacement? memory (cell :: rest) with
      | none =>
          have behind : source = (front ++ [cell.char]) ++ chars rest := by
            rw [whole, List.append_assoc]
            rfl
          have further := @inductionHypothesis _ (Nat.lt_succ_self _)
            (atRuleRule.keep memory cell) _ _ behind rfl
          rw [Text.byteLength_append] at further
          rw [atRuleEditsFrom?_cons_of_eq_none made]
          exact further
      | some replacement =>
          obtain ⟨tail, behind, rfl, narrow, furtherCells, found⟩ :=
            exists_of_placeholder?_eq_some_bytes made
          have shorter : behind.length < (cell :: (tail ++ behind)).length := by
            rw [List.length_cons, List.length_append]
            omega
          have isBehind : source = (front ++ chars (cell :: tail)) ++ chars behind := by
            rw [whole, List.append_assoc, ← chars_append]
            rfl
          have further := @inductionHypothesis _ shorter
            (atRuleRule.replace memory) _ _ isBehind rfl
          have ownBytes : (bytesOf tail).length + 1 = Text.byteLength (chars (cell :: tail)) := by
            rw [← length_bytesOf, bytesOf_cons, Cell.bytes_of_not_isWide narrow]
            rfl
          have isSlice : source.slice? front.byteLength
              (front.byteLength + ((bytesOf tail).length + 1)) = some (chars (cell :: tail)) := by
            rw [ownBytes, Text.slice?_eq_some_iff]
            refine ⟨front, chars behind, ?_, rfl, Text.byteLength_append _ _⟩
            rw [isBehind, List.append_assoc]
          rw [bytesOf_cons, Cell.bytes_of_not_isWide narrow, List.singleton_append,
            atRuleEditsFrom?, found]
          dsimp only
          rw [furtherCells, List.take_left, Rule.patchFrom_eq_patchFrom_drop, List.drop_left,
            bytesOf_append, atRuleEditsFrom?_append_of_skipped, isSlice, Nat.add_assoc,
            Nat.add_comm 1, ownBytes, ← Text.byteLength_append, further, Patch.edits,
            ← chars_cons, ← Text.byteLength_append]
          rfl

end Search

/-- The edits for foreign at-rules are those of the patch that cuts them out. -/
theorem atRuleEdits?_eq (source : Text) :
    atRuleEdits? source =
      some ((atRulePatch source).edits 0, (atRulePatch source).replaced) := by
  rw [atRuleEdits?, cells_bytes]
  exact @atRuleEditsFrom?_bytesOf source ⟨0, 0⟩ [] (cells source) (chars_cells source).symm

end Lowering
end LessTheme
