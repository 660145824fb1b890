import LessTheme.Text.WhiteSpace
import Mathlib.Data.List.Infix

/-!
# Pieces of texts

Trimming, splitting and joining bring no new characters into a text but those
of the separator.  Joined texts begin and end the way the first and the last
text do, and the second starts at the byte that ends the first.  A mark that a
pattern does not hold keeps apart what stands in front of it and behind it.
-/

namespace LessTheme
namespace Text

/-- A number is written in digits. -/
theorem isDigit_of_mem_toString
    {number : Nat}
    {char : Char}
    (member : char ∈ (toString number).toList) :
    char.isDigit = true := by
  rw [Nat.toString_eq_repr, Nat.toList_repr] at member
  exact Nat.isDigit_of_mem_toDigits (by decide) (by decide) member

theorem byteLength_append (front back : Text) :
    byteLength (front ++ back) = byteLength front + byteLength back := by
  induction front with
  | nil => exact (Nat.zero_add _).symm
  | cons char rest inductionHypothesis =>
      rw [List.cons_append, byteLength, byteLength, inductionHypothesis, Nat.add_assoc]

theorem byteLength_pos
    {text : Text}
    (nonempty : text ≠ []) :
    0 < text.byteLength := by
  obtain ⟨char, rest, rfl⟩ := List.exists_cons_of_ne_nil nonempty
  exact Nat.add_pos_left char.utf8Size_pos (byteLength rest)

/-- The character behind some text starts at the byte that ends the text. -/
theorem indexOfByte?_append (front back : Text) :
    indexOfByte? (byteLength front) (front ++ back) = some front.length := by
  induction front with
  | nil => cases back <;> rfl
  | cons char rest inductionHypothesis =>
      have isLater : char.utf8Size + byteLength rest ≠ 0 :=
        Nat.ne_of_gt (byteLength_pos (List.cons_ne_nil char rest))
      rw [List.cons_append, byteLength, indexOfByte?, if_neg isLater,
        if_neg (Nat.not_lt.2 (Nat.le_add_right _ _)), Nat.add_sub_cancel_left,
        inductionHypothesis]
      rfl

theorem dropEndWhile_subset
    (isDropped : Char → Bool)
    (text : Text) :
    dropEndWhile isDropped text ⊆ text := by
  intro char member
  rw [dropEndWhile, List.mem_reverse] at member
  exact List.mem_reverse.1 (List.dropWhile_subset _ member)

theorem trimEnd_subset (text : Text) : text.trimEnd ⊆ text := dropEndWhile_subset _ text

theorem trim_subset (text : Text) : text.trim ⊆ text := by
  intro char member
  change char ∈ trimEnd (text.dropWhile isWhiteSpace) at member
  exact List.dropWhile_subset _ (trimEnd_subset _ member)

theorem splitWhere_ne_nil
    (isSeparator : Char → Bool)
    (text : Text) :
    splitWhere isSeparator text ≠ [] := by
  induction text with
  | nil => simp [splitWhere]
  | cons char rest inductionHypothesis =>
      unfold splitWhere
      split
      · simp
      · simpa using inductionHypothesis

theorem splitWhere_append_cons
    {isSeparator : Char → Bool}
    {mark : Char}
    (separates : isSeparator mark = true)
    (front back : Text) :
    splitWhere isSeparator (front ++ mark :: back) =
      splitWhere isSeparator front ++ splitWhere isSeparator back := by
  induction front with
  | nil => simp [splitWhere, separates]
  | cons char rest inductionHypothesis =>
      rw [List.cons_append, splitWhere, splitWhere, inductionHypothesis]
      split
      · rfl
      · obtain ⟨piece, others, pieces⟩ :=
          List.exists_cons_of_ne_nil (splitWhere_ne_nil isSeparator rest)
        rw [pieces]
        rfl

theorem splitWhere_eq_singleton
    {isSeparator : Char → Bool}
    {text : Text}
    (unbroken : ∀ char ∈ text, isSeparator char = false) :
    splitWhere isSeparator text = [text] := by
  induction text with
  | nil => rfl
  | cons char rest inductionHypothesis =>
      rw [splitWhere, unbroken char List.mem_cons_self, if_neg Bool.false_ne_true,
        inductionHypothesis fun other member => unbroken other (List.mem_cons_of_mem _ member)]
      rfl

theorem mem_of_mem_splitWhere
    {isSeparator : Char → Bool}
    {text piece : Text}
    {char : Char}
    (isPiece : piece ∈ splitWhere isSeparator text)
    (member : char ∈ piece) :
    char ∈ text ∧ isSeparator char = false := by
  induction text generalizing piece with
  | nil =>
      rw [splitWhere, List.mem_singleton] at isPiece
      rw [isPiece] at member
      contradiction
  | cons first rest inductionHypothesis =>
      have later : ∀ {piece}, piece ∈ splitWhere isSeparator rest → char ∈ piece →
          char ∈ first :: rest ∧ isSeparator char = false :=
        fun isPiece member =>
          (inductionHypothesis isPiece member).imp_left (List.mem_cons_of_mem _)
      unfold splitWhere at isPiece
      split at isPiece
      · obtain rfl | isPiece := List.mem_cons.1 isPiece
        · contradiction
        · exact later isPiece member
      case isFalse noSeparator =>
        cases pieces : splitWhere isSeparator rest with
        | nil => simp [pieces] at isPiece
        | cons head others =>
            rw [pieces, List.modifyHead_cons] at isPiece
            rw [pieces] at later
            obtain rfl | isPiece := List.mem_cons.1 isPiece
            · obtain rfl | member := List.mem_cons.1 member
              · exact ⟨List.mem_cons_self, Bool.eq_false_iff.2 noSeparator⟩
              · exact later List.mem_cons_self member
            · exact later (List.mem_cons_of_mem _ isPiece) member

theorem mem_separator_or_mem_of_mem_intercalate
    {separator : Text}
    {texts : List Text}
    {char : Char}
    (member : char ∈ List.intercalate separator texts) :
    char ∈ separator ∨ ∃ text ∈ texts, char ∈ text := by
  induction texts with
  | nil => simp at member
  | cons text rest inductionHypothesis =>
      cases rest with
      | nil =>
          rw [List.intercalate_singleton] at member
          exact Or.inr ⟨text, List.mem_cons_self, member⟩
      | cons next others =>
          rw [List.intercalate_cons_cons, List.mem_append, List.mem_append] at member
          obtain (here | between) | later := member
          · exact Or.inr ⟨text, List.mem_cons_self, here⟩
          · exact Or.inl between
          · obtain between | ⟨found, isText, inside⟩ := inductionHypothesis later
            · exact Or.inl between
            · exact Or.inr ⟨found, List.mem_cons_of_mem _ isText, inside⟩

/-- Collapsing keeps no white space and brings in nothing but single spaces. -/
theorem mem_of_mem_collapse
    {text : Text}
    {char : Char}
    (member : char ∈ text.collapse) :
    char = ' ' ∨ char ∈ text ∧ isWhiteSpace char = false := by
  obtain space | ⟨word, isWord, inside⟩ := mem_separator_or_mem_of_mem_intercalate member
  · exact Or.inl (List.mem_singleton.1 space)
  · exact Or.inr (mem_of_mem_splitWhere (List.mem_filter.1 isWord).1 inside)

/-! ## Joined texts -/

theorem intercalate_concat
    {texts : List Text}
    (nonempty : texts ≠ [])
    (separator last : Text) :
    List.intercalate separator (texts ++ [last]) =
      List.intercalate separator texts ++ (separator ++ last) := by
  induction texts with
  | nil => contradiction
  | cons text rest inductionHypothesis =>
      cases rest with
      | nil => simp
      | cons next others =>
          rw [List.cons_append, List.cons_append, List.intercalate_cons_cons, ← List.cons_append,
            inductionHypothesis (List.cons_ne_nil _ _), List.intercalate_cons_cons]
          simp only [List.append_assoc]

theorem append_intercalate
    {texts : List Text}
    (nonempty : texts ≠ [])
    (separator : Text) :
    separator ++ List.intercalate separator texts = texts.flatMap (separator ++ ·) := by
  induction texts with
  | nil => contradiction
  | cons text rest inductionHypothesis =>
      cases rest with
      | nil => simp
      | cons next others =>
          rw [List.intercalate_cons_cons, List.flatMap_cons,
            ← inductionHypothesis (List.cons_ne_nil _ _)]
          simp only [List.append_assoc]

/-- Texts that are joined by a mark that none of them holds are the pieces between the marks. -/
theorem splitWhere_intercalate
    {mark : Char}
    {texts : List Text}
    (nonempty : texts ≠ [])
    (unmarked : ∀ text ∈ texts, mark ∉ text) :
    splitWhere (· == mark) (List.intercalate [mark] texts) = texts := by
  have single : ∀ text ∈ texts, splitWhere (· == mark) text = [text] := by
    intro text member
    refine splitWhere_eq_singleton fun char inside => beq_eq_false_iff_ne.2 ?_
    rintro rfl
    exact unmarked text member inside
  have cut : ∀ front back, splitWhere (· == mark) (front ++ mark :: back) =
      splitWhere (· == mark) front ++ splitWhere (· == mark) back :=
    splitWhere_append_cons (beq_self_eq_true mark)
  induction texts with
  | nil => contradiction
  | cons text rest inductionHypothesis =>
      cases rest with
      | nil =>
          rw [List.intercalate_singleton]
          exact single text List.mem_cons_self
      | cons next others =>
          rw [List.intercalate_cons_cons, List.append_assoc, List.singleton_append,
            cut, single text List.mem_cons_self,
            inductionHypothesis (List.cons_ne_nil _ _)
              (fun found member => unmarked found (List.mem_cons_of_mem _ member))
              (fun found member => single found (List.mem_cons_of_mem _ member))]
          rfl

theorem head?_intercalate
    {text : Text}
    (nonempty : text ≠ [])
    (separator : Text)
    (rest : List Text) :
    (List.intercalate separator (text :: rest)).head? = text.head? := by
  cases rest with
  | nil => rw [List.intercalate_singleton]
  | cons next others =>
      cases text with
      | nil => contradiction
      | cons char chars =>
          rw [List.intercalate_cons_cons]
          rfl

theorem getLast?_intercalate
    {texts : List Text}
    {char : Char}
    (nonempty : texts ≠ [])
    (separator : Text)
    (last : ∀ text ∈ texts, text.getLast? = some char) :
    (List.intercalate separator texts).getLast? = some char := by
  induction texts with
  | nil => contradiction
  | cons text rest inductionHypothesis =>
      cases rest with
      | nil =>
          rw [List.intercalate_singleton]
          exact last text List.mem_cons_self
      | cons next others =>
          rw [List.intercalate_cons_cons, List.getLast?_append,
            inductionHypothesis (List.cons_ne_nil _ _) fun found member =>
              last found (List.mem_cons_of_mem _ member)]
          rfl

/-! ## Patterns -/

theorem includes_iff_isInfix
    {text pattern : Text} :
    text.includes pattern = true ↔ pattern <:+: text := by
  induction text with
  | nil => simp [includes]
  | cons char rest inductionHypothesis =>
      rw [includes, Bool.or_eq_true, List.isPrefixOf_iff_prefix, inductionHypothesis,
        List.infix_cons_iff]

section Patterns

variable {pattern front back : Text} {mark : Char}

theorem isPrefix_of_isPrefix_append_cons
    (noMark : mark ∉ pattern)
    (begins : pattern <+: front ++ mark :: back) :
    pattern <+: front := by
  obtain shorter | longer :=
    List.prefix_or_prefix_of_prefix begins (List.prefix_append front (mark :: back))
  · exact shorter
  · obtain ⟨rest, rfl⟩ := longer
    rw [List.prefix_append_right_inj] at begins
    cases rest with
    | nil => rw [List.append_nil]
    | cons char others =>
        obtain ⟨rfl, -⟩ := List.cons_prefix_cons.1 begins
        simp at noMark

/-- A pattern without a mark stands in front of the mark or behind it. -/
theorem isInfix_or_of_isInfix_append_cons
    (noMark : mark ∉ pattern)
    (isInfix : pattern <:+: front ++ mark :: back) :
    pattern <:+: front ∨ pattern <:+: back := by
  induction front with
  | nil =>
      obtain begins | later := List.infix_cons_iff.1 isInfix
      · exact Or.inl (isPrefix_of_isPrefix_append_cons noMark begins).isInfix
      · exact Or.inr later
  | cons char rest inductionHypothesis =>
      obtain begins | later := List.infix_cons_iff.1 isInfix
      · exact Or.inl (isPrefix_of_isPrefix_append_cons noMark begins).isInfix
      · exact (inductionHypothesis later).imp_left fun inRest =>
          inRest.trans (List.suffix_cons char rest).isInfix

/-- A pattern with one mark stands in front of a mark, behind it, or around it. -/
theorem isInfix_or_around_of_isInfix_append_cons
    {first second : Text}
    (noMark : mark ∉ first ∧ mark ∉ second)
    (isInfix : first ++ mark :: second <:+: front ++ mark :: back) :
    first ++ mark :: second <:+: front ∨ first ++ mark :: second <:+: back ∨
      first <:+ front ∧ second <+: back := by
  induction front with
  | nil =>
      obtain begins | later := List.infix_cons_iff.1 isInfix
      · cases first with
        | nil => exact .inr (.inr ⟨List.nil_suffix, (List.cons_prefix_cons.1 begins).2⟩)
        | cons char others =>
            rw [List.cons_append, List.cons_prefix_cons] at begins
            exact absurd (begins.1 ▸ List.mem_cons_self) noMark.1
      · exact .inr (.inl later)
  | cons char rest inductionHypothesis =>
      obtain begins | later := List.infix_cons_iff.1 isInfix
      · have isFirst : first <+: char :: rest :=
          isPrefix_of_isPrefix_append_cons noMark.1 ((List.prefix_append _ _).trans begins)
        obtain ⟨others, split⟩ := isFirst
        have whole : first ++ mark :: second <+: first ++ (others ++ mark :: back) := by
          rw [← List.append_assoc, split]
          exact begins
        rw [List.prefix_append_right_inj] at whole
        cases others with
        | nil =>
            rw [List.append_nil] at split
            exact .inr (.inr ⟨split ▸ List.suffix_refl _, (List.cons_prefix_cons.1 whole).2⟩)
        | cons next others =>
            rw [List.cons_append, List.cons_prefix_cons] at whole
            obtain ⟨rfl, inOthers⟩ := whole
            have isSecond := isPrefix_of_isPrefix_append_cons noMark.2 inOthers
            rw [← split]
            exact .inl ((List.prefix_append_right_inj first).2
              (List.cons_prefix_cons.2 ⟨rfl, isSecond⟩)).isInfix
      · obtain inFront | inBack | ⟨ends, begins⟩ := inductionHypothesis later
        · exact .inl (inFront.trans (List.suffix_cons char rest).isInfix)
        · exact .inr (.inl inBack)
        · exact .inr (.inr ⟨ends.trans (List.suffix_cons char rest), begins⟩)

end Patterns

/-!
## Slices of texts

A slice is cut from a text between two bytes.  There is one exactly if both
bytes lie between characters of the text and the second is not before the
first, and it is then what stands between them.
-/

/-- The text from one byte up to another one, if both lie between characters and in this order. -/
def slice? (text : Text) (first last : Nat) : Option Text := do
  let start ← text.indexOfByte? first
  let stop ← text.indexOfByte? last
  if start ≤ stop then some ((text.take stop).drop start) else none

/-- The bytes between characters are those that end some text in front. -/
theorem indexOfByte?_eq_some_iff
    {text : Text}
    {offset index : Nat} :
    text.indexOfByte? offset = some index ↔
      ∃ front back, text = front ++ back ∧ byteLength front = offset ∧ front.length = index := by
  constructor
  · intro found
    induction text generalizing offset index with
    | nil =>
        rw [indexOfByte?, Option.ite_none_right_eq_some, Option.some.injEq] at found
        obtain ⟨rfl, rfl⟩ := found
        exact ⟨[], [], rfl, rfl, rfl⟩
    | cons char rest inductionHypothesis =>
        unfold indexOfByte? at found
        split at found
        case isTrue isStart =>
          obtain rfl := Option.some.inj found
          exact ⟨[], char :: rest, rfl, isStart.symm, rfl⟩
        case isFalse =>
          split at found
          case isTrue => contradiction
          case isFalse isBehind =>
            obtain ⟨place, isPlace, rfl⟩ := Option.map_eq_some_iff.1 found
            obtain ⟨front, back, rfl, reaches, rfl⟩ := inductionHypothesis isPlace
            refine ⟨char :: front, back, rfl, ?_, rfl⟩
            rw [byteLength, reaches]
            omega
  · rintro ⟨front, back, rfl, rfl, rfl⟩
    exact indexOfByte?_append front back

/-- A slice is what stands between the texts that end at its two bytes. -/
theorem slice?_eq_some_iff
    {text middle : Text}
    {first last : Nat} :
    text.slice? first last = some middle ↔
      ∃ front back, text = front ++ (middle ++ back) ∧ byteLength front = first ∧
        byteLength (front ++ middle) = last := by
  simp only [slice?, bind, Option.bind_eq_some_iff, Option.ite_none_right_eq_some,
    Option.some.injEq]
  constructor
  · rintro ⟨start, isStart, stop, isStop, ordered, rfl⟩
    obtain ⟨front, rest, split, reaches, rfl⟩ := indexOfByte?_eq_some_iff.1 isStart
    obtain ⟨longer, back, rfl, reachesLast, rfl⟩ := indexOfByte?_eq_some_iff.1 isStop
    have isShorter : front <+: longer :=
      List.prefix_of_prefix_length_le (split ▸ List.prefix_append front rest)
        (List.prefix_append longer back) ordered
    obtain ⟨middle, rfl⟩ := isShorter
    refine ⟨front, back, ?_, reaches, ?_⟩
    · rw [List.take_left, List.drop_left, List.append_assoc]
    · rw [List.take_left, List.drop_left, reachesLast]
  · rintro ⟨front, back, rfl, rfl, rfl⟩
    refine ⟨front.length, indexOfByte?_append _ _, (front ++ middle).length, ?_, ?_, ?_⟩
    · rw [← List.append_assoc]
      exact indexOfByte?_append _ _
    · simp
    · rw [← List.append_assoc, List.take_left, List.drop_left]

end Text
end LessTheme
