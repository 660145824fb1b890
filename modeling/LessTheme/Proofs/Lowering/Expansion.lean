import LessTheme.Proofs.Lowering.ColorAlpha
import LessTheme.Proofs.Lowering.SimpleSelector

/-!
# What expanding colours makes of the rest

The channel form of a colour repeats its arguments between names of channels,
parentheses and commas.  So it makes neither a grouping pseudo-class nor a
custom property where there was none, and as long as no end of a statement
stands in the arguments of colours, expanding them changes no selector and
leaves no colour that the passes before have to rewrite.
-/

namespace LessTheme
namespace Lowering

open Source

/-! ## Patterns that no channel form makes -/

/-- The functions that give the channels of colours. -/
def channelFunctions : List Text := ["hue", "saturation", "lightness", "red", "green", "blue"]

theorem channels_subset (name : Text) : channels name ⊆ channelFunctions := by
  unfold channels
  split <;> decide

theorem channels_ne_nil (name : Text) : channels name ≠ [] :=
  List.ne_nil_of_length_pos (by rw [length_channels]; decide)

/-- A pattern of two texts with a parenthesis between that no channel form makes. -/
structure IsForeign (front back : Text) : Prop where
  noMark : ∀ mark ∈ ['(', ')', ',', ' '], mark ∉ front ∧ mark ∉ back
  noChannel : ∀ channel ∈ channelFunctions, ¬front <:+ channel
  noStart : ∀ channel ∈ channelFunctions, back.head? ≠ channel.head?

namespace IsForeign

variable {front back : Text}

theorem not_mem
    (foreign : IsForeign front back)
    {mark : Char}
    (isMark : mark ∈ [')', ',', ' ']) :
    mark ∉ front ++ '(' :: back := by
  have noMark := foreign.noMark mark (List.mem_cons_of_mem _ isMark)
  have noOpening : mark ≠ '(' := by
    rintro rfl
    exact absurd isMark (by decide)
  simp [noMark, noOpening]

/-- In the arguments of a channel form the pattern stands in one of the two arguments. -/
theorem isInfix_or_of_channelArguments
    (foreign : IsForeign front back)
    {names : List Text}
    {color alpha : Text}
    (areChannels : names ⊆ channelFunctions)
    (isInfix : front ++ '(' :: back <:+: channelArguments names color alpha) :
    front ++ '(' :: back <:+: color ∨ front ++ '(' :: back <:+: alpha := by
  induction names with
  | nil => exact .inr isInfix
  | cons name rest inductionHypothesis =>
      obtain ⟨isChannel, others⟩ := List.cons_subset.1 areChannels
      have split : channelArguments (name :: rest) color alpha =
          (name ++ '(' :: color) ++ ')' ::
            ([] ++ ',' :: ([] ++ ' ' :: channelArguments rest color alpha)) := by
        simp [channelArguments, callText]
      rw [split] at isInfix
      obtain inCall | behind :=
        Text.isInfix_or_of_isInfix_append_cons (foreign.not_mem (by decide)) isInfix
      · obtain inName | inColor | ⟨ends, -⟩ :=
          Text.isInfix_or_around_of_isInfix_append_cons (foreign.noMark '(' (by decide)) inCall
        · have noParenthesis : ∀ channel ∈ channelFunctions, '(' ∉ channel := by decide
          exact absurd (inName.subset List.mem_append_cons_self) (noParenthesis name isChannel)
        · exact .inl inColor
        · exact absurd ends (foreign.noChannel name isChannel)
      · obtain inNothing | behind :=
          Text.isInfix_or_of_isInfix_append_cons (foreign.not_mem (by decide)) behind
        · exact absurd (List.infix_nil.1 inNothing) (by simp)
        obtain inNothing | inRest :=
          Text.isInfix_or_of_isInfix_append_cons (foreign.not_mem (by decide)) behind
        · exact absurd (List.infix_nil.1 inNothing) (by simp)
        · exact inductionHypothesis others inRest

/-- A call in channel form, with other text around, holds the pattern only where the call did. -/
theorem isInfix_callText
    (foreign : IsForeign front back)
    {names : List Text}
    {name arguments color alpha lead rest : Text}
    (nonempty : names ≠ [])
    (areChannels : names ⊆ channelFunctions)
    (colorPart : color <:+: arguments)
    (alphaPart : alpha <:+: arguments)
    (isInfix : front ++ '(' :: back <:+:
      lead ++ (callText name (channelArguments names color alpha) ++ rest)) :
    front ++ '(' :: back <:+: lead ++ (callText name arguments ++ rest) := by
  have split : lead ++ (callText name (channelArguments names color alpha) ++ rest) =
      (lead ++ name ++ '(' :: channelArguments names color alpha) ++ ')' :: rest := by
    simp [callText]
  have argumentsPart : arguments <:+: lead ++ (callText name arguments ++ rest) :=
    ⟨lead ++ (name ++ ['(']), ')' :: rest, by simp [callText]⟩
  rw [split] at isInfix
  obtain inCall | inRest :=
    Text.isInfix_or_of_isInfix_append_cons (foreign.not_mem (by decide)) isInfix
  · obtain inFront | inArguments | ⟨ends, begins⟩ :=
      Text.isInfix_or_around_of_isInfix_append_cons (foreign.noMark '(' (by decide)) inCall
    · exact inFront.trans ⟨[], '(' :: (arguments ++ ')' :: rest), by simp [callText]⟩
    · obtain inColor | inAlpha := foreign.isInfix_or_of_channelArguments areChannels inArguments
      · exact (inColor.trans colorPart).trans argumentsPart
      · exact (inAlpha.trans alphaPart).trans argumentsPart
    · -- What stands behind the parenthesis of the pattern would begin like a channel.
      cases back with
      | nil =>
          obtain ⟨before, whole⟩ := ends
          refine ⟨before, arguments ++ ')' :: rest, ?_⟩
          rw [← List.append_assoc before, whole]
          simp [callText]
      | cons char others =>
          obtain ⟨first, further, rfl⟩ := List.exists_cons_of_ne_nil nonempty
          have isChannel := areChannels List.mem_cons_self
          obtain ⟨initial, letters, rfl⟩ : ∃ initial letters, first = initial :: letters := by
            have allNonempty : ∀ channel ∈ channelFunctions, channel ≠ [] := by decide
            exact List.exists_cons_of_ne_nil (allNonempty first isChannel)
          obtain ⟨rfl, -⟩ := List.cons_prefix_cons.1 begins
          exact (foreign.noStart _ isChannel rfl).elim
  · exact inRest.trans ⟨lead ++ callText name arguments, [], by simp⟩

end IsForeign

theorem isForeign_customProperty : IsForeign "var" "--" :=
  ⟨List.all_iff_forall_prop.1 rfl, by decide, by decide⟩

/-- A grouping pseudo-class ends in its parenthesis. -/
theorem exists_isForeign_of_mem_groupingPseudoClasses
    {pseudoClass : Text}
    (listed : pseudoClass ∈ groupingPseudoClasses) :
    ∃ front, pseudoClass = front ++ ['('] ∧ IsForeign front [] := by
  obtain rfl | rfl | rfl : pseudoClass = ":is(".toList ∨ pseudoClass = ":where(".toList ∨
      pseudoClass = ":has(".toList := by
    simpa [groupingPseudoClasses] using listed
  · exact ⟨":is", rfl, List.all_iff_forall_prop.1 rfl, by decide, by decide⟩
  · exact ⟨":where", rfl, List.all_iff_forall_prop.1 rfl, by decide, by decide⟩
  · exact ⟨":has", rfl, List.all_iff_forall_prop.1 rfl, by decide, by decide⟩

/-- The name of a channel is in lower case. -/
theorem lower_channelArguments
    {names : List Text}
    (areChannels : names ⊆ channelFunctions)
    (color alpha : Text) :
    (channelArguments names color alpha).lower =
      channelArguments names color.lower alpha.lower := by
  have lowerCase : ∀ channel ∈ channelFunctions, Text.lower channel = channel := by decide
  induction names with
  | nil => rfl
  | cons name rest inductionHypothesis =>
      obtain ⟨isChannel, others⟩ := List.cons_subset.1 areChannels
      have further := inductionHypothesis others
      simp only [channelArguments, List.foldr_cons, callText, Text.lower_append, Text.lower_cons,
        lowerCase name isChannel] at further ⊢
      rw [further]
      rfl

/-- A channel form makes no group. -/
theorem holdsGrouping_of_channelForm
    {names : List Text}
    {name arguments color alpha lead rest : Text}
    (nonempty : names ≠ [])
    (areChannels : names ⊆ channelFunctions)
    (colorPart : color <:+: arguments)
    (alphaPart : alpha <:+: arguments)
    (holds : holdsGrouping
      (lead ++ (callText name (channelArguments names color alpha) ++ rest)) = true) :
    holdsGrouping (lead ++ (callText name arguments ++ rest)) = true := by
  obtain ⟨pseudoClass, listed, isInfix⟩ := holdsGrouping_iff.1 holds
  obtain ⟨front, rfl, foreign⟩ := exists_isForeign_of_mem_groupingPseudoClasses listed
  have lowerCall : ∀ text, Text.lower (callText name text) = callText name.lower text.lower := by
    intro text
    simp [callText, Text.lower]
  refine holdsGrouping_iff.2 ⟨front ++ ['('], listed, ?_⟩
  rw [Text.lower_append, Text.lower_append, lowerCall] at isInfix ⊢
  rw [lower_channelArguments areChannels] at isInfix
  exact foreign.isInfix_callText nonempty areChannels (lower_isInfix colorPart)
    (lower_isInfix alphaPart) isInfix

/-! ## The arguments of a channel form -/

theorem isUnmarked_of_isNameChar
    {char : Char}
    (named : isNameChar char = true) :
    isUnmarked char = true := by
  have noMark : ∀ mark, isNameChar mark = false → char ≠ mark := by
    rintro mark noName rfl
    exact Bool.false_ne_true (noName.symm.trans named)
  exact isUnmarked_iff.2 ⟨noMark ';' rfl, noMark '{' rfl, noMark '}' rfl⟩

/-- The text of a call ends no statement if its arguments do not. -/
theorem isUnmarked_callText
    {name arguments : Text}
    (named : ∀ char ∈ name, isNameChar char = true)
    (unmarked : ∀ char ∈ arguments, isUnmarked char = true) :
    ∀ char ∈ callText name arguments, isUnmarked char = true := by
  rw [callText, List.forall_mem_append, List.forall_mem_cons, List.forall_mem_append,
    List.forall_mem_singleton]
  exact ⟨fun char member => isUnmarked_of_isNameChar (named char member), rfl, unmarked, rfl⟩

theorem isUnmarked_channelArguments
    {names : List Text}
    {color alpha : Text}
    (named : ∀ name ∈ names, ∀ char ∈ name, isNameChar char = true)
    (colorUnmarked : ∀ char ∈ color, isUnmarked char = true)
    (alphaUnmarked : ∀ char ∈ alpha, isUnmarked char = true) :
    ∀ char ∈ channelArguments names color alpha, isUnmarked char = true := by
  induction names with
  | nil => exact alphaUnmarked
  | cons name rest inductionHypothesis =>
      obtain ⟨here, others⟩ := List.forall_mem_cons.1 named
      have further := inductionHypothesis others
      rw [channelArguments, List.foldr_cons, ← channelArguments, List.forall_mem_append,
        List.forall_mem_append]
      exact ⟨isUnmarked_callText here colorUnmarked, List.all_iff_forall_prop.1 rfl, further⟩

/-- The channels of a colour and its alpha value hold the characters of both. -/
theorem subset_channelArguments
    {names : List Text}
    (nonempty : names ≠ [])
    (color alpha : Text) :
    color ⊆ channelArguments names color alpha ∧ alpha ⊆ channelArguments names color alpha := by
  have alphaInside : ∀ names : List Text, alpha ⊆ channelArguments names color alpha := by
    intro names
    induction names with
    | nil => exact List.Subset.refl _
    | cons name rest inductionHypothesis =>
        exact fun char member => List.mem_append_right _
          (List.mem_append_right _ (inductionHypothesis member))
  obtain ⟨name, rest, rfl⟩ := List.exists_cons_of_ne_nil nonempty
  refine ⟨fun char member => List.mem_append_left _ ?_, alphaInside _⟩
  simp [callText, member]

/-- The cells of a call end no statement if its arguments do not. -/
theorem isStretch_callCells
    {name : Text}
    {arguments : List Cell}
    (named : ∀ char ∈ name, isNameChar char = true)
    (unmarked : ∀ char ∈ chars arguments, isUnmarked char = true) :
    IsStretch (callCells name arguments) := by
  refine isStretch_of_isUnmarked (by simp [callCells]) ?_ ?_
  · rw [chars_callCells]
    exact isUnmarked_callText named unmarked
  · rw [callCells, ← List.cons_append, ← List.append_assoc, List.getLast?_concat]
    rfl

namespace AlphaParts

variable {arguments color alpha : Text}

theorem arguments_eq (parts : AlphaParts arguments color alpha) :
    arguments = (parts.colorLead ++ (color ++ parts.colorTail)) ++
      ',' :: (parts.alphaLead ++ (alpha ++ parts.alphaTail)) := by
  have whole := congrArg chars parts.cells_eq
  simpa [Cell.char_of_isCode parts.isComma] using whole

theorem color_isInfix (parts : AlphaParts arguments color alpha) : color <:+: arguments :=
  ⟨parts.colorLead, parts.colorTail ++ ',' :: (parts.alphaLead ++ (alpha ++ parts.alphaTail)),
    by simp [parts.arguments_eq]⟩

theorem alpha_isInfix (parts : AlphaParts arguments color alpha) : alpha <:+: arguments :=
  ⟨(parts.colorLead ++ (color ++ parts.colorTail)) ++ ',' :: parts.alphaLead, parts.alphaTail,
    by simp [parts.arguments_eq]⟩

/-- Only white space and the comma are in none of the two arguments. -/
theorem mem_or_mem
    (parts : AlphaParts arguments color alpha)
    {char : Char}
    (noSpace : isWhiteSpace char = false)
    (noComma : char ≠ ',')
    (member : char ∈ arguments) :
    char ∈ color ∨ char ∈ alpha := by
  have absent : ∀ {spaces : Text}, (∀ char ∈ spaces, isWhiteSpace char = true) →
      char ∉ spaces := by
    intro spaces blank member
    exact Bool.false_ne_true (noSpace.symm.trans (blank char member))
  obtain ⟨colorLead, colorTail⟩ := List.forall_mem_append.1 parts.colorBlank
  obtain ⟨alphaLead, alphaTail⟩ := List.forall_mem_append.1 parts.alphaBlank
  rw [parts.arguments_eq] at member
  simpa [absent colorLead, absent colorTail, absent alphaLead, absent alphaTail, noComma]
    using member

end AlphaParts

/-! ## Colours that the other passes leave -/

/--
A call to a colour function ends no statement in its arguments if it may be
expanded, and it has no literal form if it is a colour over a custom property.
-/
structure IsPlainColor (name arguments : Text) : Prop where
  unmarked : name.isOneOf ["rgba", "hsla"] = true → ∀ char ∈ arguments, isUnmarked char = true
  quoted : name.isOneOf colorFunctions = true → arguments.includes "var(--" = true →
    '"' ∈ arguments ∧ '\'' ∈ arguments

/-- Only colour functions are restricted. -/
theorem isPlainColor_of_isOneOf_eq_false
    {name : Text}
    (noColor : name.isOneOf colorFunctions = false)
    (arguments : Text) :
    IsPlainColor name arguments := by
  have noAlpha : name.isOneOf ["rgba", "hsla"] = false := by
    simp only [colorFunctions, Text.isOneOf, List.any_cons, List.any_nil, Bool.or_eq_false_iff]
      at noColor ⊢
    tauto
  exact ⟨fun isColor => absurd isColor (Bool.eq_false_iff.1 noAlpha),
    fun isColor => absurd isColor (Bool.eq_false_iff.1 noColor)⟩

namespace AlphaParts

variable {arguments color alpha : Text}

theorem isUnmarked
    (parts : AlphaParts arguments color alpha)
    (name : Text)
    (unmarked : ∀ char ∈ arguments, isUnmarked char = true) :
    ∀ char ∈ channelArguments (channels name) color alpha, isUnmarked char = true :=
  isUnmarked_channelArguments (fun channel member => (channels_named name channel member).2.1)
    (fun char member => unmarked char (parts.color_isInfix.subset member))
    (fun char member => unmarked char (parts.alpha_isInfix.subset member))

theorem mem_channelArguments_of_mem
    (parts : AlphaParts arguments color alpha)
    (name : Text)
    {quote : Char}
    (isQuote : quote = '"' ∨ quote = '\'')
    (member : quote ∈ arguments) :
    quote ∈ channelArguments (channels name) color alpha := by
  obtain ⟨colorInside, alphaInside⟩ := subset_channelArguments (channels_ne_nil name) color alpha
  have noSpace : isWhiteSpace quote = false := by
    obtain rfl | rfl := isQuote <;> rfl
  have noComma : quote ≠ ',' := by
    obtain rfl | rfl := isQuote <;> decide
  obtain inColor | inAlpha := parts.mem_or_mem noSpace noComma member
  · exact colorInside inColor
  · exact alphaInside inAlpha

/-- The channel form of a plain colour is plain. -/
theorem isPlainColor
    (parts : AlphaParts arguments color alpha)
    {name : Text}
    (plain : IsPlainColor name arguments) :
    IsPlainColor name (channelArguments (channels name) color alpha) := by
  refine ⟨fun isColor => parts.isUnmarked name (plain.unmarked isColor), fun isColor custom => ?_⟩
  rw [Text.includes_iff_isInfix] at custom
  have wasCustom : arguments.includes "var(--" = true := by
    rw [Text.includes_iff_isInfix]
    obtain inColor | inAlpha :=
      isForeign_customProperty.isInfix_or_of_channelArguments (channels_subset name) custom
    · exact inColor.trans parts.color_isInfix
    · exact inAlpha.trans parts.alpha_isInfix
  obtain ⟨double, single⟩ := plain.quoted isColor wasCustom
  exact ⟨parts.mem_channelArguments_of_mem name (.inl rfl) double,
    parts.mem_channelArguments_of_mem name (.inr rfl) single⟩

/-- A colour stays plain if one in its arguments is written in channel form. -/
theorem isPlainColor_around
    (parts : AlphaParts arguments color alpha)
    {name outer before behind : Text}
    (plain : IsPlainColor outer (before ++ (callText name arguments ++ behind))) :
    IsPlainColor outer
      (before ++ (callText name (channelArguments (channels name) color alpha) ++ behind)) := by
  have around : ∀ {text : Text} {char : Char},
      char ∈ before ++ (callText name text ++ behind) ↔
        char ∈ before ∨ char ∈ name ∨ char = '(' ∨ char ∈ text ∨ char = ')' ∨ char ∈ behind := by
    intro text char
    simp [callText]
  constructor
  · intro isColor char member
    have unmarked := plain.unmarked isColor
    have inside : ∀ char ∈ arguments, Lowering.isUnmarked char = true := fun char member =>
      unmarked char (around.2 (.inr (.inr (.inr (.inl member)))))
    obtain here | here | here | here | here | here := around.1 member
    · exact unmarked char (around.2 (.inl here))
    · exact unmarked char (around.2 (.inr (.inl here)))
    · rw [here]
      rfl
    · exact parts.isUnmarked name inside char here
    · rw [here]
      rfl
    · exact unmarked char (around.2 (.inr (.inr (.inr (.inr (.inr here))))))
  · intro isColor custom
    have wasCustom : (before ++ (callText name arguments ++ behind)).includes "var(--" = true := by
      rw [Text.includes_iff_isInfix] at custom ⊢
      exact isForeign_customProperty.isInfix_callText (channels_ne_nil name) (channels_subset name)
        parts.color_isInfix parts.alpha_isInfix custom
    have stays : ∀ quote, quote = '"' ∨ quote = '\'' →
        quote ∈ before ++ (callText name arguments ++ behind) →
          quote ∈ before ++
            (callText name (channelArguments (channels name) color alpha) ++ behind) := by
      intro quote isQuote member
      rw [around] at member ⊢
      exact member.imp_right (Or.imp_right (Or.imp_right (Or.imp_left
        (parts.mem_channelArguments_of_mem name isQuote))))
    obtain ⟨double, single⟩ := plain.quoted isColor wasCustom
    exact ⟨stays '"' (.inl rfl) double, stays '\'' (.inr rfl) single⟩

end AlphaParts

/-! ## One step -/

namespace IsLastColor

variable {source other : Text} {call : Call} {ahead behind otherCells : List Cell}

/--
What holds of all calls of a text holds of those behind a step, if it holds of
the colour in its new form, of the calls in this form's arguments and of the
calls around it.
-/
theorem forall_mem_calls
    {property : Text → Text → Prop}
    (place : IsLastColor source call ahead behind)
    (reads : ReadsAs other otherCells)
    (all : ∀ inner ∈ calls source, property inner.name inner.arguments)
    (self : property call.name call.arguments → property call.name other)
    (inside : (∀ inner ∈ callsWithin (ahead.length + call.name.length + 1) (some (.ofCode '('))
        (cells call.arguments) (.ofCode ')' :: behind), property inner.name inner.arguments) →
      CallsHave property otherCells)
    (around : ∀ {outer before rest},
      property outer (before ++ (callText call.name call.arguments ++ rest)) →
        property outer (before ++ (callText call.name other ++ rest))) :
    ∀ inner ∈ calls (chars ahead ++ (callText call.name other ++ chars behind)),
      property inner.name inner.arguments := by
  have callReads : ReadsAs call.arguments (cells call.arguments) := ⟨place.closed, rfl⟩
  rw [place.source_eq, place.calls_eq callReads, List.forall_mem_append, List.forall_mem_cons,
    List.forall_mem_append, chars_cells] at all
  obtain ⟨frontAll, callHas, insideAll, behindAll⟩ := all
  rw [place.calls_eq reads, List.forall_mem_append, List.forall_mem_cons, List.forall_mem_append,
    reads.chars_eq]
  refine ⟨?_, self callHas, inside insideAll _ _ _ rfl (endsNames_cons ⟨rfl, rfl⟩ behind), ?_⟩
  · have rewritten := place.rewritten reads
    generalize callsWithin 0 none ahead _ = front at frontAll rewritten
    generalize callsWithin 0 none ahead _ = nextFront at rewritten ⊢
    induction rewritten with
    | nil => exact List.forall_mem_nil _
    | @cons inner next front nextFront here _ inductionHypothesis =>
        obtain ⟨innerHas, others⟩ := List.forall_mem_cons.1 frontAll
        refine List.forall_mem_cons.2 ⟨?_, inductionHypothesis others⟩
        cases here with
        | same => exact innerHas
        | around =>
            simp only [chars_append, chars_callCells, chars_cells, reads.chars_eq] at innerHas ⊢
            exact around innerHas
  · rw [← callsWithin_nil] at behindAll ⊢
    exact Source.forall_mem_callsWithin behindAll _

end IsLastColor

/--
A text whose colours can be expanded without a change for the other passes:
the colours are closed and plain, no line comment is left and the selectors
are simple.
-/
structure IsExpandable (source : Text) : Prop where
  closed : HasClosedColors source
  plain : ∀ call ∈ calls source, IsPlainColor call.name call.arguments
  noLineComment : HasNoLineComment source
  simple : HasSimpleSelectors (cells source)

/-- Expanding the last colour leaves a text that can be expanded further. -/
theorem IsExpandable.of_expandLastAlpha?_eq_some
    {source next : Text}
    (expandable : IsExpandable source)
    (step : expandLastAlpha? source = some next) :
    IsExpandable next := by
  have stillClosed := (expandable.closed.of_expandLastAlpha?_eq_some step).1
  unfold expandLastAlpha? at step
  simp only [Option.bind_eq_bind, Option.bind_eq_some_iff] at step
  obtain ⟨call, last, ⟨color, alpha⟩, isPair, step⟩ := step
  obtain rfl := Option.some.inj step
  obtain ⟨ahead, behind, place⟩ := exists_isLastColor expandable.closed last
  obtain ⟨parts⟩ := AlphaParts.nonempty_of_alphaArguments? place.closed isPair
  have reads := parts.readsAs_channelArguments call.name
  have isAlpha : call ∈ callsTo ["rgba", "hsla"] source :=
    (List.mem_filter.1 (List.mem_of_getLast? last)).1
  obtain ⟨isCall, isColor⟩ := List.mem_filter.1 isAlpha
  have unmarked := (expandable.plain call isCall).unmarked isColor
  rw [channelForm_eq_callText, place.take_append_drop] at stillClosed ⊢
  refine ⟨stillClosed, ?_, ?_, ?_⟩
  · refine place.forall_mem_calls reads expandable.plain parts.isPlainColor (fun insidePlain => ?_)
      parts.isPlainColor_around
    obtain ⟨colorPlain, alphaPlain⟩ := parts.callsHave insidePlain
    refine callsHave_channelCells (fun channel member => ?_) parts.colorClosed.isBalanced
      colorPlain alphaPlain
    obtain ⟨nonempty, nameChars, -⟩ := channels_named call.name channel member
    have noColor : ∀ channel ∈ channelFunctions,
        Text.isOneOf channel colorFunctions = false := by decide
    exact ⟨nonempty, nameChars,
      isPlainColor_of_isOneOf_eq_false (noColor channel (channels_subset _ member))⟩
  · have noComment := expandable.noLineComment
    rw [HasNoLineComment, place.cells_eq, List.forall_mem_append, List.forall_mem_append]
      at noComment
    have named : ∀ cell ∈ call.name.map Cell.ofCode, cell.kind ≠ .lineComment := by
      intro cell member
      obtain ⟨char, -, rfl⟩ := List.mem_map.1 member
      simp [Cell.ofCode]
    have argumentsComment := Mode.kind_ne_lineComment_of_isPlain reads.1.isPlain
    change ∀ cell ∈ cells _, _ at argumentsComment
    rw [reads.2] at argumentsComment
    rw [HasNoLineComment, place.exchange reads, List.forall_mem_append, List.forall_mem_append,
      callCells, List.forall_mem_append, List.forall_mem_cons, List.forall_mem_append,
      List.forall_mem_singleton]
    exact ⟨noComment.1, ⟨named, by decide, argumentsComment, by decide⟩, noComment.2.2⟩
  · have simple := expandable.simple
    rw [place.cells_eq] at simple
    rw [place.exchange reads]
    refine simple.exchange (isStretch_callCells place.named ?_)
      (isStretch_callCells place.named ?_) ?_ fun lead rest holds => ?_
    · rwa [chars_cells]
    · rw [reads.chars_eq]
      exact parts.isUnmarked call.name unmarked
    · rw [chars_callCells]
      exact holdsColor_callText isColor (by decide) _
    · rw [chars_callCells, reads.chars_eq] at holds
      rw [chars_callCells, chars_cells]
      exact holdsGrouping_of_channelForm (channels_ne_nil _) (channels_subset _) parts.color_isInfix
        parts.alpha_isInfix holds

/-- The expansion ends, and in its result no colour is left to expand. -/
theorem IsExpandable.exists_expandColorAlpha?_eq_some
    {source : Text}
    (expandable : IsExpandable source) :
    ∃ expanded, expandColorAlpha? source = some expanded ∧ IsExpandable expanded ∧
      HasNoAlphaColor expanded := by
  induction count : (alphaCalls source).length using Nat.strong_induction_on
    generalizing source with
  | _ count inductionHypothesis =>
  subst count
  cases step : expandLastAlpha? source with
  | none =>
      exact ⟨source, expandColorAlpha?_of_expandLastAlpha?_eq_none step, expandable,
        (expandLastAlpha?_eq_none_iff source).1 step⟩
  | some next =>
      have fewer := (expandable.closed.of_expandLastAlpha?_eq_some step).2
      obtain ⟨expanded, expands, facts⟩ :=
        inductionHypothesis _ (by omega) (expandable.of_expandLastAlpha?_eq_some step) rfl
      exact ⟨expanded, (expandColorAlpha?_of_expandLastAlpha?_eq_some step).trans expands, facts⟩

end Lowering
end LessTheme
