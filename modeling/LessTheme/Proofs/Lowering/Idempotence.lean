import LessTheme.Proofs.Lowering.Kept
import LessTheme.Proofs.Lowering.LineComment
import LessTheme.Proofs.Lowering.PlainLines

/-!
# Lowering a lowered stylesheet

The passes behind the first one can only add ink, so lowering gives a text
back unchanged exactly if no pass finds anything to rewrite in it.  A lowered
stylesheet is such a text where every pass leaves what the ones before it have
reached: the texts between the passes are followed from the first to the last,
and each pass keeps that no line comment, no complex selector and no colour is
left.

That is not always so, because the passes change how the text between their
replacements is read: a literal string ends at the line end, so a colour that
is written over two lines leaves a parenthesis of code less around its second
line, and two slashes there begin a line comment that was none before.
-/

namespace LessTheme
namespace Lowering

open Source

/-! ## Texts that are given back -/

/-- Lowering gives a text with plain lines back exactly if it is lowered. -/
theorem lower?_eq_some_self_iff
    {text : Text}
    (plain : HasPlainLines text) :
    lower? text = some ⟨text, []⟩ ↔ IsLowered text := by
  constructor
  · intro fixed
    unfold lower? at fixed
    rw [plainLines_eq_self plain] at fixed
    obtain ⟨expanded, expands, result⟩ := Option.map_eq_some_iff.1 fixed
    have noRules : (cutAtRules expanded).atRules = [] := by rw [result]
    have expandedEq : expanded = text := by
      rw [← source_cutAtRules_eq_self noRules, result]
    rw [expandedEq] at expands noRules
    -- The ink of the text bounds that of every result between, so no pass adds any.
    have commentInk := addsInkUnless_blockComments.ink_le text
    have selectorInk := addsInkUnless_bindComplexSelectors.ink_le (blockComments text)
    have colorInk :=
      addsInkUnless_literalCustomColors.ink_le (bindComplexSelectors (blockComments text))
    have alphaInk : Text.ink (literalCustomColors (bindComplexSelectors (blockComments text))) ≤
        Text.ink text := by
      obtain ⟨-, same⟩ | grown := eq_or_ink_lt_of_expandColorAlpha?_eq_some expands
      · exact Nat.le_of_eq (congrArg Text.ink same.symm)
      · exact Nat.le_of_lt grown
    have noLineComment : HasNoLineComment text :=
      addsInkUnless_blockComments.isIdle_of_ink_le (by omega)
    rw [addsInkUnless_blockComments.eq_self text noLineComment] at *
    have noComplexSelector : HasNoComplexSelector text :=
      addsInkUnless_bindComplexSelectors.isIdle_of_ink_le (by omega)
    rw [addsInkUnless_bindComplexSelectors.eq_self text noComplexSelector] at *
    have noCustomColor : HasNoCustomColor text :=
      addsInkUnless_literalCustomColors.isIdle_of_ink_le (by omega)
    rw [addsInkUnless_literalCustomColors.eq_self text noCustomColor] at *
    have noAlphaColor : HasNoAlphaColor text := by
      obtain ⟨idle, -⟩ | grown := eq_or_ink_lt_of_expandColorAlpha?_eq_some expands
      · exact idle
      · exact absurd grown (Nat.lt_irrefl _)
    exact ⟨noLineComment, noComplexSelector, noCustomColor, noAlphaColor,
      (atRules_cutAtRules_eq_nil_iff text).1 noRules⟩
  · intro isLowered
    have noRules := (atRules_cutAtRules_eq_nil_iff text).2 isLowered.noForeignAtRule
    unfold lower?
    rw [plainLines_eq_self plain,
      addsInkUnless_blockComments.eq_self text isLowered.noLineComment,
      addsInkUnless_bindComplexSelectors.eq_self text isLowered.noComplexSelector,
      addsInkUnless_literalCustomColors.eq_self text isLowered.noCustomColor,
      expandColorAlpha?_eq_self isLowered.noAlphaColor, Option.map_some]
    exact congrArg some (congrArg₂ Lowered.mk (source_cutAtRules_eq_self noRules) noRules)

/-! ## Texts between the passes -/

/-- The source on plain lines, without line comments. -/
def afterComments (source : Text) : Text := blockComments (plainLines source)

/-- The same with complex selectors bound to variables. -/
def afterSelectors (source : Text) : Text := bindComplexSelectors (afterComments source)

/-- The same with colours over custom properties in literal strings. -/
def afterCustomColors (source : Text) : Text := literalCustomColors (afterSelectors source)

/-- The same with the colours with an alpha value expanded; only cutting at-rules out is left. -/
def afterAlphaColors (source : Text) : Text := expandColorAlpha (afterCustomColors source)

/-- Colours over custom properties can be put into literal strings apart from their statements. -/
@[mk_iff]
structure LiteralsStandApart (source : Text) : Prop where
  /-- Literal strings end where their colours do. -/
  keepsReading : keepsReading 0 (customColorPatch source) (cells source) = true
  /-- No statement ends in a colour. -/
  unmarked : ∀ color ∈ (customColorPatch source).replaced, color.all isUnmarked = true
  /-- No statement that opens a block holds both a group of selectors and a colour. -/
  unmixed :
    ∀ statement ∈ statements (markInterpolations false (cells source)),
      statement.isMixed = false

instance (source : Text) : Decidable (LiteralsStandApart source) :=
  decidable_of_iff' _ (literalsStandApart_iff source)

/-- Colours with an alpha value can be expanded apart from their statements. -/
@[mk_iff]
structure ColorsStandApart (source : Text) : Prop where
  /-- Colours close what they open. -/
  closed : HasClosedColors source
  /-- No statement ends in a colour. -/
  unmarked : ∀ call ∈ callsTo ["rgba", "hsla"] source, call.arguments.all isUnmarked = true

instance (source : Text) : Decidable (ColorsStandApart source) :=
  decidable_of_iff' _ (colorsStandApart_iff source)

/-- At-rules can be cut out as statements of their own. -/
@[mk_iff]
structure CutsStandApart (source : Text) : Prop where
  /-- No slashes come together at a cut, or are read differently behind one. -/
  keepsSlashes : keepsSlashes 0 0 (atRulePatch source) (cells source) = true
  /-- At-rules end where a statement ends. -/
  cutsStatements :
    cutsStatements (atRulePatch source) (markInterpolations false (cells source)) = true
  /-- No parenthesis is open in front of an at-rule. -/
  cutsOutsideParentheses : cutsOutsideParentheses 0 (atRulePatch source) (cells source) = true

instance (source : Text) : Decidable (CutsStandApart source) :=
  decidable_of_iff' _ (cutsStandApart_iff source)

/-- No pass changes how another one reads the text around its replacements. -/
structure PassesStandApart (source : Text) : Prop where
  /-- No open interpolation stands in front of a selector that is bound. -/
  keepsOpen :
    (statements (markInterpolations false (cells (afterComments source)))).Pairwise KeepsOpen
  literals : LiteralsStandApart (afterSelectors source)
  colors : ColorsStandApart (afterCustomColors source)
  cuts : CutsStandApart (afterAlphaColors source)

/-! ## Colours in literal strings -/

theorem hasNoLineComment_literalCustomColors
    {source : Text}
    (keeps : keepsReading 0 (customColorPatch source) (cells source) = true)
    (noLineComment : HasNoLineComment source) :
    HasNoLineComment (literalCustomColors source) := by
  rw [HasNoLineComment, cells_literalCustomColors_eq_literalCells keeps]
  exact (rewrites_customColorPatch source).kind_ne_lineComment noLineComment

theorem hasSimpleSelectors_literalCustomColors
    {source : Text}
    (apart : LiteralsStandApart source)
    (noComplexSelector : HasNoComplexSelector source) :
    HasSimpleSelectors (cells (literalCustomColors source)) := by
  rw [cells_literalCustomColors_eq_literalCells apart.keepsReading]
  refine (rewrites_customColorPatch source).hasSimpleSelectors (fun color replaced => ?_) []
    fun statement member => ?_
  · exact List.all_eq_true.1 (apart.unmarked color replaced)
  · exact ⟨noComplexSelector statement member, apart.unmixed statement member⟩

/-- A quote in the text of a call to a colour function is one in its arguments. -/
theorem mem_arguments_of_mem_text
    {call : Call}
    {quote : Char}
    (isColor : call.isNamed colorFunctions = true)
    (isQuote : quote = '"' ∨ quote = '\'')
    (member : quote ∈ call.text) :
    quote ∈ call.arguments := by
  have noName : quote ∉ call.name := by
    intro inName
    obtain ⟨function, listed, same⟩ := List.any_eq_true.1 isColor
    rw [Text.equalsIgnoringCase, beq_iff_eq] at same
    have inFunction : quote.toLower ∈ Text.lower function :=
      same ▸ List.mem_map_of_mem inName
    have noFunction : ∀ function ∈ colorFunctions, quote.toLower ∉ Text.lower function := by
      obtain rfl | rfl := isQuote <;> decide
    exact noFunction function listed inFunction
  have noParenthesis : quote ≠ '(' ∧ quote ≠ ')' := by
    obtain rfl | rfl := isQuote <;> decide
  simpa [Call.text, noName, noParenthesis] using member

/-- A colour that has no literal form, and ends no statement if it may be expanded, is plain. -/
theorem isPlainColor_of_literal?_eq_none
    {call : Call}
    (unmarked : call.isNamed ["rgba", "hsla"] = true →
      ∀ char ∈ call.arguments, isUnmarked char = true)
    (noLiteral : isCustomColor call = true → call.text.literal? = none) :
    IsPlainColor call.name call.arguments := by
  refine ⟨unmarked, fun isColor custom => ?_⟩
  have quoted := noLiteral (Bool.and_eq_true_iff.2 ⟨isColor, custom⟩)
  rw [Text.literal?_eq_none_iff] at quoted
  exact ⟨mem_arguments_of_mem_text isColor (.inl rfl) quoted.1,
    mem_arguments_of_mem_text isColor (.inr rfl) quoted.2⟩

/-- A plain colour has no literal form. -/
theorem IsPlainColor.literal?_eq_none
    {call : Call}
    (plain : IsPlainColor call.name call.arguments)
    (isColor : isCustomColor call = true) :
    call.text.literal? = none := by
  obtain ⟨isNamed, custom⟩ := Bool.and_eq_true_iff.1 isColor
  obtain ⟨double, single⟩ := plain.quoted isNamed custom
  rw [Text.literal?_eq_none_iff]
  simp [Call.text, double, single]

/-- Where colours stand apart, making the custom ones literal leaves all others to be expanded. -/
theorem isExpandable_literalCustomColors
    {source : Text}
    (literals : LiteralsStandApart source)
    (colors : ColorsStandApart (literalCustomColors source))
    (noLineComment : HasNoLineComment source)
    (noComplexSelector : HasNoComplexSelector source) :
    IsExpandable (literalCustomColors source) where
  closed := colors.closed
  plain := by
    intro call member
    refine isPlainColor_of_literal?_eq_none (fun isColor => ?_)
      (hasNoCustomColor_literalCustomColors literals.keepsReading call member)
    exact List.all_eq_true.1 (colors.unmarked call (List.mem_filter.2 ⟨member, isColor⟩))
  noLineComment := hasNoLineComment_literalCustomColors literals.keepsReading noLineComment
  simple := hasSimpleSelectors_literalCustomColors literals noComplexSelector

/-! ## The last pass -/

/-- Cutting at-rules out of a text without anything else to rewrite leaves nothing to rewrite. -/
theorem isLowered_source_cutAtRules
    {source : Text}
    (expandable : IsExpandable source)
    (noAlphaColor : HasNoAlphaColor source)
    (apart : CutsStandApart source) :
    IsLowered (cutAtRules source).source where
  noLineComment := by
    rw [HasNoLineComment, cells_source_cutAtRules apart.keepsSlashes]
    exact (cuts_atRulePatch source).kind_ne_lineComment expandable.noLineComment
  noComplexSelector := by
    rw [HasNoComplexSelector, cells_source_cutAtRules apart.keepsSlashes]
    exact (cuts_atRulePatch source).binding?_eq_none (bracesStandAsCode_cells _ _)
      (absurd · Bool.false_ne_true) apart.cutsStatements [] fun statement member =>
        (expandable.simple statement member).1
  noCustomColor := by
    intro call member isColor
    rw [calls, cells_source_cutAtRules apart.keepsSlashes] at member
    obtain ⟨original, isOriginal, sameName, sameArguments⟩ :=
      (cuts_atRulePatch source).exists_call apart.cutsOutsideParentheses rfl member 0
    have plain := expandable.plain original isOriginal
    rw [sameName, sameArguments] at plain
    exact plain.literal?_eq_none isColor
  noAlphaColor := by
    intro call member
    obtain ⟨isCall, isColor⟩ := List.mem_filter.1 member
    rw [calls, cells_source_cutAtRules apart.keepsSlashes] at isCall
    obtain ⟨original, isOriginal, sameName, sameArguments⟩ :=
      (cuts_atRulePatch source).exists_call apart.cutsOutsideParentheses rfl isCall 0
    rw [Call.isNamed, ← sameName] at isColor
    have settled := noAlphaColor original (List.mem_filter.2 ⟨isOriginal, isColor⟩)
    rwa [alphaArguments?, sameArguments] at settled
  noForeignAtRule := hasNoForeignAtRule_source_cutAtRules apart.keepsSlashes

/-! ## Lowering twice -/

/--
Where no pass changes how another one reads the text, a stylesheet can be
lowered, and lowering the result gives the same stylesheet and no at-rules.
-/
theorem exists_lower?_eq_some_and_lower?_source_eq_self
    {source : Text}
    (apart : PassesStandApart source) :
    ∃ lowered, lower? source = some lowered ∧
      lower? lowered.source = some ⟨lowered.source, []⟩ := by
  have noLineComment : HasNoLineComment (afterSelectors source) :=
    hasNoLineComment_bindComplexSelectors (hasNoLineComment_blockComments _)
  have noComplexSelector : HasNoComplexSelector (afterSelectors source) :=
    hasNoComplexSelector_bindComplexSelectors apart.keepsOpen
  have startsExpandable : IsExpandable (afterCustomColors source) :=
    isExpandable_literalCustomColors apart.literals apart.colors noLineComment noComplexSelector
  obtain ⟨expanded, expands, expandable, noAlphaColor⟩ :=
    startsExpandable.exists_expandColorAlpha?_eq_some
  have cuts : CutsStandApart expanded := by
    have isExpanded : afterAlphaColors source = expanded := by
      rw [afterAlphaColors, expandColorAlpha, expands, Option.getD_some]
    exact isExpanded ▸ apart.cuts
  have lowers : lower? source = some (cutAtRules expanded) := by
    change (expandColorAlpha? (afterCustomColors source)).map cutAtRules = _
    rw [expands, Option.map_some]
  refine ⟨cutAtRules expanded, lowers, ?_⟩
  rw [lower?_eq_some_self_iff (HasPlainLines.source_of_lower?_eq_some lowers)]
  exact isLowered_source_cutAtRules expandable noAlphaColor cuts

/-- A line comment, a selector and colours of both kinds are rewritten in front of an at-rule. -/
theorem expandColorAlpha?_afterCustomColors_sample :
    expandColorAlpha? (afterCustomColors
        "//a\n:is(b,c:is(d))\x7be:rgb(var(--f))rgba(g,1)\x7d@layer h;") =
      some ("/*a */\n@tw-selector-1: ~\":is(b,c:is(d))\";\n@\x7btw-selector-1\x7d \x7be:~\"rgb(var(--f))\"rgba(red(g), green(g), blue(g), 1)\x7d@layer h;" : Text) := by
  have step : expandLastAlpha? (afterCustomColors
        "//a\n:is(b,c:is(d))\x7be:rgb(var(--f))rgba(g,1)\x7d@layer h;") =
      some ("/*a */\n@tw-selector-1: ~\":is(b,c:is(d))\";\n@\x7btw-selector-1\x7d \x7be:~\"rgb(var(--f))\"rgba(red(g), green(g), blue(g), 1)\x7d@layer h;" : Text) := by
    decide +kernel
  rw [expandColorAlpha?_of_expandLastAlpha?_eq_some step,
    expandColorAlpha?_of_expandLastAlpha?_eq_none (by decide +kernel)]

/-- A text that every pass rewrites is lowered in one run. -/
theorem exists_lower?_eq_some_and_lower?_source_eq_self_sample :
    PassesStandApart
        "//a\n:is(b,c:is(d))\x7be:rgb(var(--f))rgba(g,1)\x7d@layer h;" ∧
      ∃ lowered,
        lower? "//a\n:is(b,c:is(d))\x7be:rgb(var(--f))rgba(g,1)\x7d@layer h;" = some lowered ∧
          lowered.atRules = ["@layer h;"] ∧
          lower? lowered.source = some ⟨lowered.source, []⟩ := by
  have expands := expandColorAlpha?_afterCustomColors_sample
  have cuts : CutsStandApart (afterAlphaColors
      "//a\n:is(b,c:is(d))\x7be:rgb(var(--f))rgba(g,1)\x7d@layer h;") := by
    rw [afterAlphaColors, expandColorAlpha, expands]
    decide +kernel
  have apart : PassesStandApart
      "//a\n:is(b,c:is(d))\x7be:rgb(var(--f))rgba(g,1)\x7d@layer h;" :=
    ⟨by decide +kernel, by decide +kernel, by decide +kernel, cuts⟩
  obtain ⟨lowered, lowers, again⟩ := exists_lower?_eq_some_and_lower?_source_eq_self apart
  refine ⟨apart, lowered, lowers, ?_, again⟩
  change (expandColorAlpha? (afterCustomColors _)).map cutAtRules = _ at lowers
  rw [expands, Option.map_some] at lowers
  rw [← Option.some.inj lowers]
  decide +kernel

/-- Without colours to expand, lowering ends in cutting at-rules out. -/
theorem lower?_of_hasNoAlphaColor
    {source : Text}
    (idle : HasNoAlphaColor (afterCustomColors source)) :
    lower? source = some (cutAtRules (afterCustomColors source)) := by
  change (expandColorAlpha? (afterCustomColors source)).map cutAtRules = _
  rw [expandColorAlpha?_eq_self idle, Option.map_some]

/-- The literal form of a colour over two lines turns two slashes of code into a line comment. -/
theorem lower?_source_ne_some_self_color_over_two_lines :
    ∃ lowered, lower? "a\x7bb:rgb(var(--c)\n//d\n)\x7d" = some lowered ∧
      lower? lowered.source ≠ some ⟨lowered.source, []⟩ := by
  refine ⟨⟨"a\x7bb:~\"rgb(var(--c)\n//d\n)\"\x7d", []⟩, ?_, ?_⟩
  · rw [lower?_of_hasNoAlphaColor (by decide)]
    decide
  · intro fixed
    have isLowered := (lower?_eq_some_self_iff (by decide)).1 fixed
    have noLineComment := isLowered.noLineComment
    revert noLineComment
    decide

end Lowering
end LessTheme
