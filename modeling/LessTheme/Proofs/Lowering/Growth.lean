import Mathlib.Data.List.Induction
import Mathlib.Tactic.ByContra
import LessTheme.Lowering.Pipeline
import LessTheme.Proofs.Source.Patch
import LessTheme.Proofs.Source.Segment
import LessTheme.Proofs.Source.Split

/-!
# Lowered stylesheets and the growth of their texts

What it is for a stylesheet to be lowered, and why no pass can undo what another
one did.
-/

namespace LessTheme
namespace Lowering

open Source

/-- A text without byte-order marks and carriage returns. -/
def HasPlainLines (text : Text) : Prop :=
  ∀ char ∈ text, char ≠ '\ufeff' ∧ char ≠ '\r'

/-- No character belongs to a line comment. -/
def HasNoLineComment (text : Text) : Prop :=
  ∀ cell ∈ cells text, cell.kind ≠ .lineComment

instance (text : Text) : Decidable (HasNoLineComment text) :=
  inferInstanceAs (Decidable (∀ cell ∈ cells text, cell.kind ≠ .lineComment))

/-- No statement opens a block with a complex selector that has a literal form. -/
def HasNoComplexSelector (text : Text) : Prop :=
  ∀ statement ∈ statements (markInterpolations false (cells text)),
    statement.binding? = none

/-- No call is a colour over a custom property that has a literal form. -/
def HasNoCustomColor (text : Text) : Prop :=
  ∀ call ∈ calls text, isCustomColor call = true → call.text.literal? = none

/-- No call is a colour with an alpha value. -/
def HasNoAlphaColor (text : Text) : Prop :=
  ∀ call ∈ callsTo ["rgba", "hsla"] text, alphaArguments? call = none

instance (text : Text) : Decidable (HasNoAlphaColor text) :=
  inferInstanceAs
    (Decidable (∀ call ∈ callsTo ["rgba", "hsla"] text, alphaArguments? call = none))

/-- No foreign at-rule that has an end begins outside all blocks. -/
def HasNoForeignAtRule (text : Text) : Prop :=
  ∀ front rule, cells text = front ++ rule → front.foldl blockDepth 0 = 0 →
    startsForeignAtRule rule = true → atRule? rule = none

/-- Nothing that a pass rewrites is left in a text. -/
structure IsLowered (text : Text) : Prop where
  noLineComment : HasNoLineComment text
  noComplexSelector : HasNoComplexSelector text
  noCustomColor : HasNoCustomColor text
  noAlphaColor : HasNoAlphaColor text
  noForeignAtRule : HasNoForeignAtRule text

end Lowering

/-!
## Passes add ink

Every pass behind the first leaves a text as it is if the text holds none of
the constructs that the pass rewrites, and adds ink to it otherwise.  So no
pass can undo what another one did: a text that all of them together give back
unchanged holds none of the constructs.
-/

namespace Lowering

open Source

/-- A pass leaves the given texts as they are and adds ink to all others. -/
structure AddsInkUnless (isIdle : Text → Prop) (pass : Text → Text) : Prop where
  eq_self : ∀ text, isIdle text → pass text = text
  ink_lt : ∀ text, ¬isIdle text → Text.ink text < Text.ink (pass text)

namespace AddsInkUnless

variable {isIdle : Text → Prop} {pass : Text → Text}

theorem ink_le
    (adds : AddsInkUnless isIdle pass)
    (text : Text) :
    Text.ink text ≤ Text.ink (pass text) := by
  by_cases idle : isIdle text
  · exact Nat.le_of_eq (congrArg Text.ink (adds.eq_self text idle).symm)
  · exact Nat.le_of_lt (adds.ink_lt text idle)

theorem isIdle_of_ink_le
    (adds : AddsInkUnless isIdle pass)
    {text : Text}
    (bound : Text.ink (pass text) ≤ Text.ink text) :
    isIdle text := by
  by_contra busy
  exact absurd (adds.ink_lt text busy) (Nat.not_lt.2 bound)

/-- A pass that patches a text behaves so if all its replacements add ink. -/
theorem of_patch
    {patch : Text → Patch}
    (before_patch : ∀ text, (patch text).before = text)
    (addsInk : ∀ text, (patch text).AddsInk)
    (replaced_eq_nil_iff : ∀ text, (patch text).replaced = [] ↔ isIdle text) :
    AddsInkUnless isIdle fun text => (patch text).after where
  eq_self := by
    intro text idle
    rw [Patch.after_eq_before ((replaced_eq_nil_iff text).2 idle), before_patch]
  ink_lt := by
    intro text busy
    by_contra bound
    apply busy
    apply (replaced_eq_nil_iff text).1
    apply (addsInk text).replaced_eq_nil
    rw [before_patch]
    exact Nat.not_lt.1 bound

end AddsInkUnless

/-! ## Line comments -/

theorem ink_le_ink_breakCommentEnds
    (text : Text) :
    Text.ink text ≤ Text.ink (breakCommentEnds text) := by
  fun_induction breakCommentEnds text with
  | case1 => exact Nat.le_refl _
  | case2 rest inductionHypothesis =>
      simp only [Text.ink_cons]
      omega
  | case3 char rest _ inductionHypothesis =>
      simp only [Text.ink_cons]
      omega

theorem ink_lt_ink_blockForm
    (comment : Text) :
    Text.ink comment < Text.ink (blockForm comment) := by
  have body := ink_le_ink_breakCommentEnds (comment.drop 2)
  have front : Text.ink (comment.take 2) ≤ 2 :=
    Nat.le_trans List.countP_le_length (List.length_take_le 2 comment)
  have whole : Text.ink comment =
      Text.ink (comment.take 2) + Text.ink (comment.drop 2) := by
    rw [← Text.ink_append, List.take_append_drop]
  have marks : Text.ink (blockForm comment) =
      Text.ink (breakCommentEnds (comment.drop 2)) + 4 := by
    simp [blockForm, isWhiteSpace]
  omega

/-- Rewriting segments keeps them, or one of them is a line comment and ink is added. -/
theorem flatMap_withoutLineComment
    (segments : List Segment) :
    (∀ segment ∈ segments, segment.kind ≠ .lineComment) ∧
        segments.flatMap withoutLineComment = segments.flatMap Segment.text ∨
      (∃ segment ∈ segments, segment.kind = .lineComment) ∧
        Text.ink (segments.flatMap Segment.text) <
          Text.ink (segments.flatMap withoutLineComment) := by
  induction segments with
  | nil => simp
  | cons segment rest inductionHypothesis =>
      have restBound : Text.ink (rest.flatMap Segment.text) ≤
          Text.ink (rest.flatMap withoutLineComment) := by
        obtain ⟨-, same⟩ | ⟨-, grown⟩ := inductionHypothesis
        · exact Nat.le_of_eq (congrArg Text.ink same.symm)
        · exact Nat.le_of_lt grown
      simp only [List.flatMap_cons, Text.ink_append]
      by_cases isComment : segment.kind = .lineComment
      · right
        refine ⟨⟨segment, List.mem_cons_self, isComment⟩, ?_⟩
        have here : Text.ink segment.text < Text.ink (withoutLineComment segment) := by
          rw [withoutLineComment, if_pos isComment]
          exact ink_lt_ink_blockForm segment.text
        omega
      · have here : withoutLineComment segment = segment.text := if_neg isComment
        obtain ⟨none, same⟩ | ⟨⟨found, member, kind⟩, grown⟩ := inductionHypothesis
        · left
          exact ⟨by simpa [isComment] using none, by rw [here, same]⟩
        · right
          refine ⟨⟨found, List.mem_cons_of_mem _ member, kind⟩, ?_⟩
          rw [here]
          omega

theorem hasNoLineComment_iff
    (text : Text) :
    HasNoLineComment text ↔ ∀ segment ∈ segments text, segment.kind ≠ .lineComment := by
  have classes : (∃ segment ∈ segments text, segment.kind = .lineComment) ↔
      ∃ cell ∈ cells text, cell.kind = .lineComment := exists_segment_kind_iff
  constructor
  · intro none segment member isComment
    obtain ⟨cell, present, kind⟩ := classes.1 ⟨segment, member, isComment⟩
    exact none cell present kind
  · intro none cell member isComment
    obtain ⟨segment, present, kind⟩ := classes.2 ⟨cell, member, isComment⟩
    exact none segment present kind

theorem addsInkUnless_blockComments :
    AddsInkUnless HasNoLineComment blockComments where
  eq_self := by
    intro text idle
    rw [hasNoLineComment_iff] at idle
    obtain ⟨-, same⟩ | ⟨⟨segment, member, isComment⟩, -⟩ :=
      flatMap_withoutLineComment (segments text)
    · rw [blockComments, same, flatMap_text_segments]
    · exact absurd isComment (idle segment member)
  ink_lt := by
    intro text busy
    rw [hasNoLineComment_iff] at busy
    obtain ⟨none, -⟩ | ⟨-, grown⟩ := flatMap_withoutLineComment (segments text)
    · exact absurd none busy
    · rwa [flatMap_text_segments] at grown

/-! ## Selectors -/

/-- The texts of a statement and of the cell that ends it, in order. -/
def Statement.text (statement : Statement) : Text :=
  statement.keptBody ++ statement.stopText

theorem flatMap_text_extendFirst
    (cell : Cell)
    (statements : List Statement) :
    (extendFirst cell statements).flatMap Statement.text =
      cell.char :: statements.flatMap Statement.text := by
  cases statements with
  | nil => rfl
  | cons statement rest => rfl

/-- The statements of some cells hold their characters in order. -/
theorem flatMap_text_statements
    (marked : List (Cell × Bool)) :
    (statements marked).flatMap Statement.text = chars (marked.map Prod.fst) := by
  induction marked with
  | nil => rfl
  | cons first rest inductionHypothesis =>
      unfold statements
      split
      · rw [List.flatMap_cons, inductionHypothesis]
        rfl
      · rw [flatMap_text_extendFirst, inductionHypothesis]
        rfl

@[simp] theorem map_fst_markInterpolations
    (inside : Bool)
    (cells : List Cell) :
    (markInterpolations inside cells).map Prod.fst = cells := by
  induction cells generalizing inside with
  | nil => cases inside <;> rfl
  | cons cell rest inductionHypothesis =>
      cases inside <;> simp [markInterpolations, inductionHypothesis]

theorem Statement.keptBody_eq_lead_append_selector
    (statement : Statement) :
    statement.keptBody = chars statement.lead ++ chars statement.selector := by
  rw [keptBody, lead, selector, ← chars_append, List.takeWhile_append_dropWhile]

theorem before_selectorPatch
    (number : UInt64)
    (statements : List Statement) :
    (selectorPatch number statements).before = statements.flatMap Statement.text := by
  induction statements generalizing number with
  | nil => rfl
  | cons statement rest inductionHypothesis =>
      unfold selectorPatch
      cases statement.binding? with
      | none =>
          change (statement.keptBody ++ statement.stopText) ++
            (selectorPatch number rest).before = _
          rw [inductionHypothesis]
          rfl
      | some literal =>
          change chars statement.lead ++ (chars statement.selector ++ (statement.stopText ++
            (selectorPatch (number + 1) rest).before)) = _
          rw [inductionHypothesis, List.flatMap_cons, Statement.text,
            Statement.keptBody_eq_lead_append_selector]
          simp only [List.append_assoc]

theorem before_complexSelectorPatch
    (text : Text) :
    (complexSelectorPatch text).before = text := by
  rw [complexSelectorPatch, before_selectorPatch, flatMap_text_statements,
    map_fst_markInterpolations, chars_cells]

/-- Every replacement binds the selector of a statement. -/
theorem exists_binding_of_mem_selectorPatch
    {number : UInt64}
    {statements : List Statement}
    {old new : Text}
    (member : Piece.replace old new ∈ selectorPatch number statements) :
    ∃ statement ∈ statements, ∃ literal bound, statement.binding? = some literal ∧
      old = chars statement.selector ∧ new = boundSelector bound literal := by
  induction statements generalizing number with
  | nil => simp [selectorPatch] at member
  | cons statement rest inductionHypothesis =>
      have later : ∀ {number}, Piece.replace old new ∈ selectorPatch number rest →
          ∃ found ∈ statement :: rest, ∃ literal bound, found.binding? = some literal ∧
            old = chars found.selector ∧ new = boundSelector bound literal := by
        intro number tailMember
        obtain ⟨found, present, facts⟩ := inductionHypothesis tailMember
        exact ⟨found, List.mem_cons_of_mem _ present, facts⟩
      unfold selectorPatch at member
      cases written : statement.binding? with
      | none =>
          rw [written] at member
          exact later (by simpa using member)
      | some literal =>
          rw [written] at member
          simp only [List.mem_cons, reduceCtorEq, false_or, Piece.replace.injEq] at member
          obtain ⟨rfl, rfl⟩ | tailMember := member
          · exact ⟨statement, List.mem_cons_self, literal, number, written, rfl, rfl⟩
          · exact later tailMember

theorem replaced_selectorPatch_eq_nil_iff
    {number : UInt64}
    {statements : List Statement} :
    (selectorPatch number statements).replaced = [] ↔
      ∀ statement ∈ statements, statement.binding? = none := by
  induction statements generalizing number with
  | nil => simp [selectorPatch, Patch.replaced]
  | cons statement rest inductionHypothesis =>
      unfold selectorPatch
      cases written : statement.binding? with
      | none =>
          change (selectorPatch number rest).replaced = [] ↔ _
          rw [inductionHypothesis]
          simp [written]
      | some literal => simp [Patch.replaced, written]

/-- The literal of a selector has its ink and that of a tilde and two quotes. -/
theorem Statement.ink_of_binding?_eq_some
    {statement : Statement}
    {literal : Text}
    (written : statement.binding? = some literal) :
    Text.ink literal = Text.ink (chars statement.selector) + 3 := by
  unfold binding? at written
  split at written
  · rw [Text.ink_of_literal?_eq_some written, Text.ink_collapse, Text.ink_trimEnd]
  · contradiction

theorem ink_literal_le_ink_boundSelector
    (number : UInt64)
    (literal : Text) :
    Text.ink literal ≤ Text.ink (boundSelector number literal) := by
  unfold boundSelector
  simp only [Text.ink_append]
  omega

theorem addsInk_complexSelectorPatch
    (text : Text) :
    (complexSelectorPatch text).AddsInk := by
  intro old new member
  obtain ⟨statement, -, literal, number, written, rfl, rfl⟩ :=
    exists_binding_of_mem_selectorPatch member
  have literalInk := statement.ink_of_binding?_eq_some written
  have boundInk := ink_literal_le_ink_boundSelector number literal
  omega

theorem addsInkUnless_bindComplexSelectors :
    AddsInkUnless HasNoComplexSelector bindComplexSelectors :=
  AddsInkUnless.of_patch before_complexSelectorPatch addsInk_complexSelectorPatch
    fun _ => replaced_selectorPatch_eq_nil_iff

/-! ## Colours of custom properties -/

theorem exists_call_of_literalColor?_eq_some
    {before : Option Cell}
    {cells : List Cell}
    {replacement : Replacement}
    (made : literalColor? before cells = some replacement) :
    ∃ call literal, callAt? 0 before cells = some call ∧ isCustomColor call = true ∧
      call.text.literal? = some literal ∧
      replacement = ⟨call.text.length - 1, literal⟩ := by
  unfold literalColor? at made
  simp only [Option.bind_eq_bind, Option.bind_eq_some_iff] at made
  obtain ⟨call, found, made⟩ := made
  split at made
  case isTrue isColor =>
    obtain ⟨literal, written, result⟩ := Option.bind_eq_some_iff.1 made
    exact ⟨call, literal, found, isColor, written, (Option.some.inj result).symm⟩
  case isFalse => contradiction

/-- A rule remembers the cell before a place if it keeps all cells before it. -/
theorem foldl_keep_customColorRule
    (front : List Cell) :
    front.foldl customColorRule.keep none = front.getLast? := by
  induction front using List.reverseRecOn with
  | nil => rfl
  | append_singleton front cell _ =>
      rw [List.foldl_append, List.getLast?_concat]
      rfl

theorem literalColor?_eq_none_iff
    {before : Option Cell}
    {cells : List Cell} :
    literalColor? before cells = none ↔
      ∀ call, callAt? 0 before cells = some call → isCustomColor call = true →
        call.text.literal? = none := by
  unfold literalColor?
  cases found : callAt? 0 before cells with
  | none => simp
  | some call =>
      cases isColor : isCustomColor call <;>
        cases written : call.text.literal? <;> simp [isColor, written]

/-- Every replacement is the literal form of the call that it replaces. -/
theorem exists_literal_of_mem_customColorPatch
    {source old new : Text}
    (member : Piece.replace old new ∈ customColorPatch source) :
    ∃ call : Call, old = call.text ∧ old.literal? = some new := by
  obtain ⟨before, suffix, replacement, -, made, rfl, rfl⟩ :=
    customColorRule.exists_replacement_of_mem_patchFrom member
  obtain ⟨call, literal, found, -, written, rfl⟩ := exists_call_of_literalColor?_eq_some made
  have stretch : chars (suffix.take (call.text.length - 1 + 1)) = call.text := by
    have positive : 0 < call.text.length := by
      simp only [Call.text, List.length_append, List.length_cons]
      omega
    rw [Nat.sub_add_cancel positive, chars_take]
    exact (List.prefix_iff_eq_take.1 (text_isPrefix_of_callAt?_eq_some found)).symm
  exact ⟨call, stretch, by rw [stretch]; exact written⟩

theorem addsInk_customColorPatch
    (text : Text) :
    (customColorPatch text).AddsInk := by
  intro old new member
  obtain ⟨-, -, written⟩ := exists_literal_of_mem_customColorPatch member
  rw [Text.ink_of_literal?_eq_some written]
  omega

theorem replaced_customColorPatch_eq_nil_iff
    (text : Text) :
    (customColorPatch text).replaced = [] ↔ HasNoCustomColor text := by
  rw [customColorPatch, Rule.patch, Rule.replaced_patchFrom_eq_nil_iff]
  constructor
  · intro none call member isColor
    obtain ⟨front, cell, rest, split, found⟩ := mem_callsFrom_iff.1 member
    have here := none front cell rest split
    rw [foldl_keep_customColorRule] at here
    rw [Nat.zero_add, Option.or_none, callAt?_eq_map_start] at found
    obtain ⟨placed, placedFound, rfl⟩ := Option.map_eq_some_iff.1 found
    exact literalColor?_eq_none_iff.1 here placed placedFound isColor
  · intro none front cell rest split
    rw [foldl_keep_customColorRule]
    apply literalColor?_eq_none_iff.2
    intro call found isColor
    refine none { call with start := front.length } (mem_callsFrom_iff.2 ?_) isColor
    refine ⟨front, cell, rest, split, ?_⟩
    rw [Nat.zero_add, Option.or_none, callAt?_eq_map_start, found]
    rfl

theorem addsInkUnless_literalCustomColors :
    AddsInkUnless HasNoCustomColor literalCustomColors :=
  AddsInkUnless.of_patch (customColorRule.before_patch none) addsInk_customColorPatch
    replaced_customColorPatch_eq_nil_iff

/-! ## Colours with an alpha value -/

theorem splitTopLevel_of_alphaArguments?_eq_some
    {call : Call}
    {color alpha : Text}
    (arguments : alphaArguments? call = some (color, alpha)) :
    splitTopLevel ',' call.arguments = [color, alpha] := by
  unfold alphaArguments? at arguments
  split at arguments
  case h_1 first second pieces =>
    split at arguments
    · contradiction
    · obtain ⟨rfl, rfl⟩ := Prod.mk.inj (Option.some.inj arguments)
      exact pieces
  case h_2 => contradiction

/-- The channel form of a colour has more ink than the call that it stands for. -/
theorem ink_text_lt_ink_channelForm
    {call : Call}
    {color alpha : Text}
    (arguments : alphaArguments? call = some (color, alpha)) :
    Text.ink call.text < Text.ink (channelForm call.name color alpha) := by
  have pieces := sum_ink_splitTopLevel ',' (by decide) call.arguments
  rw [splitTopLevel_of_alphaArguments?_eq_some arguments] at pieces
  simp only [List.map_cons, List.map_nil, List.sum_cons, List.sum_nil, List.length_cons,
    List.length_nil] at pieces
  unfold channelForm channels Call.text
  split <;>
    simp [List.intercalate, isWhiteSpace] <;>
    omega

/-- Expanding one colour adds ink. -/
theorem ink_lt_of_expandLastAlpha?_eq_some
    {source expanded : Text}
    (step : expandLastAlpha? source = some expanded) :
    Text.ink source < Text.ink expanded := by
  unfold expandLastAlpha? at step
  simp only [Option.bind_eq_bind, Option.bind_eq_some_iff] at step
  obtain ⟨call, last, ⟨color, alpha⟩, arguments, step⟩ := step
  obtain rfl := Option.some.inj step
  have member : call ∈ calls source :=
    (List.mem_filter.1 (List.mem_filter.1 (List.mem_of_getLast? last)).1).1
  have grown := ink_text_lt_ink_channelForm arguments
  obtain ⟨rest, split⟩ := text_isPrefix_drop_of_mem_calls member
  have length : call.closing + 1 = call.start + call.text.length := by
    simp [Call.closing, Call.opening, Call.text]
    omega
  have behind : source.drop (call.closing + 1) = rest := by
    rw [length, ← List.drop_drop, ← split, List.drop_left]
  have whole : Text.ink source =
      Text.ink (source.take call.start) + (Text.ink call.text + Text.ink rest) := by
    rw [← Text.ink_append, split, ← Text.ink_append, List.take_append_drop]
  rw [behind, Text.ink_append, Text.ink_append]
  dsimp only
  omega

/-- A text has no colour to expand exactly if none of its calls is one. -/
theorem expandLastAlpha?_eq_none_iff
    (source : Text) :
    expandLastAlpha? source = none ↔ HasNoAlphaColor source := by
  unfold expandLastAlpha?
  cases last : (alphaCalls source).getLast? with
  | none =>
      have none : alphaCalls source = [] := List.getLast?_eq_none_iff.1 last
      simpa [alphaCalls, HasNoAlphaColor] using none
  | some call =>
      have member : call ∈ alphaCalls source := List.mem_of_getLast? last
      obtain ⟨present, isSome⟩ := List.mem_filter.1 member
      obtain ⟨⟨color, alpha⟩, arguments⟩ := Option.isSome_iff_exists.1 isSome
      constructor
      · intro none
        simp [arguments] at none
      · intro none
        have here := none call present
        rw [arguments] at here
        contradiction

/-- What holds of settled texts and goes back over each step holds of every expansion. -/
theorem expansion_induction
    {motive : Text → Text → Prop}
    (settled : ∀ source, HasNoAlphaColor source → motive source source)
    (step : ∀ source next expanded, expandLastAlpha? source = some next →
      motive next expanded → motive source expanded)
    {source expanded : Text}
    (expands : expandColorAlpha? source = some expanded) :
    motive source expanded := by
  refine Text.settle?.partial_correctness expandLastAlpha? motive ?_ source expanded expands
  intro expand inductionHypothesis source expanded result
  cases next : expandLastAlpha? source with
  | none =>
      rw [next] at result
      obtain rfl := Option.some.inj result
      exact settled source ((expandLastAlpha?_eq_none_iff source).1 next)
  | some text =>
      rw [next] at result
      exact step source text expanded next (inductionHypothesis text expanded result)

theorem expandColorAlpha?_eq_self
    {source : Text}
    (idle : HasNoAlphaColor source) :
    expandColorAlpha? source = some source :=
  expandColorAlpha?_of_expandLastAlpha?_eq_none
    ((expandLastAlpha?_eq_none_iff source).2 idle)

/-- An expansion changes nothing or adds ink. -/
theorem eq_or_ink_lt_of_expandColorAlpha?_eq_some
    {source expanded : Text}
    (expands : expandColorAlpha? source = some expanded) :
    HasNoAlphaColor source ∧ expanded = source ∨ Text.ink source < Text.ink expanded := by
  apply expansion_induction
    (motive := fun source expanded =>
      HasNoAlphaColor source ∧ expanded = source ∨ Text.ink source < Text.ink expanded)
    ?_ ?_ expands
  · intro source idle
    exact Or.inl ⟨idle, rfl⟩
  · intro source next expanded step result
    have grown := ink_lt_of_expandLastAlpha?_eq_some step
    obtain ⟨-, rfl⟩ | further := result
    · exact Or.inr grown
    · exact Or.inr (Nat.lt_trans grown further)

/-! ## At-rules -/

theorem foldl_keep_atRuleRule
    (front : List Cell)
    (memory : AtRuleMemory) :
    front.foldl atRuleRule.keep memory = ⟨front.foldl blockDepth memory.depth, memory.count⟩ := by
  induction front generalizing memory with
  | nil => rfl
  | cons cell rest inductionHypothesis =>
      rw [List.foldl_cons, inductionHypothesis]
      rfl

/-- No at-rule is cut out exactly if none begins outside all blocks. -/
theorem atRules_cutAtRules_eq_nil_iff
    (text : Text) :
    (cutAtRules text).atRules = [] ↔ HasNoForeignAtRule text := by
  change (atRulePatch text).replaced = [] ↔ _
  rw [atRulePatch, Rule.patch, Rule.replaced_patchFrom_eq_nil_iff]
  constructor
  · intro idle front rule split outside starts
    cases rule with
    | nil => simp [startsForeignAtRule] at starts
    | cons cell rest =>
        have here := idle front cell rest split
        rw [foldl_keep_atRuleRule] at here
        change placeholder? _ _ = none at here
        rw [placeholder?, if_pos ⟨outside, starts⟩] at here
        exact Option.map_eq_none_iff.1 here
  · intro idle front cell rest split
    rw [foldl_keep_atRuleRule]
    change placeholder? _ _ = none
    rw [placeholder?]
    split_ifs with begins
    · rw [idle front (cell :: rest) split begins.1 begins.2]
      rfl
    · rfl

/-- Cutting no at-rule out leaves a text as it is. -/
theorem source_cutAtRules_eq_self
    {text : Text}
    (idle : (cutAtRules text).atRules = []) :
    (cutAtRules text).source = text := by
  change (atRulePatch text).after = text
  rw [Patch.after_eq_before idle, atRulePatch, Rule.before_patch]

end Lowering
end LessTheme
