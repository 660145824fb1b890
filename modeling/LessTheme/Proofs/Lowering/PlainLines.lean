import LessTheme.Proofs.Lowering.Growth
import LessTheme.Proofs.Text.Pieces

/-!
# Plain lines stay plain

The first pass removes byte-order marks and carriage returns.  The passes
behind it write characters of their source and printable characters only, so
a lowered stylesheet holds neither.
-/

namespace LessTheme
namespace Lowering

open Source

namespace HasPlainLines

instance (text : Text) : Decidable (HasPlainLines text) :=
  List.decidableBAll (fun char => char ≠ '\ufeff' ∧ char ≠ '\r') text

theorem of_subset
    {text part : Text}
    (plain : HasPlainLines text)
    (subset : part ⊆ text) :
    HasPlainLines part :=
  fun char member => plain char (subset member)

theorem append
    {left right : Text}
    (leftPlain : HasPlainLines left)
    (rightPlain : HasPlainLines right) :
    HasPlainLines (left ++ right) := by
  intro char member
  obtain member | member := List.mem_append.1 member
  · exact leftPlain char member
  · exact rightPlain char member

theorem cons
    {first : Char}
    {rest : Text}
    (isPlain : first ≠ '\ufeff' ∧ first ≠ '\r')
    (plain : HasPlainLines rest) :
    HasPlainLines (first :: rest) := by
  intro char member
  obtain rfl | member := List.mem_cons.1 member
  · exact isPlain
  · exact plain char member

theorem flatMap
    {Piece : Type}
    {pieces : List Piece}
    {write : Piece → Text}
    (plain : ∀ piece ∈ pieces, HasPlainLines (write piece)) :
    HasPlainLines (pieces.flatMap write) := by
  intro char member
  obtain ⟨piece, isPiece, member⟩ := List.mem_flatMap.1 member
  exact plain piece isPiece char member

theorem intercalate
    {separator : Text}
    {texts : List Text}
    (separatorPlain : HasPlainLines separator)
    (plain : ∀ text ∈ texts, HasPlainLines text) :
    HasPlainLines (List.intercalate separator texts) := by
  intro char member
  obtain between | ⟨text, isText, inside⟩ :=
    Text.mem_separator_or_mem_of_mem_intercalate member
  · exact separatorPlain char between
  · exact plain text isText char inside

theorem collapse
    {text : Text}
    (plain : HasPlainLines text) :
    HasPlainLines text.collapse := by
  intro char member
  obtain rfl | ⟨member, -⟩ := Text.mem_of_mem_collapse member
  · decide
  · exact plain char member

theorem literal
    {text literal : Text}
    (plain : HasPlainLines text)
    (written : text.literal? = some literal) :
    HasPlainLines literal := by
  unfold Text.literal? at written
  split at written
  · split at written
    · contradiction
    · obtain rfl := Option.some.inj written
      exact cons (by decide) (cons (by decide) (plain.append (by decide)))
  · obtain rfl := Option.some.inj written
    exact cons (by decide) (cons (by decide) (plain.append (by decide)))

theorem decimal (number : Nat) : HasPlainLines (toString number).toList := by
  intro char member
  have isDigit := Text.isDigit_of_mem_toString member
  constructor <;> rintro rfl <;> exact absurd isDigit (by decide)

/-- A patch of a plain text is plain if what it writes is. -/
theorem after_patch
    {patch : Patch}
    (plain : HasPlainLines patch.before)
    (newPlain : ∀ old new, Piece.replace old new ∈ patch → HasPlainLines new) :
    HasPlainLines patch.after := by
  intro char member
  obtain kept | ⟨old, new, present, written⟩ := Patch.mem_before_or_new_of_mem_after member
  · exact plain char kept
  · exact newPlain old new present char written

end HasPlainLines

/-! ## The first pass -/

theorem mem_of_mem_unifyLineEnds
    {text : Text}
    {char : Char}
    (member : char ∈ unifyLineEnds text) :
    char ≠ '\r' ∧ (char = '\n' ∨ char ∈ text) := by
  fun_induction unifyLineEnds text with
  | case1 => contradiction
  | case2 rest inductionHypothesis =>
      obtain rfl | member := List.mem_cons.1 member
      · exact ⟨by decide, Or.inl rfl⟩
      · have facts := inductionHypothesis member
        simp [facts]
  | case3 rest _ inductionHypothesis =>
      obtain rfl | member := List.mem_cons.1 member
      · simp
      · have facts := inductionHypothesis member
        exact ⟨facts.1, facts.2.imp_right (List.mem_cons_of_mem _)⟩
  | case4 first rest notPair notReturn inductionHypothesis =>
      obtain rfl | member := List.mem_cons.1 member
      · exact ⟨fun isReturn => notReturn isReturn, Or.inr List.mem_cons_self⟩
      · have facts := inductionHypothesis member
        exact ⟨facts.1, facts.2.imp_right (List.mem_cons_of_mem _)⟩

theorem hasPlainLines_plainLines (source : Text) : HasPlainLines (plainLines source) := by
  intro char member
  obtain ⟨notReturn, rfl | member⟩ := mem_of_mem_unifyLineEnds member
  · decide
  · refine ⟨?_, notReturn⟩
    simpa using (List.mem_filter.1 member).2

theorem unifyLineEnds_eq_self
    {text : Text}
    (plain : HasPlainLines text) :
    unifyLineEnds text = text := by
  fun_induction unifyLineEnds text with
  | case1 => rfl
  | case2 rest _ => exact absurd rfl (plain '\r' List.mem_cons_self).2
  | case3 rest _ _ => exact absurd rfl (plain '\r' List.mem_cons_self).2
  | case4 first rest _ _ inductionHypothesis =>
      rw [inductionHypothesis (plain.of_subset (List.subset_cons_self _ _))]

theorem plainLines_eq_self
    {text : Text}
    (plain : HasPlainLines text) :
    plainLines text = text := by
  have kept : text.filter (· != '\ufeff') = text := by
    apply List.filter_eq_self.2
    intro char member
    simpa using (plain char member).1
  rw [plainLines, kept, unifyLineEnds_eq_self plain]

/-! ## The passes behind it -/

namespace HasPlainLines

theorem breakCommentEnds
    {text : Text}
    (plain : HasPlainLines text) :
    HasPlainLines (breakCommentEnds text) := by
  fun_induction Lowering.breakCommentEnds text with
  | case1 => exact plain
  | case2 rest inductionHypothesis =>
      have restPlain : HasPlainLines rest :=
        plain.of_subset (List.Subset.trans (List.subset_cons_self _ _) (List.subset_cons_self _ _))
      exact cons (by decide) (cons (by decide) (cons (by decide)
        (inductionHypothesis restPlain)))
  | case3 char rest _ inductionHypothesis =>
      exact cons (plain char List.mem_cons_self)
        (inductionHypothesis (plain.of_subset (List.subset_cons_self _ _)))

theorem blockComments
    {source : Text}
    (plain : HasPlainLines source) :
    HasPlainLines (blockComments source) := by
  apply flatMap
  intro segment member
  have segmentPlain : HasPlainLines segment.text := by
    apply plain.of_subset
    intro char inside
    rw [← flatMap_text_segments source]
    exact List.mem_flatMap.2 ⟨segment, member, inside⟩
  unfold withoutLineComment
  split
  · have bodyPlain := (segmentPlain.of_subset (List.drop_subset 2 _)).breakCommentEnds
    exact cons (by decide) (cons (by decide) (bodyPlain.append (by decide)))
  · exact segmentPlain

theorem boundSelector
    {literal : Text}
    (number : UInt64)
    (plain : HasPlainLines literal) :
    HasPlainLines (boundSelector number literal) := by
  have namePlain : HasPlainLines (selectorVariable ++ (toString number).toList) :=
    append (by decide) (decimal number.toNat)
  unfold Lowering.boundSelector
  exact (((((append (by decide) namePlain).append (by decide)).append plain).append
    (by decide)).append namePlain).append (by decide)

theorem bindComplexSelectors
    {source : Text}
    (plain : HasPlainLines source) :
    HasPlainLines (bindComplexSelectors source) := by
  apply after_patch
  · rwa [before_complexSelectorPatch]
  · intro old new member
    have oldPlain : HasPlainLines old := by
      apply plain.of_subset
      rw [← before_complexSelectorPatch source]
      exact Patch.subset_before_of_mem member
    obtain ⟨statement, -, literal, number, written, rfl, rfl⟩ :=
      exists_binding_of_mem_selectorPatch member
    apply boundSelector
    unfold Statement.binding? at written
    split at written
    · exact (oldPlain.of_subset (Text.trimEnd_subset _)).collapse.literal written
    · contradiction

theorem literalCustomColors
    {source : Text}
    (plain : HasPlainLines source) :
    HasPlainLines (literalCustomColors source) := by
  apply after_patch
  · rwa [customColorPatch, Rule.before_patch]
  · intro old new member
    have oldPlain : HasPlainLines old := by
      apply plain.of_subset
      rw [← customColorRule.before_patch none source]
      exact Patch.subset_before_of_mem member
    obtain ⟨call, rfl, written⟩ := exists_literal_of_mem_customColorPatch member
    exact oldPlain.literal written

theorem channelForm
    {name color alpha : Text}
    (namePlain : HasPlainLines name)
    (colorPlain : HasPlainLines color)
    (alphaPlain : HasPlainLines alpha) :
    HasPlainLines (channelForm name color alpha) := by
  have channelPlain : ∀ channel ∈ channels name, HasPlainLines channel := by
    unfold channels
    split <;> decide
  unfold Lowering.channelForm
  refine ((namePlain.append (by decide)).append (intercalate (by decide) ?_)).append (by decide)
  intro text isArgument
  obtain isChannel | isAlpha := List.mem_append.1 isArgument
  · obtain ⟨channel, member, rfl⟩ := List.mem_map.1 isChannel
    exact (((channelPlain channel member).append (by decide)).append colorPlain).append (by decide)
  · rwa [List.mem_singleton.1 isAlpha]

/-- Expanding one colour keeps lines plain. -/
theorem expandLastAlpha?
    {source expanded : Text}
    (plain : HasPlainLines source)
    (step : expandLastAlpha? source = some expanded) :
    HasPlainLines expanded := by
  unfold Lowering.expandLastAlpha? at step
  simp only [Option.bind_eq_bind, Option.bind_eq_some_iff] at step
  obtain ⟨call, last, ⟨color, alpha⟩, arguments, step⟩ := step
  obtain rfl := Option.some.inj step
  have member : call ∈ calls source :=
    (List.mem_filter.1 (List.mem_filter.1 (List.mem_of_getLast? last)).1).1
  have callPlain : HasPlainLines call.text :=
    plain.of_subset (List.Subset.trans (text_isPrefix_drop_of_mem_calls member).subset
      (List.drop_subset _ _))
  have argumentsPlain : HasPlainLines call.arguments :=
    callPlain.of_subset fun char inside => by simp [Call.text, inside]
  have namePlain : HasPlainLines call.name :=
    callPlain.of_subset fun char inside => by simp [Call.text, inside]
  have piecePlain : ∀ piece ∈ splitTopLevel ',' call.arguments, HasPlainLines piece :=
    fun piece isPiece => argumentsPlain.of_subset (subset_of_mem_splitTopLevel isPiece)
  rw [splitTopLevel_of_alphaArguments?_eq_some arguments] at piecePlain
  have formPlain := channelForm namePlain (piecePlain color (by simp)) (piecePlain alpha (by simp))
  exact ((plain.of_subset (List.take_subset _ _)).append formPlain).append
    (plain.of_subset (List.drop_subset _ _))

theorem expandColorAlpha?
    {source expanded : Text}
    (plain : HasPlainLines source)
    (expands : expandColorAlpha? source = some expanded) :
    HasPlainLines expanded := by
  apply expansion_induction
    (motive := fun source expanded => HasPlainLines source → HasPlainLines expanded)
    ?_ ?_ expands plain
  · intro source _ sourcePlain
    exact sourcePlain
  · intro source next expanded step result sourcePlain
    exact result (sourcePlain.expandLastAlpha? step)

theorem source_cutAtRules
    {text : Text}
    (plain : HasPlainLines text) :
    HasPlainLines (cutAtRules text).source := by
  apply after_patch
  · rwa [atRulePatch, Rule.before_patch]
  · intro old new member
    obtain ⟨memory, suffix, replacement, -, made, -, rfl⟩ :=
      atRuleRule.exists_replacement_of_mem_patchFrom member
    change placeholder? memory suffix = some replacement at made
    unfold placeholder? at made
    split at made
    · obtain ⟨rule, -, rfl⟩ := Option.map_eq_some_iff.1 made
      exact (append (by decide) (decimal memory.count)).append (by decide)
    · contradiction

/-- A lowered stylesheet has plain lines. -/
theorem source_of_lower?_eq_some
    {source : Text}
    {lowered : Lowered}
    (lowers : lower? source = some lowered) :
    HasPlainLines lowered.source := by
  obtain ⟨expanded, expands, rfl⟩ := Option.map_eq_some_iff.1 lowers
  have plain := hasPlainLines_plainLines source
  exact (plain.blockComments.bindComplexSelectors.literalCustomColors.expandColorAlpha?
    expands).source_cutAtRules

end HasPlainLines

end Lowering
end LessTheme
