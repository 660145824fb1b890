import LessTheme.Source.Patch
import LessTheme.Proofs.Source.Call
import LessTheme.Proofs.Text.Ink

/-!
# What patches keep and add

The text before a patch is the text that the patch was made of, and a patch
that replaces nothing leaves the text as it is.  A patch whose replacements
all have more ink than what they replace adds ink wherever it replaces
anything, so its text before and its text after cannot be equal.
-/

namespace LessTheme
namespace Source
namespace Patch

/-- Every replacement has more ink than the stretch that it replaces. -/
def AddsInk (patch : Patch) : Prop :=
  ∀ old new, Piece.replace old new ∈ patch → Text.ink old < Text.ink new

/-- The texts that take the place of the replaced stretches, in order. -/
def inserted : Patch → List Text
  | [] => []
  | .keep _ :: rest => inserted rest
  | .replace _ new :: rest => new :: inserted rest

/-- A patch that replaces nothing leaves its text as it is. -/
theorem after_eq_before
    {patch : Patch}
    (idle : patch.replaced = []) :
    patch.after = patch.before := by
  induction patch with
  | nil => rfl
  | cons piece rest inductionHypothesis =>
      cases piece with
      | keep text =>
          rw [after, before, inductionHypothesis (by simpa [replaced] using idle)]
      | replace old new => simp [replaced] at idle

theorem before_append (front back : Patch) :
    (front ++ back : Patch).before = front.before ++ back.before := by
  induction front with
  | nil => rfl
  | cons piece rest inductionHypothesis =>
      cases piece
      all_goals rw [List.cons_append, before, before, inductionHypothesis, List.append_assoc]

theorem after_append (front back : Patch) :
    (front ++ back : Patch).after = front.after ++ back.after := by
  induction front with
  | nil => rfl
  | cons piece rest inductionHypothesis =>
      cases piece
      all_goals rw [List.cons_append, after, after, inductionHypothesis, List.append_assoc]

/-- A character behind a patch stood before it or in a replacement. -/
theorem mem_before_or_new_of_mem_after
    {patch : Patch}
    {char : Char}
    (member : char ∈ patch.after) :
    char ∈ patch.before ∨ ∃ old new, Piece.replace old new ∈ patch ∧ char ∈ new := by
  induction patch with
  | nil => simp [after] at member
  | cons piece rest inductionHypothesis =>
      have tail : char ∈ after rest →
          char ∈ before rest ∨
            ∃ old new, Piece.replace old new ∈ piece :: rest ∧ char ∈ new := by
        intro later
        obtain kept | ⟨old, new, present, written⟩ := inductionHypothesis later
        · exact Or.inl kept
        · exact Or.inr ⟨old, new, List.mem_cons_of_mem _ present, written⟩
      cases piece with
      | keep text =>
          rw [after, List.mem_append] at member
          rw [before, List.mem_append]
          obtain here | later := member
          · exact Or.inl (Or.inl here)
          · exact (tail later).imp_left Or.inr
      | replace old new =>
          rw [after, List.mem_append] at member
          rw [before, List.mem_append]
          obtain here | later := member
          · exact Or.inr ⟨old, new, List.mem_cons_self, here⟩
          · exact (tail later).imp_left Or.inr

theorem subset_before_of_mem
    {patch : Patch}
    {old new : Text}
    (member : Piece.replace old new ∈ patch) :
    old ⊆ patch.before := by
  induction patch with
  | nil => contradiction
  | cons piece rest inductionHypothesis =>
      obtain rfl | later := List.mem_cons.1 member
      · exact List.subset_append_left _ _
      · cases piece <;>
          exact List.Subset.trans (inductionHypothesis later) (List.subset_append_right _ _)

namespace AddsInk

theorem tail
    {piece : Piece}
    {rest : Patch}
    (adds : AddsInk (piece :: rest)) :
    AddsInk rest :=
  fun old new member => adds old new (List.mem_cons_of_mem _ member)

/-- Such a patch takes no ink away. -/
theorem ink_before_le
    {patch : Patch}
    (adds : AddsInk patch) :
    Text.ink patch.before ≤ Text.ink patch.after := by
  induction patch with
  | nil => exact Nat.le_refl _
  | cons piece rest inductionHypothesis =>
      have restBound := inductionHypothesis adds.tail
      cases piece with
      | keep text =>
          rw [before, after, Text.ink_append, Text.ink_append]
          omega
      | replace old new =>
          have here := adds old new List.mem_cons_self
          rw [before, after, Text.ink_append, Text.ink_append]
          omega

/-- Such a patch replaces nothing if it adds no ink. -/
theorem replaced_eq_nil
    {patch : Patch}
    (adds : AddsInk patch)
    (bound : Text.ink patch.after ≤ Text.ink patch.before) :
    patch.replaced = [] := by
  induction patch with
  | nil => rfl
  | cons piece rest inductionHypothesis =>
      have restBound := adds.tail.ink_before_le
      cases piece with
      | keep text =>
          rw [before, after, Text.ink_append, Text.ink_append] at bound
          exact inductionHypothesis adds.tail (by omega)
      | replace old new =>
          have here := adds old new List.mem_cons_self
          rw [before, after, Text.ink_append, Text.ink_append] at bound
          omega

end AddsInk

end Patch

namespace Rule

variable {Memory : Type} (rule : Rule Memory)

/-- The text before a patch consists of the cells that it was made of. -/
theorem before_patchFrom
    (memory : Memory)
    (skipped : Nat)
    (cells : List Cell) :
    (rule.patchFrom memory skipped cells).before = chars (cells.drop skipped) := by
  induction cells generalizing memory skipped with
  | nil => simp [patchFrom, Patch.before, chars]
  | cons cell rest inductionHypothesis =>
      cases skipped with
      | succ count => exact inductionHypothesis memory count
      | zero =>
          unfold patchFrom
          cases rule.replacement? memory (cell :: rest) with
          | none =>
              change [cell.char] ++ (rule.patchFrom (rule.keep memory cell) 0 rest).before = _
              rw [inductionHypothesis]
              rfl
          | some replacement =>
              change (cell.char :: chars (rest.take replacement.furtherCells)) ++
                (rule.patchFrom (rule.replace memory) replacement.furtherCells rest).before = _
              rw [inductionHypothesis, List.cons_append, chars, chars, ← List.map_append,
                List.take_append_drop]
              rfl

/-- The rest of a stretch that is replaced already is passed over. -/
theorem patchFrom_eq_patchFrom_drop
    (memory : Memory)
    (skipped : Nat)
    (cells : List Cell) :
    rule.patchFrom memory skipped cells = rule.patchFrom memory 0 (cells.drop skipped) := by
  induction cells generalizing skipped with
  | nil => cases skipped <;> rfl
  | cons cell rest inductionHypothesis =>
      cases skipped with
      | zero => rfl
      | succ further => exact inductionHypothesis further

@[simp] theorem before_patch
    (memory : Memory)
    (text : Text) :
    (rule.patch memory text).before = text := by
  rw [patch, before_patchFrom, List.drop_zero, chars_cells]

/-- Every replacement in a patch was made by the rule at some suffix of the cells. -/
theorem exists_replacement_of_mem_patchFrom
    {memory : Memory}
    {skipped : Nat}
    {cells : List Cell}
    {old new : Text}
    (member : Piece.replace old new ∈ rule.patchFrom memory skipped cells) :
    ∃ remembered suffix replacement, suffix <:+ cells ∧
      rule.replacement? remembered suffix = some replacement ∧
      old = chars (suffix.take (replacement.furtherCells + 1)) ∧
      new = replacement.new := by
  induction cells generalizing memory skipped with
  | nil => simp [patchFrom] at member
  | cons cell rest inductionHypothesis =>
      have later : ∀ {memory skipped},
          Piece.replace old new ∈ rule.patchFrom memory skipped rest →
            ∃ remembered suffix replacement, suffix <:+ cell :: rest ∧
              rule.replacement? remembered suffix = some replacement ∧
              old = chars (suffix.take (replacement.furtherCells + 1)) ∧
              new = replacement.new := by
        intro memory skipped found
        obtain ⟨remembered, suffix, replacement, isSuffix, facts⟩ := inductionHypothesis found
        exact ⟨remembered, suffix, replacement, isSuffix.trans (List.suffix_cons cell rest), facts⟩
      cases skipped with
      | succ count => exact later member
      | zero =>
          unfold patchFrom at member
          cases made : rule.replacement? memory (cell :: rest) with
          | none =>
              rw [made] at member
              exact later (by simpa using member)
          | some replacement =>
              rw [made] at member
              obtain here | found := List.mem_cons.1 member
              · obtain ⟨rfl, rfl⟩ := Piece.replace.inj here
                exact ⟨memory, cell :: rest, replacement, List.suffix_refl _, made, rfl, rfl⟩
              · exact later found

/--
A patch replaces nothing exactly if the rule makes no replacement at any place,
remembering all the cells before it.
-/
theorem replaced_patchFrom_eq_nil_iff
    {memory : Memory}
    {cells : List Cell} :
    (rule.patchFrom memory 0 cells).replaced = [] ↔
      ∀ front cell rest, cells = front ++ cell :: rest →
        rule.replacement? (front.foldl rule.keep memory) (cell :: rest) = none := by
  induction cells generalizing memory with
  | nil => simp [patchFrom, Patch.replaced]
  | cons cell rest inductionHypothesis =>
      unfold patchFrom
      cases made : rule.replacement? memory (cell :: rest) with
      | some replacement =>
          constructor
          · intro idle
            simp [Patch.replaced] at idle
          · intro none
            have here := none [] cell rest rfl
            rw [List.foldl_nil, made] at here
            contradiction
      | none =>
          change (rule.patchFrom (rule.keep memory cell) 0 rest).replaced = [] ↔ _
          rw [inductionHypothesis]
          constructor
          · intro restNone front next others split
            cases front with
            | nil =>
                obtain ⟨rfl, rfl⟩ := List.cons.inj split
                exact made
            | cons first front =>
                obtain ⟨rfl, restSplit⟩ := List.cons.inj split
                exact restNone front next others restSplit
          · intro allNone front next others split
            exact allNone (cell :: front) next others (by rw [split, List.cons_append])

end Rule

end Source

/-!
## Cuts of a patch

A patch cuts stretches out of a text and puts marks in their places.  The text
that it keeps stands between them, before the replacements as well as after
them, so the two texts are woven from the same kept texts.
-/

namespace Source

/-- Kept texts, each with a mark for the numbered stretch behind it, and what is kept last. -/
def weave
    (mark : Nat → Text → Text) : Nat → List (Text × Text) → Text → Text
  | _, [], last => last
  | number, (kept, cut) :: rest, last =>
      kept ++ (mark number cut ++ weave mark (number + 1) rest last)

/-- Kept texts with the stretches between them. -/
def wovenText : List (Text × Text) → Text → Text := weave (fun _ cut => cut) 0

theorem weave_cut
    (number : Nat)
    (stretches : List (Text × Text))
    (last : Text) :
    weave (fun _ cut => cut) number stretches last = wovenText stretches last := by
  suffices same : ∀ number other,
      weave (fun _ cut => cut) number stretches last =
        weave (fun _ cut => cut) other stretches last from same number 0
  induction stretches with
  | nil => exact fun _ _ => rfl
  | cons stretch rest inductionHypothesis =>
      intro number other
      rw [weave, weave, inductionHypothesis (number + 1) (other + 1)]

theorem wovenText_cons
    (kept cut : Text)
    (rest : List (Text × Text))
    (last : Text) :
    wovenText ((kept, cut) :: rest) last = kept ++ (cut ++ wovenText rest last) := by
  rw [wovenText, weave, weave_cut]
  rfl

namespace Patch

/-- The replaced stretches, each behind the text that is kept before it. -/
def cutsAfter : Text → Patch → List (Text × Text)
  | _, [] => []
  | kept, .keep text :: rest => cutsAfter (kept ++ text) rest
  | kept, .replace old _ :: rest => (kept, old) :: cutsAfter [] rest

/-- The text that is kept behind the last replaced stretch. -/
def lastAfter : Text → Patch → Text
  | kept, [] => kept
  | kept, .keep text :: rest => lastAfter (kept ++ text) rest
  | _, .replace _ _ :: rest => lastAfter [] rest

theorem replaced_eq_map_cutsAfter
    (kept : Text)
    (patch : Patch) :
    patch.replaced = (cutsAfter kept patch).map Prod.snd := by
  induction patch generalizing kept with
  | nil => rfl
  | cons piece rest inductionHypothesis =>
      cases piece with
      | keep text => exact inductionHypothesis (kept ++ text)
      | replace old new => exact congrArg (old :: ·) (inductionHypothesis [])

theorem before_eq_wovenText
    (kept : Text)
    (patch : Patch) :
    kept ++ patch.before = wovenText (cutsAfter kept patch) (lastAfter kept patch) := by
  induction patch generalizing kept with
  | nil => exact List.append_nil kept
  | cons piece rest inductionHypothesis =>
      cases piece with
      | keep text =>
          rw [before, ← List.append_assoc]
          exact inductionHypothesis (kept ++ text)
      | replace old new =>
          rw [before, cutsAfter, lastAfter, wovenText_cons, ← inductionHypothesis []]
          rfl

/-- If every replacement is the mark with its number, the text after the patch holds the marks. -/
theorem after_eq_weave
    {mark : Nat → Text → Text}
    {number : Nat}
    {patch : Patch}
    (marked : ∀ front old new back, patch = front ++ .replace old new :: back →
      new = mark (number + (replaced front).length) old)
    (kept : Text) :
    kept ++ patch.after = weave mark number (cutsAfter kept patch) (lastAfter kept patch) := by
  induction patch generalizing kept number with
  | nil => exact List.append_nil kept
  | cons piece rest inductionHypothesis =>
      cases piece with
      | keep text =>
          rw [after, ← List.append_assoc]
          refine inductionHypothesis (fun front old new back split => ?_) (kept ++ text)
          exact marked (.keep text :: front) old new back (by rw [split, List.cons_append])
      | replace old new =>
          have restMarked : ∀ front other next back, rest = front ++ .replace other next :: back →
              next = mark (number + 1 + (replaced front).length) other := by
            intro front other next back split
            have here := marked (.replace old new :: front) other next back
              (by rw [split, List.cons_append])
            have further : number + (replaced (.replace old new :: front)).length =
                number + 1 + (replaced front).length := by
              rw [replaced, List.length_cons]
              omega
            rw [here, further]
          rw [after, cutsAfter, lastAfter, weave, ← inductionHypothesis restMarked [],
            marked [] old new rest rfl]
          rfl

/-- Every cut is a replacement, and the text before it is woven from the cuts before it. -/
theorem exists_replace_of_cutsAfter_eq
    {kept : Text}
    {patch : Patch}
    {earlier later : List (Text × Text)}
    {between cut : Text}
    (split : cutsAfter kept patch = earlier ++ (between, cut) :: later) :
    ∃ front new back, patch = front ++ .replace cut new :: back ∧
      kept ++ before front = wovenText earlier between := by
  induction patch generalizing kept earlier with
  | nil => simp [cutsAfter] at split
  | cons piece rest inductionHypothesis =>
      cases piece with
      | keep text =>
          obtain ⟨front, new, back, rfl, woven⟩ := inductionHypothesis split
          refine ⟨.keep text :: front, new, back, rfl, ?_⟩
          rw [before, ← List.append_assoc, woven]
      | replace old new =>
          cases earlier with
          | nil =>
              obtain ⟨same, -⟩ := List.cons.inj split
              obtain ⟨rfl, rfl⟩ := Prod.mk.inj same
              exact ⟨[], new, rest, rfl, List.append_nil kept⟩
          | cons first others =>
              obtain ⟨rfl, restSplit⟩ := List.cons.inj split
              obtain ⟨front, next, back, rfl, woven⟩ := inductionHypothesis restSplit
              refine ⟨.replace old new :: front, next, back, rfl, ?_⟩
              rw [before, wovenText_cons, ← woven]
              rfl

end Patch

namespace Rule

variable {Memory : Type} (rule : Rule Memory)

/--
What holds at the start and is kept by every step of a rule holds before each
replacement of its patch, for the number of replacements before it, the cells
passed so far and what the rule remembers of them.
-/
theorem exists_holds_of_patchFrom_eq
    (Holds : Nat → List Cell → Memory → Prop)
    (keeps : ∀ {count passed memory cell rest}, Holds count passed memory →
      rule.replacement? memory (cell :: rest) = none →
      Holds count (passed ++ [cell]) (rule.keep memory cell))
    (replaces : ∀ {count passed memory cell rest replacement}, Holds count passed memory →
      rule.replacement? memory (cell :: rest) = some replacement →
      Holds (count + 1) (passed ++ cell :: rest.take replacement.furtherCells)
        (rule.replace memory))
    {memory : Memory}
    {skipped count : Nat}
    {passed cells : List Cell}
    (holds : Holds count (passed ++ cells.take skipped) memory)
    {front back : Patch}
    {old new : Text}
    (split : rule.patchFrom memory skipped cells = front ++ .replace old new :: back) :
    ∃ ahead suffix remembered replacement,
      passed ++ cells = ahead ++ suffix ∧
      chars ahead = chars (passed ++ cells.take skipped) ++ front.before ∧
      Holds (count + front.replaced.length) ahead remembered ∧
      rule.replacement? remembered suffix = some replacement ∧
      old = chars (suffix.take (replacement.furtherCells + 1)) ∧ new = replacement.new := by
  induction cells generalizing memory skipped count passed front with
  | nil => simp [patchFrom] at split
  | cons cell rest inductionHypothesis =>
      have passedCell : passed ++ cell :: rest = (passed ++ [cell]) ++ rest := by simp
      rw [passedCell]
      cases skipped with
      | succ further =>
          have reached : passed ++ (cell :: rest).take (further + 1) =
              (passed ++ [cell]) ++ rest.take further := by simp
          rw [reached] at holds ⊢
          exact inductionHypothesis holds split
      | zero =>
          rw [List.take_zero, List.append_nil] at holds ⊢
          unfold patchFrom at split
          cases made : rule.replacement? memory (cell :: rest) with
          | none =>
              rw [made] at split
              cases front with
              | nil => simp at split
              | cons piece others =>
                  obtain ⟨rfl, restSplit⟩ := List.cons.inj split
                  have keptHolds := keeps holds made
                  rw [← List.append_nil (passed ++ [cell]), ← List.take_zero (l := rest)]
                    at keptHolds
                  obtain ⟨ahead, suffix, remembered, replacement, divided, isAhead, facts⟩ :=
                    inductionHypothesis keptHolds restSplit
                  refine ⟨ahead, suffix, remembered, replacement, divided, ?_, facts⟩
                  rw [isAhead]
                  simp [Patch.before]
          | some replacement =>
              rw [made] at split
              cases front with
              | nil =>
                  obtain ⟨here, -⟩ := List.cons.inj split
                  obtain ⟨rfl, rfl⟩ := Piece.replace.inj here
                  exact ⟨passed, cell :: rest, memory, replacement, by simp, by simp [Patch.before],
                    holds, made, rfl, rfl⟩
              | cons piece others =>
                  obtain ⟨rfl, restSplit⟩ := List.cons.inj split
                  have replacedHolds := replaces holds made
                  rw [List.append_cons] at replacedHolds
                  obtain ⟨ahead, suffix, remembered, next, divided, isAhead, stillHolds, facts⟩ :=
                    inductionHypothesis replacedHolds restSplit
                  refine ⟨ahead, suffix, remembered, next, divided, ?_, ?_, facts⟩
                  · rw [isAhead]
                    simp [Patch.before]
                  · have number (old new : Text) :
                        count + (Patch.replaced (.replace old new :: others)).length =
                          count + 1 + (Patch.replaced others).length := by
                      rw [Patch.replaced, List.length_cons]
                      omega
                    rwa [number]

end Rule

end Source
end LessTheme
