import LessTheme.Proofs.Source.Patch

/-!
# Edits

An edit replaces the text between two bytes.  Edits are made from left to
right, and what lies between them is cut out of the text, so a list of edits
can be refused: if it leaves the text, cuts a character in two or goes back.
The edits of a patch are never refused, and making them gives the text after
the patch.
-/

namespace LessTheme
namespace Source

/-- A replacement of the text between two bytes. -/
structure Edit where
  /-- The byte at which the replaced text starts. -/
  start : Nat
  /-- The byte at which it ends. -/
  stop : Nat
  /-- The text that takes its place. -/
  new : Text
  deriving DecidableEq, Repr

namespace Edit

/-- Makes edits in the given order, the text being copied up to the given byte. -/
def appliedFrom? (source : Text) : Nat → List Edit → Option Text
  | copied, [] => source.slice? copied source.byteLength
  | copied, edit :: rest => do
      let kept ← source.slice? copied edit.start
      let later ← appliedFrom? source edit.stop rest
      return kept ++ (edit.new ++ later)

/-- Makes edits in the order in which they start, unless a slice is refused. -/
def applied? (source : Text) (edits : List Edit) : Option Text :=
  appliedFrom? source 0 (edits.mergeSort fun edit other => edit.start ≤ other.start)

/-- Edits that stand in order and apart from each other, each replacing some characters. -/
structure AreWellFormed
    (source : Text)
    (edits : List Edit) : Prop where
  nonempty : ∀ edit ∈ edits, edit.start < edit.stop
  inside : ∀ edit ∈ edits, edit.stop ≤ source.byteLength
  betweenChars : ∀ edit ∈ edits,
    (∃ index, source.indexOfByte? edit.start = some index) ∧
      ∃ index, source.indexOfByte? edit.stop = some index
  ascending : edits.Pairwise fun edit later => edit.start < later.start
  disjoint : edits.Pairwise fun edit later => edit.stop ≤ later.start

end Edit

/-! ## The edits of a patch -/

namespace Patch

/-- The edits of a patch that begins at the given byte. -/
def edits : Nat → Patch → List Edit
  | _, [] => []
  | place, .keep text :: rest => edits (place + text.byteLength) rest
  | place, .replace old new :: rest =>
      ⟨place, place + old.byteLength, new⟩ :: edits (place + old.byteLength) rest

theorem edits_append
    (place : Nat)
    (front back : Patch) :
    edits place (front ++ back) =
      edits place front ++ edits (place + Text.byteLength (before front)) back := by
  induction front generalizing place with
  | nil => rfl
  | cons piece rest inductionHypothesis =>
      cases piece with
      | keep text =>
          rw [List.cons_append, edits, inductionHypothesis, before, Text.byteLength_append,
            edits, Nat.add_assoc]
      | replace old new =>
          rw [List.cons_append, edits, inductionHypothesis, before, Text.byteLength_append,
            edits, Nat.add_assoc, List.cons_append]

/-- The edits of a patch are its replacements, each at the byte where it stands. -/
theorem mem_edits_iff
    {place : Nat}
    {patch : Patch}
    {edit : Edit} :
    edit ∈ edits place patch ↔
      ∃ front old new back, patch = front ++ .replace old new :: back ∧
        edit.start = place + Text.byteLength (before front) ∧
        edit.stop = edit.start + Text.byteLength old ∧ edit.new = new := by
  constructor
  · intro member
    induction patch generalizing place with
    | nil => contradiction
    | cons piece rest inductionHypothesis =>
        cases piece with
        | keep text =>
            obtain ⟨front, old, new, back, rfl, isStart, facts⟩ := inductionHypothesis member
            refine ⟨.keep text :: front, old, new, back, rfl, ?_, facts⟩
            rw [isStart, before, Text.byteLength_append, Nat.add_assoc]
        | replace first replacement =>
            obtain rfl | later := List.mem_cons.1 member
            · exact ⟨[], first, replacement, rest, rfl, rfl, rfl, rfl⟩
            · obtain ⟨front, old, new, back, rfl, isStart, facts⟩ := inductionHypothesis later
              refine ⟨.replace first replacement :: front, old, new, back, rfl, ?_, facts⟩
              rw [isStart, before, Text.byteLength_append, Nat.add_assoc]
  · rintro ⟨front, old, new, back, rfl, isStart, isStop, rfl⟩
    rw [edits_append, edits, ← isStart, ← isStop]
    exact List.mem_append_right _ List.mem_cons_self

theorem le_start_of_mem_edits
    {place : Nat}
    {patch : Patch}
    {edit : Edit}
    (member : edit ∈ edits place patch) :
    place ≤ edit.start := by
  obtain ⟨front, _, _, _, _, isStart, _⟩ := mem_edits_iff.1 member
  exact isStart ▸ Nat.le_add_right _ _

theorem pairwise_edits
    (place : Nat)
    (patch : Patch) :
    (edits place patch).Pairwise fun edit later => edit.stop ≤ later.start := by
  induction patch generalizing place with
  | nil => exact List.Pairwise.nil
  | cons piece rest inductionHypothesis =>
      cases piece with
      | keep text => exact inductionHypothesis _
      | replace old new =>
          exact List.pairwise_cons.2
            ⟨fun later member => le_start_of_mem_edits member, inductionHypothesis _⟩

/-- The edits of a patch are well formed if no replaced stretch is empty. -/
theorem areWellFormed_edits
    {patch : Patch}
    (nonempty : ∀ old new, Piece.replace old new ∈ patch → old ≠ []) :
    Edit.AreWellFormed patch.before (patch.edits 0) := by
  have split : ∀ edit ∈ patch.edits 0, edit.start < edit.stop ∧
      ∃ front old back, patch.before = front ++ (old ++ back) ∧
        Text.byteLength front = edit.start ∧ Text.byteLength (front ++ old) = edit.stop := by
    intro edit member
    obtain ⟨front, old, new, back, rfl, isStart, isStop, -⟩ := mem_edits_iff.1 member
    rw [Nat.zero_add] at isStart
    have positive := Text.byteLength_pos (nonempty old new (by simp))
    refine ⟨by omega, before front, old, before back, ?_, isStart.symm, ?_⟩
    · rw [before_append, before]
    · rw [Text.byteLength_append, isStop, isStart]
  have disjoint := pairwise_edits 0 patch
  constructor
  case nonempty => exact fun edit member => (split edit member).1
  case inside =>
    intro edit member
    obtain ⟨-, front, old, back, whole, -, isStop⟩ := split edit member
    rw [whole, ← List.append_assoc, Text.byteLength_append]
    omega
  case betweenChars =>
    intro edit member
    obtain ⟨-, front, old, back, whole, isStart, isStop⟩ := split edit member
    constructor
    · exact ⟨_, Text.indexOfByte?_eq_some_iff.2 ⟨front, old ++ back, whole, isStart, rfl⟩⟩
    · refine ⟨_, Text.indexOfByte?_eq_some_iff.2 ⟨front ++ old, back, ?_, isStop, rfl⟩⟩
      rw [whole, List.append_assoc]
  case ascending =>
    refine disjoint.imp_of_mem fun {edit later} member _ isApart => ?_
    exact Nat.lt_of_lt_of_le (split edit member).1 isApart
  case disjoint => exact disjoint

/--
Making the edits of a patch gives the text after it; of the text before, `front` has
been copied and `kept` lies between the last edit and the patch.
-/
theorem appliedFrom?_edits
    {source front kept : Text}
    {patch : Patch}
    (whole : source = front ++ (kept ++ patch.before)) :
    Edit.appliedFrom? source front.byteLength (patch.edits (Text.byteLength (front ++ kept))) =
      some (kept ++ patch.after) := by
  induction patch generalizing front kept with
  | nil =>
      rw [before, List.append_nil] at whole
      rw [edits, Edit.appliedFrom?, after, List.append_nil, Text.slice?_eq_some_iff]
      exact ⟨front, [], by rw [List.append_nil, whole], rfl, by rw [whole]⟩
  | cons piece rest inductionHypothesis =>
      cases piece with
      | keep text =>
          rw [before, ← List.append_assoc kept] at whole
          have made := inductionHypothesis whole
          rwa [← List.append_assoc, Text.byteLength_append _ text, List.append_assoc] at made
      | replace old new =>
          rw [before] at whole
          have isSlice : source.slice? front.byteLength (Text.byteLength (front ++ kept)) =
              some kept :=
            Text.slice?_eq_some_iff.2 ⟨front, old ++ before rest, whole, rfl, rfl⟩
          have behind : source = (front ++ kept ++ old) ++ ([] ++ before rest) := by
            rw [whole]
            simp
          have made := inductionHypothesis behind
          rw [List.append_nil, Text.byteLength_append _ old, List.nil_append] at made
          rw [edits, Edit.appliedFrom?, isSlice, made]
          rfl

/-- Making the edits of a patch gives the text after it. -/
theorem applied?_edits (patch : Patch) :
    Edit.applied? patch.before (patch.edits 0) = some patch.after := by
  have inOrder : (patch.edits 0).Pairwise fun edit later =>
      decide (edit.start ≤ later.start) = true := by
    refine (pairwise_edits 0 patch).imp_of_mem fun {edit later} member _ isApart => ?_
    obtain ⟨_, old, _, _, -, -, isStop, -⟩ := mem_edits_iff.1 member
    exact decide_eq_true (by omega)
  rw [Edit.applied?, List.mergeSort_of_pairwise inOrder]
  exact @appliedFrom?_edits patch.before [] [] patch rfl

end Patch

/-- A rule replaces at least one cell at a time. -/
theorem Rule.ne_nil_of_mem_patchFrom
    {Memory : Type}
    (rule : Rule Memory)
    {memory : Memory}
    {skipped : Nat}
    {cells : List Cell}
    {old new : Text}
    (member : Piece.replace old new ∈ rule.patchFrom memory skipped cells) :
    old ≠ [] := by
  induction cells generalizing memory skipped with
  | nil => contradiction
  | cons cell rest inductionHypothesis =>
      cases skipped with
      | succ further => exact inductionHypothesis member
      | zero =>
          unfold patchFrom at member
          split at member
          · obtain here | later := List.mem_cons.1 member
            · rw [(Piece.replace.inj here).1]
              exact List.cons_ne_nil _ _
            · exact inductionHypothesis later
          · obtain here | later := List.mem_cons.1 member
            · contradiction
            · exact inductionHypothesis later

namespace Edit

/-- Well-formed edits give a result, and it is the text with exactly their ranges replaced. -/
structure Produce
    (source : Text)
    (edits : List Edit)
    (result : Text) : Prop where
  wellFormed : AreWellFormed source edits
  made : applied? source edits = some result
  replaced : ∃ patch : Patch, patch.before = source ∧ patch.edits 0 = edits ∧ patch.after = result

theorem produce_edits
    {source : Text}
    {patch : Patch}
    (isBefore : patch.before = source)
    (nonempty : ∀ old new, Piece.replace old new ∈ patch → old ≠ []) :
    Produce source (patch.edits 0) patch.after where
  wellFormed := isBefore ▸ Patch.areWellFormed_edits nonempty
  made := isBefore ▸ patch.applied?_edits
  replaced := ⟨patch, isBefore, rfl, rfl⟩

end Edit
end Source
end LessTheme
