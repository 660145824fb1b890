import LessTheme.Proofs.Reference.Fragment
import LessTheme.Proofs.Reference.Passes
import LessTheme.Proofs.Source.Call

/-!
# The search for cycles

A value refers to a name where an at sign of code stands in front of just that
name.  A depth-first search along these references keeps a stack of names to
visit and the names that it has visited, and ends when it meets the variable
that it began with.  It ends in any case, and it meets that variable exactly if
a chain of references leads back to it.
-/

namespace LessTheme
namespace Reference

open Source

/-! ## References in a value -/

/-- A name stands in a value right behind an at sign of code, and ends there. -/
def HoldsReference (value name : Text) : Prop :=
  ∃ front sign behind, cells value = front ++ sign :: behind ∧ sign.isCode '@' = true ∧
    (chars behind).takeWhile isNameChar = name ∧ name ≠ []

theorem word_foldr_prepend (cells : List Cell) :
    (cells.foldr Reading.prepend ⟨[], []⟩).word = (chars cells).takeWhile isNameChar := by
  induction cells with
  | nil => rfl
  | cons cell rest inductionHypothesis =>
      rw [List.foldr_cons, chars_cons, List.takeWhile_cons, Reading.prepend, ← inductionHypothesis]
      split
      · rfl
      · split <;> rfl

theorem reference_mem_foldr_prepend_iff
    {cells : List Cell}
    {name : Text} :
    .reference name ∈ (cells.foldr Reading.prepend ⟨[], []⟩).fragments ↔
      ∃ front sign behind, cells = front ++ sign :: behind ∧ sign.isCode '@' = true ∧
        (chars behind).takeWhile isNameChar = name := by
  induction cells with
  | nil => simp
  | cons cell rest inductionHypothesis =>
      have later : (∃ front sign behind, cell :: rest = front ++ sign :: behind ∧
            sign.isCode '@' = true ∧ (chars behind).takeWhile isNameChar = name) ↔
          (cell.isCode '@' = true ∧ (chars rest).takeWhile isNameChar = name) ∨
            .reference name ∈ (rest.foldr Reading.prepend ⟨[], []⟩).fragments := by
        rw [inductionHypothesis]
        constructor
        · rintro ⟨front, sign, behind, split, facts⟩
          cases front with
          | nil =>
              obtain ⟨rfl, rfl⟩ := List.cons.inj split
              exact .inl facts
          | cons first others =>
              obtain ⟨rfl, restSplit⟩ := List.cons.inj split
              exact .inr ⟨others, sign, behind, restSplit, facts⟩
        · rintro (facts | ⟨front, sign, behind, rfl, facts⟩)
          · exact ⟨[], cell, rest, rfl, facts⟩
          · exact ⟨cell :: front, sign, behind, rfl, facts⟩
      rw [later, List.foldr_cons, Reading.prepend]
      by_cases isName : isNameChar cell.char = true
      · have noSign : cell.isCode '@' = false := by
          refine Bool.eq_false_iff.2 fun isSign => ?_
          rw [Cell.char_of_isCode isSign] at isName
          exact absurd isName (by decide)
        simp [isName, noSign]
      · rw [if_neg isName]
        by_cases isSign : cell.isCode '@' = true
        · rw [if_pos isSign, List.mem_cons, Fragment.reference.injEq, word_foldr_prepend]
          simp [isSign, eq_comm]
        · rw [if_neg isSign]
          simp [isSign]

/-- The names that a value refers to are those that stand in it behind an at sign of code. -/
theorem mem_referencedNames_iff
    {value name : Text} :
    name ∈ referencedNames value ↔ HoldsReference value name := by
  have named (fragment : Fragment) :
      fragment.name? = some name ↔ fragment = .reference name ∧ name ≠ [] := by
    cases fragment with
    | plain text => simp [Fragment.name?]
    | reference other =>
        rw [Fragment.name?, Option.ite_none_left_eq_some, List.isEmpty_iff, Option.some.injEq,
          Fragment.reference.injEq]
        constructor
        · rintro ⟨nonempty, rfl⟩
          exact ⟨rfl, nonempty⟩
        · rintro ⟨rfl, nonempty⟩
          exact ⟨nonempty, rfl⟩
  have isReference : name ∈ referencedNames value ↔
      .reference name ∈ fragments value ∧ name ≠ [] := by
    simp [referencedNames, List.mem_filterMap, named]
  have noPlain (text : Text) : Fragment.reference name ≠ .plain text := by
    intro same
    cases same
  rw [isReference, fragments, fragmentsOf, List.mem_cons, or_iff_right (noPlain _),
    reference_mem_foldr_prepend_iff]
  constructor
  · rintro ⟨⟨front, sign, behind, split, isSign, word⟩, nonempty⟩
    exact ⟨front, sign, behind, split, isSign, word, nonempty⟩
  · rintro ⟨front, sign, behind, split, isSign, word, nonempty⟩
    exact ⟨⟨front, sign, behind, split, isSign, word⟩, nonempty⟩

/-- The value of a variable holds a reference to a declared variable. -/
def HasReferenceTo
    (values : OrderedMap Text)
    (name target : Text) : Prop :=
  (∃ value, values.get? name = some value ∧ HoldsReference value target) ∧ target ∈ values.keys

variable {values : OrderedMap Text}

theorem refersTo_iff_hasReferenceTo
    {name target : Text} :
    RefersTo values name target ↔ HasReferenceTo values name target := by
  rw [RefersTo, targets, List.mem_filter, HasReferenceTo, OrderedMap.mem_keys_iff]
  cases values.get? name with
  | none => simp
  | some value => simp [mem_referencedNames_iff]

/-! ## A depth-first search -/

/-- The variables that are not among the given names. -/
def unseen
    (values : OrderedMap Text)
    (seen : List Text) : List Text :=
  values.keys.filter fun name => !seen.contains name

theorem unseen_cons
    (seen : List Text)
    (next : Text) :
    unseen values (next :: seen) = (unseen values seen).filter (· != next) := by
  unfold unseen
  rw [List.filter_filter]
  refine List.filter_congr fun name _ => ?_
  rw [List.contains_cons, Bool.not_or]
  rfl

theorem targets_eq_nil
    {name : Text}
    (undeclared : name ∉ values.keys) :
    targets values name = [] := by
  rw [OrderedMap.mem_keys_iff, OrderedMap.contains, Bool.not_eq_true, Option.isSome_eq_false_iff,
    Option.isNone_iff_eq_none] at undeclared
  rw [targets, undeclared]
  rfl

/-- A visit of a new name leaves less names unseen, or less to visit. -/
theorem visit_decreases
    {seen stack : List Text}
    {next : Text}
    (isNew : ¬seen.contains next = true) :
    Prod.Lex (· < ·) (· < ·)
      ((unseen values (next :: seen)).length, ((targets values next).reverse ++ stack).length)
      ((unseen values seen).length, (next :: stack).length) := by
  rw [unseen_cons]
  by_cases isKey : next ∈ values.keys
  · have isUnseen : next ∈ unseen values seen := List.mem_filter.2 ⟨isKey, by simpa using isNew⟩
    exact .left _ _ (List.length_filter_lt_length_iff_exists.2 ⟨next, isUnseen, by simp⟩)
  · rw [targets_eq_nil isKey, List.reverse_nil, List.nil_append]
    obtain fewer | same := Nat.lt_or_eq_of_le (List.length_filter_le (· != next) (unseen values seen))
    · exact .left _ _ fewer
    · rw [same]
      exact .right _ (Nat.lt_succ_self _)

/--
Whether a search meets the name that it looks for, given the names that it has
visited and the stack of those that it still has to visit.
-/
def meets
    (values : OrderedMap Text)
    (goal : Text)
    (seen : List Text) : List Text → Bool
  | [] => false
  | next :: stack =>
      if next = goal then true
      else if seen.contains next then meets values goal seen stack
      else meets values goal (next :: seen) ((targets values next).reverse ++ stack)
termination_by stack => ((unseen values seen).length, stack.length)
decreasing_by
  · exact .right _ (Nat.lt_succ_self _)
  · exact visit_decreases (by assumption)

/-- Whether a search that begins with the references of a variable comes back to it. -/
def comesBack
    (values : OrderedMap Text)
    (name : Text) : Bool :=
  meets values name [] (targets values name).reverse

/--
The name that a search looks for is not among those that it has visited, and
what they refer to has been visited or is on the stack.
-/
structure IsOnCourse
    (values : OrderedMap Text)
    (goal : Text)
    (seen stack : List Text) : Prop where
  missed : goal ∉ seen
  followed : ∀ name ∈ seen, ∀ target, RefersTo values name target → target ∈ seen ∨ target ∈ stack

namespace IsOnCourse

variable {goal next : Text} {seen stack : List Text}

theorem start (goal : Text) (stack : List Text) : IsOnCourse values goal [] stack :=
  ⟨List.not_mem_nil, nofun⟩

theorem passOver
    (onCourse : IsOnCourse values goal seen (next :: stack))
    (isSeen : next ∈ seen) :
    IsOnCourse values goal seen stack := by
  refine ⟨onCourse.missed, fun name member target refers => ?_⟩
  obtain targetSeen | onStack := onCourse.followed name member target refers
  · exact .inl targetSeen
  · obtain rfl | onStack := List.mem_cons.1 onStack
    · exact .inl isSeen
    · exact .inr onStack

theorem visit
    (onCourse : IsOnCourse values goal seen (next :: stack))
    (isOther : next ≠ goal) :
    IsOnCourse values goal (next :: seen) ((targets values next).reverse ++ stack) := by
  constructor
  · rw [List.mem_cons, not_or]
    exact ⟨isOther.symm, onCourse.missed⟩
  · intro name member target refers
    rw [List.mem_append, List.mem_reverse, List.mem_cons]
    obtain rfl | member := List.mem_cons.1 member
    · exact .inr (.inl refers)
    · obtain targetSeen | onStack := onCourse.followed name member target refers
      · exact .inl (.inr targetSeen)
      · obtain rfl | onStack := List.mem_cons.1 onStack
        · exact .inl (.inl rfl)
        · exact .inr (.inr onStack)

/-- Whatever leads from a visited name to the goal leads over the stack. -/
theorem exists_mem_stack
    (onCourse : IsOnCourse values goal seen stack)
    {name : Text}
    (isSeen : name ∈ seen)
    (leads : Relation.ReflTransGen (RefersTo values) name goal) :
    ∃ waiting ∈ stack, Relation.ReflTransGen (RefersTo values) waiting goal := by
  induction leads using Relation.ReflTransGen.head_induction_on with
  | refl => exact absurd isSeen onCourse.missed
  | head refers further inductionHypothesis =>
      obtain targetSeen | onStack := onCourse.followed _ isSeen _ refers
      · exact inductionHypothesis targetSeen
      · exact ⟨_, onStack, further⟩

/-- A search meets its goal exactly if references lead to the goal from the stack. -/
theorem meets_iff
    (onCourse : IsOnCourse values goal seen stack) :
    meets values goal seen stack = true ↔
      ∃ name ∈ stack, Relation.ReflTransGen (RefersTo values) name goal := by
  induction seen, stack using meets.induct values goal with
  | case1 seen => simp [meets]
  | case2 seen stack =>
      rw [meets, if_pos rfl]
      exact iff_of_true rfl ⟨goal, List.mem_cons_self, .refl⟩
  | case3 seen next stack isOther isSeen inductionHypothesis =>
      have isMember : next ∈ seen := List.contains_iff_mem.1 isSeen
      have passed := onCourse.passOver isMember
      rw [meets, if_neg isOther, if_pos isSeen, inductionHypothesis passed]
      constructor
      · rintro ⟨name, member, leads⟩
        exact ⟨name, List.mem_cons_of_mem _ member, leads⟩
      · rintro ⟨name, member, leads⟩
        obtain rfl | member := List.mem_cons.1 member
        · exact passed.exists_mem_stack isMember leads
        · exact ⟨name, member, leads⟩
  | case4 seen next stack isOther isNew inductionHypothesis =>
      rw [meets, if_neg isOther, if_neg isNew, inductionHypothesis (onCourse.visit isOther)]
      constructor
      · rintro ⟨name, member, leads⟩
        obtain isTarget | member := List.mem_append.1 member
        · exact ⟨next, List.mem_cons_self, leads.head (List.mem_reverse.1 isTarget)⟩
        · exact ⟨name, List.mem_cons_of_mem _ member, leads⟩
      · rintro ⟨name, member, leads⟩
        obtain rfl | member := List.mem_cons.1 member
        · obtain same | ⟨target, refers, further⟩ := leads.cases_head
          · exact absurd same isOther
          · exact ⟨target, List.mem_append_left _ (List.mem_reverse.2 refers), further⟩
        · exact ⟨name, List.mem_append_right _ member, leads⟩

end IsOnCourse

theorem comesBack_iff
    {name : Text} :
    comesBack values name = true ↔ Relation.TransGen (RefersTo values) name name := by
  rw [comesBack, (IsOnCourse.start name _).meets_iff, Relation.TransGen.head'_iff]
  simp only [List.mem_reverse]
  rfl

/-! ## Exactness -/

/--
The cyclic names are the names from which references lead back to them, each
of them once.  A depth-first search along the references of a name comes back
to it exactly then, and other orders of the entries give the same names.
-/
theorem cyclicNames_lead_back_and_search_finds_them (values : OrderedMap Text) :
    (cyclicNames values).Nodup ∧
    (∀ name, name ∈ cyclicNames values ↔
      Relation.TransGen (HasReferenceTo values) name name) ∧
    (∀ name, comesBack values name = true ↔ name ∈ cyclicNames values) ∧
    ∀ permuted : OrderedMap Text, permuted.entries.Perm values.entries →
      (cyclicNames permuted).Perm (cyclicNames values) := by
  have nodup (map : OrderedMap Text) : (cyclicNames map).Nodup := List.Pairwise.filter _ map.nodup
  have sameRelation : RefersTo values = HasReferenceTo values := by
    funext name target
    exact propext refersTo_iff_hasReferenceTo
  refine ⟨nodup values, fun name => ?_, fun name => ?_, fun permuted isPerm => ?_⟩
  · rw [mem_cyclicNames_iff, sameRelation]
  · rw [comesBack_iff, mem_cyclicNames_iff]
  · refine (List.perm_ext_iff_of_nodup (nodup permuted) (nodup values)).2 fun name => ?_
    exact (HasSameValues.of_perm isPerm).mem_cyclicNames_iff

/-- A cycle of two names, one that leads into it, and one that holds itself in a string only. -/
theorem cyclicNames_lead_back_and_search_finds_them_sample :
    let values : OrderedMap Text := .ofList
      [("into", "@back + 1"), ("there", "@back * @back"), ("back", "/* @into */ @there"),
        ("quoted", "\"@quoted\" @{quoted} @quote")]
    let permuted : OrderedMap Text := .ofList
      [("back", "/* @into */ @there"), ("quoted", "\"@quoted\" @{quoted} @quote"),
        ("there", "@back * @back"), ("into", "@back + 1")]
    permuted.entries.Perm values.entries ∧
      (cyclicNames permuted).Perm (cyclicNames values) ∧
      cyclicNames values = ["there".toList, "back".toList] := by
  intro values permuted
  have isPerm : permuted.entries.Perm values.entries := by decide
  obtain ⟨-, -, -, samePerm⟩ := cyclicNames_lead_back_and_search_finds_them values
  exact ⟨isPerm, samePerm permuted isPerm, by decide⟩

end Reference
end LessTheme
