import Mathlib.Logic.Relation
import Mathlib.Tactic.ByContra
import LessTheme.Reference.Cycle
import LessTheme.Proofs.Collection.LastValue

/-!
# Cycles of references

The search for cycles is exact: a variable is found to be cyclic if and only
if a chain of references leads from it back to itself.  A round of the search
that finds no new variable has found all of them, and every other round finds
one at least, so there are rounds enough.
-/

namespace LessTheme

theorem nodup_eraseDups {Item : Type} [BEq Item] [LawfulBEq Item] :
    (items : List Item) → items.eraseDups.Nodup
  | [] => List.nodup_nil
  | item :: rest => by
      rw [List.eraseDups_cons, List.nodup_cons, List.mem_eraseDups]
      exact ⟨by simp, nodup_eraseDups (rest.filter fun other => !other == item)⟩
termination_by items => items.length
decreasing_by exact Nat.lt_succ_of_le (List.length_filter_le _ _)

namespace Reference

variable {values : OrderedMap Text}

/-- The value of a variable refers to another variable. -/
def RefersTo
    (values : OrderedMap Text)
    (name target : Text) : Prop :=
  target ∈ targets values name

/-- No reference leads out of a list of names. -/
def IsClosed
    (values : OrderedMap Text)
    (names : List Text) : Prop :=
  ∀ name ∈ names, ∀ target, RefersTo values name target → target ∈ names

theorem RefersTo.mem_keys
    {name target : Text}
    (refers : RefersTo values name target) :
    target ∈ values.keys :=
  OrderedMap.mem_keys_iff.2 (List.mem_filter.1 refers).2

theorem mem_widen_iff
    {names : List Text}
    {target : Text} :
    target ∈ widen values names ↔
      target ∈ names ∨ ∃ name ∈ names, RefersTo values name target := by
  rw [widen, List.mem_eraseDups, List.mem_append, List.mem_flatMap]
  rfl

theorem nodup_widen (names : List Text) : (widen values names).Nodup :=
  nodup_eraseDups _

theorem subset_widen (names : List Text) : names ⊆ widen values names :=
  fun _ member => mem_widen_iff.2 (Or.inl member)

theorem widen_subset_keys
    {names : List Text}
    (inside : names ⊆ values.keys) :
    widen values names ⊆ values.keys := by
  intro target member
  obtain known | ⟨name, -, refers⟩ := mem_widen_iff.1 member
  · exact inside known
  · exact refers.mem_keys

/-- If widening does not lengthen a list of names, no reference leads out of it. -/
theorem isClosed_of_length_widen_le
    {names : List Text}
    (nodup : names.Nodup)
    (within : (widen values names).length ≤ names.length) :
    IsClosed values names := by
  intro name member target refers
  by_contra isNew
  have longer : (target :: names).length ≤ (widen values names).length := by
    refine (List.nodup_cons.2 ⟨isNew, nodup⟩).length_le_of_subset ?_
    refine List.cons_subset.2 ⟨?_, subset_widen names⟩
    exact mem_widen_iff.2 (Or.inr ⟨name, member, refers⟩)
  rw [List.length_cons] at longer
  omega

theorem subset_closure
    (rounds : Nat)
    (names : List Text) :
    names ⊆ closure values rounds names := by
  induction rounds generalizing names with
  | zero => exact List.Subset.refl names
  | succ rounds inductionHypothesis =>
      unfold closure
      dsimp only
      split
      · exact List.Subset.refl names
      · exact List.Subset.trans (subset_widen names) (inductionHypothesis _)

/-- The search finds only what references lead to. -/
theorem exists_of_mem_closure
    {rounds : Nat}
    {names : List Text}
    {target : Text}
    (member : target ∈ closure values rounds names) :
    ∃ name ∈ names, Relation.ReflTransGen (RefersTo values) name target := by
  induction rounds generalizing names with
  | zero => exact ⟨target, member, .refl⟩
  | succ rounds inductionHypothesis =>
      unfold closure at member
      dsimp only at member
      split at member
      · exact ⟨target, member, .refl⟩
      · obtain ⟨middle, isWide, leads⟩ := inductionHypothesis member
        obtain known | ⟨name, isKnown, refers⟩ := mem_widen_iff.1 isWide
        · exact ⟨middle, known, leads⟩
        · exact ⟨name, isKnown, leads.head refers⟩

/-- Enough rounds of the search find everything. -/
theorem isClosed_closure
    {rounds : Nat}
    {names : List Text}
    (nodup : names.Nodup)
    (inside : names ⊆ values.keys)
    (enough : values.size ≤ rounds + names.length) :
    IsClosed values (closure values rounds names) := by
  induction rounds generalizing names with
  | zero =>
      change IsClosed values names
      refine isClosed_of_length_widen_le nodup ?_
      have bounded : (widen values names).length ≤ values.keys.length :=
        (nodup_widen names).length_le_of_subset (widen_subset_keys inside)
      rw [OrderedMap.keys, List.length_map] at bounded
      unfold OrderedMap.size at enough
      omega
  | succ rounds inductionHypothesis =>
      unfold closure
      dsimp only
      split
      case isTrue same => exact isClosed_of_length_widen_le nodup (Nat.le_of_eq same)
      case isFalse different =>
        have longer : names.length ≤ (widen values names).length :=
          nodup.length_le_of_subset (subset_widen names)
        refine inductionHypothesis (nodup_widen names) (widen_subset_keys inside) ?_
        omega

/-- A variable is found to be reachable if a chain of references leads to it. -/
theorem mem_reachable_iff
    {name target : Text} :
    target ∈ reachable values name ↔
      Relation.TransGen (RefersTo values) name target := by
  constructor
  · intro member
    obtain ⟨first, isFirst, leads⟩ := exists_of_mem_closure member
    exact Relation.TransGen.head' (List.mem_eraseDups.1 isFirst) leads
  · intro chain
    obtain ⟨first, refers, leads⟩ := Relation.TransGen.head'_iff.1 chain
    clear chain
    have inside : (targets values name).eraseDups ⊆ values.keys :=
      fun found member => RefersTo.mem_keys (List.mem_eraseDups.1 member)
    have closed := isClosed_closure (nodup_eraseDups _) inside (Nat.le_add_right _ _)
    induction leads with
    | refl => exact subset_closure _ _ (List.mem_eraseDups.2 refers)
    | tail _ refersNext inductionHypothesis => exact closed _ inductionHypothesis _ refersNext

/-- A variable is found to be cyclic if a chain of references leads back to it. -/
theorem mem_cyclicNames_iff
    {name : Text} :
    name ∈ cyclicNames values ↔ Relation.TransGen (RefersTo values) name name := by
  rw [cyclicNames, List.mem_filter, isCyclic, List.contains_iff_mem, mem_reachable_iff]
  refine and_iff_right_of_imp fun cyclic => ?_
  obtain ⟨_, -, refers⟩ := Relation.TransGen.tail'_iff.1 cyclic
  exact refers.mem_keys

end Reference
end LessTheme
