import LessTheme.Proofs.Reference.Chain
import LessTheme.Proofs.Reference.Cycle
import LessTheme.Proofs.Reference.OpenFormula

/-!
# Recursive substitution

Where references do not lead back, the references of a formula can be replaced
by values whose own references are replaced in the same way.  The depth of a
formula is the length of the longest chain of references from it; no chain
repeats a name, so the recursion to the size of the map is deep enough.
-/

namespace LessTheme
namespace Reference
namespace OpenFormula

/-! ## Expanding twice -/

section Expand

variable {known? other? : Text → Option OpenFormula} {formula : OpenFormula} {name : Text}

theorem fill_congr
    (agree : ∀ name ∈ formula.references, known? name = other? name) :
    formula.fill known? = formula.fill other? := by
  induction formula with
  | number => rfl
  | reference name => rw [fill, fill, agree name.text List.mem_cons_self]
  | group inner inductionHypothesis => rw [fill, fill, inductionHypothesis agree]
  | operation operator left right leftSame rightSame =>
      rw [references, List.forall_mem_append] at agree
      rw [fill, fill, leftSame agree.1, rightSame agree.2]

/-- Only the values of the names that a formula refers to matter. -/
theorem expand_congr
    (agree : ∀ name ∈ formula.references, known? name = other? name) :
    formula.expand known? = formula.expand other? := by
  cases formula with
  | reference name => rw [expand, expand, agree name.text List.mem_cons_self]
  | number | group | operation => exact fill_congr agree

theorem fill_eq_self
    (unknown : ∀ name ∈ formula.references, known? name = none) :
    formula.fill known? = formula := by
  induction formula with
  | number => rfl
  | reference name => rw [fill, unknown name.text List.mem_cons_self, Option.elim_none]
  | group inner inductionHypothesis => rw [fill, inductionHypothesis unknown]
  | operation operator left right leftSame rightSame =>
      rw [references, List.forall_mem_append] at unknown
      rw [fill, leftSame unknown.1, rightSame unknown.2]

/-- References without values stay. -/
theorem expand_eq_self
    (unknown : ∀ name ∈ formula.references, known? name = none) :
    formula.expand known? = formula := by
  cases formula with
  | reference name => rw [expand, unknown name.text List.mem_cons_self, Option.getD_none]
  | number | group | operation => exact fill_eq_self unknown

@[simp] theorem references_operand (formula : OpenFormula) :
    formula.operand.references = formula.references := by
  unfold operand
  split <;> rfl

theorem mem_references_fill
    (member : name ∈ (formula.fill known?).references) :
    name ∈ formula.references ∧ known? name = none ∨
      ∃ via ∈ formula.references, ∃ value,
        known? via = some value ∧ name ∈ value.references := by
  induction formula with
  | number => contradiction
  | reference via =>
      rw [fill] at member
      cases found : known? via.text with
      | none =>
          rw [found, Option.elim_none] at member
          obtain rfl := List.mem_singleton.1 member
          exact Or.inl ⟨member, found⟩
      | some value =>
          rw [found, Option.elim_some, references_operand] at member
          exact Or.inr ⟨via.text, List.mem_cons_self, value, found, member⟩
  | group inner inductionHypothesis => exact inductionHypothesis member
  | operation operator left right leftCases rightCases =>
      obtain inLeft | inRight := List.mem_append.1 member
      · refine (leftCases inLeft).imp (And.imp_left (List.mem_append_left _)) ?_
        rintro ⟨via, refers, rest⟩
        exact ⟨via, List.mem_append_left _ refers, rest⟩
      · refine (rightCases inRight).imp (And.imp_left (List.mem_append_right _)) ?_
        rintro ⟨via, refers, rest⟩
        exact ⟨via, List.mem_append_right _ refers, rest⟩

/-- A reference of an expanded formula stood in the formula or in a value put in. -/
theorem mem_references_expand
    (member : name ∈ (formula.expand known?).references) :
    name ∈ formula.references ∧ known? name = none ∨
      ∃ via ∈ formula.references, ∃ value,
        known? via = some value ∧ name ∈ value.references := by
  cases formula with
  | number | group | operation => exact mem_references_fill member
  | reference via =>
      apply mem_references_fill
      rw [expand] at member
      rw [fill]
      cases found : known? via.text with
      | none => rwa [found] at member
      | some value =>
          rw [found] at member
          rwa [Option.elim_some, references_operand]

theorem fill_operand
    (known? : Text → Option OpenFormula)
    (formula : OpenFormula) :
    formula.operand.fill known? = (formula.expand known?).operand := by
  cases formula with
  | number | group | operation => rfl
  | reference name =>
      change (reference name).fill known? = _
      rw [fill, expand]
      cases known? name.text <;> rfl

theorem fill_fill
    (leads : ∀ name value, known? name = some value → other? name = some (value.expand other?))
    (formula : OpenFormula) :
    (formula.fill known?).fill other? = formula.fill other? := by
  induction formula with
  | number => rfl
  | reference name =>
      rw [fill]
      cases found : known? name.text with
      | none => rw [Option.elim_none]
      | some value =>
          rw [Option.elim_some, fill_operand, fill, leads name.text value found, Option.elim_some]
  | group inner inductionHypothesis => rw [fill, fill, fill, inductionHypothesis]
  | operation operator left right leftSame rightSame =>
      rw [fill, fill, fill, leftSame, rightSame]

/-- Expanding half and then in full is expanding in full. -/
theorem expand_expand
    (leads : ∀ name value, known? name = some value → other? name = some (value.expand other?))
    (formula : OpenFormula) :
    (formula.expand known?).expand other? = formula.expand other? := by
  cases formula with
  | number => rfl
  | group inner => exact fill_fill leads (group inner)
  | operation operator left right => exact fill_fill leads (operation operator left right)
  | reference name =>
      rw [expand]
      cases found : known? name.text with
      | none => rw [Option.getD_none]
      | some value => rw [Option.getD_some, expand, leads name.text value found, Option.getD_some]

end Expand

end OpenFormula

/-! ## Chains of references -/

/-- The values of a map of formulas as they are written. -/
def texts (values : OrderedMap OpenFormula) : OrderedMap Text :=
  values.mapValues fun _ => OpenFormula.text

variable {values : OrderedMap OpenFormula}

theorem refersTo_texts_iff
    {name target : Text} :
    RefersTo (texts values) name target ↔
      ∃ value, values.get? name = some value ∧ target ∈ value.references ∧
        target ∈ values.keys := by
  have sameKeys : (texts values).contains target = true ↔ target ∈ values.keys := by
    rw [OrderedMap.mem_keys_iff, OrderedMap.contains, OrderedMap.contains, texts,
      OrderedMap.get?_mapValues, Option.isSome_map]
  rw [RefersTo, targets, List.mem_filter, sameKeys, texts, OrderedMap.get?_mapValues]
  cases values.get? name with
  | none => simp
  | some value => simp [OpenFormula.referencedNames_text]

theorem RefersTo.mem_keys_source
    {values : OrderedMap Text}
    {name target : Text}
    (refers : RefersTo values name target) :
    name ∈ values.keys := by
  rw [OrderedMap.mem_keys_iff, OrderedMap.contains]
  cases found : values.get? name with
  | some value => rfl
  | none =>
      rw [RefersTo, targets, found] at refers
      contradiction

/-- No chain of references is longer than the given number of references. -/
def HasChainsWithin
    (values : OrderedMap Text)
    (limit : Nat) : Prop :=
  ∀ names : List Text, names.IsChain (RefersTo values) → names.length ≤ limit + 1

/-- From a name that leads back to itself, chains of any length lead. -/
theorem exists_isChain_of_transGen
    {values : OrderedMap Text}
    {name : Text}
    (cyclic : Relation.TransGen (RefersTo values) name name)
    (length : Nat) :
    ∃ names : List Text, names.length = length ∧ (name :: names).IsChain (RefersTo values) := by
  induction length generalizing name with
  | zero => exact ⟨[], rfl, .singleton name⟩
  | succ length inductionHypothesis =>
      obtain ⟨next, refers, leadsBack⟩ := Relation.TransGen.head'_iff.1 cyclic
      obtain ⟨names, rfl, chain⟩ := inductionHypothesis (Relation.TransGen.tail' leadsBack refers)
      exact ⟨next :: names, rfl, .cons_cons refers chain⟩

/-- Where chains of references end, no name leads back to itself. -/
theorem HasChainsWithin.not_transGen
    {values : OrderedMap Text}
    {limit : Nat}
    (within : HasChainsWithin values limit)
    (name : Text) :
    ¬Relation.TransGen (RefersTo values) name name := by
  intro cyclic
  obtain ⟨names, length, chain⟩ := exists_isChain_of_transGen cyclic (limit + 1)
  have short := within _ chain
  rw [List.length_cons] at short
  omega

theorem HasChainsWithin.cyclicNames_eq_nil
    {values : OrderedMap Text}
    {limit : Nat}
    (within : HasChainsWithin values limit) :
    cyclicNames values = [] :=
  List.eq_nil_iff_forall_not_mem.2 fun name cyclic =>
    within.not_transGen name (mem_cyclicNames_iff.1 cyclic)

/-- Where the rank of names falls along references, chains are no longer than the rank. -/
theorem HasChainsWithin.of_rank
    {values : OrderedMap Text}
    {limit : Nat}
    (rank : Text → Nat)
    (bounded : ∀ name ∈ values.keys, rank name ≤ limit)
    (falls : ∀ name ∈ values.keys, ∀ target ∈ targets values name, rank target < rank name) :
    HasChainsWithin values limit := by
  intro names chain
  have ranked : ∀ name rest, (name :: rest).IsChain (RefersTo values) →
      rest = [] ∨ name ∈ values.keys ∧ rest.length ≤ rank name := by
    intro name rest chain
    induction rest generalizing name with
    | nil => exact Or.inl rfl
    | cons next rest inductionHypothesis =>
        obtain ⟨refers, chain⟩ := List.isChain_cons_cons.1 chain
        have lower := falls name refers.mem_keys_source next refers
        refine Or.inr ⟨refers.mem_keys_source, ?_⟩
        rw [List.length_cons]
        obtain rfl | ⟨-, within⟩ := inductionHypothesis next chain
        · exact Nat.one_le_of_lt lower
        · omega
  cases names with
  | nil => exact Nat.zero_le _
  | cons first rest =>
      rw [List.length_cons, Nat.add_le_add_iff_right]
      obtain rfl | ⟨isKey, within⟩ := ranked first rest chain
      · exact Nat.zero_le _
      · exact Nat.le_trans within (bounded first isKey)

/-! ## The depth of a formula -/

/-- All chains of references from a formula have the given length at most. -/
def EndsWithin (values : OrderedMap OpenFormula) : Nat → OpenFormula → Prop
  | 0, formula => ∀ name ∈ formula.references, values.get? name = none
  | depth + 1, formula =>
      ∀ name ∈ formula.references, ∀ value, values.get? name = some value →
        EndsWithin values depth value

namespace EndsWithin

variable {depth : Nat} {formula value : OpenFormula} {name : Text}

theorem succ
    (ends : EndsWithin values depth formula) :
    EndsWithin values (depth + 1) formula := by
  induction depth generalizing formula with
  | zero =>
      intro name refers value found
      rw [ends name refers] at found
      contradiction
  | succ depth inductionHypothesis =>
      exact fun name refers value found => inductionHypothesis (ends name refers value found)

/-- The values of the references of a formula have less depth, and nothing else matters. -/
theorem iff_exists_eq_succ :
    EndsWithin values depth formula ↔
      ∀ name ∈ formula.references, ∀ value, values.get? name = some value →
        ∃ lower, depth = lower + 1 ∧ EndsWithin values lower value := by
  cases depth with
  | zero => simp [EndsWithin, Option.eq_none_iff_forall_ne_some]
  | succ depth => simp [EndsWithin]

/-- A formula whose chains do not end in time begins a chain that is longer. -/
theorem exists_isChain_of_not
    (endless : ¬EndsWithin values depth formula) :
    ∃ first rest, rest.length = depth ∧ first ∈ formula.references ∧
      (∀ name ∈ first :: rest, name ∈ values.keys) ∧
        (first :: rest).IsChain (RefersTo (texts values)) := by
  induction depth generalizing formula with
  | zero =>
      simp only [EndsWithin, not_forall] at endless
      obtain ⟨name, refers, known⟩ := endless
      refine ⟨name, [], rfl, refers, ?_, .singleton name⟩
      rw [List.forall_mem_singleton, OrderedMap.mem_keys_iff]
      exact Option.isSome_iff_ne_none.2 known
  | succ depth inductionHypothesis =>
      simp only [EndsWithin, not_forall] at endless
      obtain ⟨name, refers, value, found, endless⟩ := endless
      obtain ⟨first, rest, rfl, refersNext, known, chain⟩ := inductionHypothesis endless
      have isKey : name ∈ values.keys :=
        OrderedMap.mem_keys_iff.2 (Option.isSome_of_eq_some found)
      have step : RefersTo (texts values) name first :=
        refersTo_texts_iff.2 ⟨value, found, refersNext, known first List.mem_cons_self⟩
      exact ⟨name, first :: rest, rfl, refers, List.forall_mem_cons.2 ⟨isKey, known⟩,
        .cons_cons step chain⟩

/-- Chains that repeat no name are no longer than there are names. -/
theorem size
    (acyclic : ∀ name, ¬Relation.TransGen (RefersTo (texts values)) name name)
    (formula : OpenFormula) :
    EndsWithin values values.size formula := by
  by_contra endless
  obtain ⟨first, rest, length, -, known, chain⟩ := exists_isChain_of_not endless
  have short := (nodup_of_isChain (fun name _ => acyclic name) chain).length_le_of_subset known
  rw [List.length_cons, length, OrderedMap.keys, List.length_map, OrderedMap.size] at short
  omega

end EndsWithin

theorem HasChainsWithin.endsWithin
    {limit : Nat}
    {name : Text}
    {value : OpenFormula}
    (within : HasChainsWithin (texts values) limit)
    (found : values.get? name = some value) :
    EndsWithin values limit value := by
  by_contra endless
  obtain ⟨first, rest, length, refers, known, chain⟩ := EndsWithin.exists_isChain_of_not endless
  have step : RefersTo (texts values) name first :=
    refersTo_texts_iff.2 ⟨value, found, refers, known first List.mem_cons_self⟩
  have short := within _ (List.IsChain.cons_cons step chain)
  rw [List.length_cons, List.length_cons, length] at short
  omega

/-! ## Full values -/

/-- A formula with its references replaced by values with replaced references, to some depth. -/
def fullWithin (values : OrderedMap OpenFormula) : Nat → OpenFormula → OpenFormula
  | 0, formula => formula
  | depth + 1, formula =>
      formula.expand fun name => (values.get? name).map (fullWithin values depth)

/-- A formula with all its references replaced, and the references of what is put in as well. -/
def full (values : OrderedMap OpenFormula) (formula : OpenFormula) : OpenFormula :=
  fullWithin values values.size formula

/-- The full value of a name. -/
def full? (values : OrderedMap OpenFormula) (name : Text) : Option OpenFormula :=
  (values.get? name).map (full values)

theorem EndsWithin.fullWithin_succ
    {depth : Nat}
    {formula : OpenFormula}
    (ends : EndsWithin values depth formula) :
    fullWithin values (depth + 1) formula = fullWithin values depth formula := by
  induction depth generalizing formula with
  | zero =>
      refine OpenFormula.expand_eq_self fun name refers => ?_
      rw [ends name refers, Option.map_none]
  | succ depth inductionHypothesis =>
      refine OpenFormula.expand_congr fun name refers => ?_
      exact Option.map_congr fun value found => inductionHypothesis (ends name refers value found)

/--
The full value of a formula is the formula expanded with full values, where no
name leads back to itself.
-/
theorem full_eq_expand
    (acyclic : ∀ name, ¬Relation.TransGen (RefersTo (texts values)) name name)
    (formula : OpenFormula) :
    full values formula = formula.expand (full? values) :=
  (EndsWithin.size acyclic formula).fullWithin_succ.symm

end Reference
end LessTheme
