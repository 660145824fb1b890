import Mathlib.Data.List.Chain
import Mathlib.Logic.Function.Iterate
import Mathlib.Logic.Relation
import LessTheme.Reference.Fragment

/-!
# Hops along references

A value that is one reference to a known name leads to the value of that name
by a hop.  A chain of hops either ends, at a value that leads nowhere, or runs
into a cycle of names and stays there.
-/

namespace LessTheme
namespace Reference

/-- The value that a value leads to, if it is one reference to a name with a value. -/
def next?
    (value? : Text → Option Text)
    (value : Text) : Option Text :=
  (bareName? value).bind value?

/-- The value that a value leads to by a number of hops, if there are so many. -/
def afterHops?
    (value? : Text → Option Text) : Nat → Text → Option Text
  | 0, value => some value
  | hops + 1, value => (next? value? value).bind (afterHops? value? hops)

/-- One hop, or none where a value leads nowhere. -/
def hop
    (value? : Text → Option Text)
    (value : Text) : Text :=
  (next? value? value).getD value

/-- The value of a name is one reference to another name, which has a value. -/
def LeadsTo
    (value? : Text → Option Text)
    (name target : Text) : Prop :=
  (value? name).bind bareName? = some target ∧ (value? target).isSome = true

instance
    (value? : Text → Option Text)
    (name target : Text) :
    Decidable (LeadsTo value? name target) :=
  inferInstanceAs (Decidable (_ ∧ _))

/-- Two names lead to each other. -/
def OnOneCycle
    (value? : Text → Option Text)
    (left right : Text) : Prop :=
  Relation.TransGen (LeadsTo value?) left right ∧ Relation.TransGen (LeadsTo value?) right left

variable {value? : Text → Option Text} {value text name : Text} {hops count : Nat}

theorem next?_map
    (update : Text → Text)
    (value : Text) :
    next? (fun name => (value? name).map update) value = (next? value? value).map update := by
  rw [next?, next?, Option.map_bind]
  rfl

theorem hop_of_next?_eq_some
    {next : Text}
    (found : next? value? value = some next) :
    hop value? value = next := by
  rw [hop, found, Option.getD_some]

theorem hop_of_next?_eq_none
    (stops : next? value? value = none) :
    hop value? value = value := by
  rw [hop, stops, Option.getD_none]

theorem iterate_hop_of_next?_eq_none
    (stops : next? value? value = none)
    (count : Nat) :
    (hop value?)^[count] value = value :=
  Function.iterate_fixed (hop_of_next?_eq_none stops) count

theorem iterate_hop_of_afterHops?_eq_some
    (reaches : afterHops? value? hops value = some text) :
    (hop value?)^[hops] value = text := by
  induction hops generalizing value with
  | zero => exact Option.some.inj reaches
  | succ hops inductionHypothesis =>
      obtain ⟨next, found, reaches⟩ := Option.bind_eq_some_iff.1 reaches
      rw [Function.iterate_succ_apply, hop_of_next?_eq_some found]
      exact inductionHypothesis reaches

theorem iterate_hop_of_le
    (reaches : afterHops? value? hops value = some text)
    (within : hops ≤ count) :
    (hop value?)^[count] value = (hop value?)^[count - hops] text := by
  obtain ⟨further, rfl⟩ := Nat.exists_eq_add_of_le' within
  rw [Function.iterate_add_apply, iterate_hop_of_afterHops?_eq_some reaches,
    Nat.add_sub_cancel]

/-- Where a chain ends it stays. -/
theorem iterate_hop_eq_of_le
    (reaches : afterHops? value? hops value = some text)
    (stops : next? value? text = none)
    (within : hops ≤ count) :
    (hop value?)^[count] value = text := by
  rw [iterate_hop_of_le reaches within, iterate_hop_of_next?_eq_none stops]

/-- What holds of a value and of the values of all names holds wherever hops lead. -/
theorem iterate_hop_of_forall
    {property : Text → Prop}
    (ofNames : ∀ name next, value? name = some next → property next)
    (ofValue : property value)
    (count : Nat) :
    property ((hop value?)^[count] value) := by
  induction count generalizing value with
  | zero => exact ofValue
  | succ count inductionHypothesis =>
      rw [Function.iterate_succ_apply]
      apply inductionHypothesis
      cases found : next? value? value with
      | none => rwa [hop_of_next?_eq_none found]
      | some next =>
          rw [hop_of_next?_eq_some found]
          obtain ⟨name, -, isValue⟩ := Option.bind_eq_some_iff.1 found
          exact ofNames name next isValue

/-! ## Cycles -/

namespace OnOneCycle

theorem symm
    {left right : Text}
    (onCycle : OnOneCycle value? left right) :
    OnOneCycle value? right left :=
  ⟨onCycle.2, onCycle.1⟩

theorem trans
    {left middle right : Text}
    (first : OnOneCycle value? left middle)
    (second : OnOneCycle value? middle right) :
    OnOneCycle value? left right :=
  ⟨first.1.trans second.1, second.2.trans first.2⟩

/-- From a reference to a name on a cycle, a hop leads to a reference to a name on the cycle. -/
theorem exists_next?
    (onCycle : OnOneCycle value? name name)
    (isReference : bareName? value = some name) :
    ∃ next target, next? value? value = some next ∧ bareName? next = some target ∧
      OnOneCycle value? name target := by
  obtain ⟨target, leads, leadsBack⟩ := Relation.TransGen.head'_iff.1 onCycle.1
  obtain ⟨next, found, refers⟩ := Option.bind_eq_some_iff.1 leads.1
  refine ⟨next, target, ?_, refers, .single leads,
    Relation.TransGen.trans_right leadsBack onCycle.1⟩
  rw [next?, isReference, Option.bind_some, found]

/-- From a reference to a name on a cycle, hops do not leave the cycle. -/
theorem exists_iterate_hop
    (onCycle : OnOneCycle value? name name)
    (isReference : bareName? value = some name)
    (count : Nat) :
    ∃ target, bareName? ((hop value?)^[count] value) = some target ∧
      OnOneCycle value? name target := by
  induction count generalizing value name with
  | zero => exact ⟨name, isReference, onCycle⟩
  | succ count inductionHypothesis =>
      obtain ⟨next, middle, found, refers, toMiddle⟩ := onCycle.exists_next? isReference
      obtain ⟨target, isTarget, toTarget⟩ :=
        inductionHypothesis (toMiddle.symm.trans toMiddle) refers
      refine ⟨target, ?_, toMiddle.trans toTarget⟩
      rwa [Function.iterate_succ_apply, hop_of_next?_eq_some found]

/-- Hops from a reference to a name on a cycle do not end. -/
theorem next?_ne_none
    (onCycle : OnOneCycle value? name name)
    (isReference : bareName? value = some name)
    (reaches : afterHops? value? hops value = some text) :
    next? value? text ≠ none := by
  obtain ⟨target, refers, toTarget⟩ := onCycle.exists_iterate_hop isReference hops
  rw [iterate_hop_of_afterHops?_eq_some reaches] at refers
  obtain ⟨next, -, found, -⟩ := (toTarget.symm.trans toTarget).exists_next? refers
  exact Option.ne_none_iff_exists'.2 ⟨next, found⟩

/-- A chain that runs into a cycle stays there. -/
theorem exists_iterate_hop_of_le
    {next : Text}
    (onCycle : OnOneCycle value? next next)
    (reaches : afterHops? value? hops value = some text)
    (isReference : bareName? text = some next)
    (within : hops ≤ count) :
    ∃ target, bareName? ((hop value?)^[count] value) = some target ∧
      OnOneCycle value? next target := by
  rw [iterate_hop_of_le reaches within]
  exact onCycle.exists_iterate_hop isReference (count - hops)

end OnOneCycle

/-! ## Chains that end -/

/-- A chain in which no name leads back to itself repeats no name. -/
theorem nodup_of_isChain
    {relation : Text → Text → Prop}
    {names : List Text}
    (acyclic : ∀ name ∈ names, ¬Relation.TransGen relation name name)
    (chain : names.IsChain relation) :
    names.Nodup := by
  have leads : names.IsChain (Relation.TransGen relation) :=
    chain.imp fun _ _ => Relation.TransGen.single
  refine (List.isChain_iff_pairwise.1 leads).imp_of_mem ?_
  rintro name _ member - cyclic rfl
  exact acyclic name member cyclic

theorem LeadsTo.exists_next?
    {target : Text}
    (leads : LeadsTo value? name target)
    (isValue : value? name = some value) :
    ∃ next, next? value? value = some next ∧ value? target = some next := by
  obtain ⟨refers, isKnown⟩ := leads
  obtain ⟨next, isNext⟩ := Option.isSome_iff_exists.1 isKnown
  rw [isValue, Option.bind_some] at refers
  refine ⟨next, ?_, isNext⟩
  rw [next?, refers, Option.bind_some, isNext]

theorem exists_leadsTo_of_next?_eq_some
    {next : Text}
    (isValue : value? name = some value)
    (found : next? value? value = some next) :
    ∃ target, LeadsTo value? name target ∧ value? target = some next := by
  obtain ⟨target, refers, isNext⟩ := Option.bind_eq_some_iff.1 found
  exact ⟨target, ⟨by rwa [isValue], Option.isSome_of_eq_some isNext⟩, isNext⟩

/-- The references from a name lead to a name that leads back to itself. -/
def RunsIntoCycle
    (value? : Text → Option Text)
    (name : Text) : Prop :=
  ∃ target, Relation.ReflTransGen (LeadsTo value?) name target ∧
    Relation.TransGen (LeadsTo value?) target target

namespace RunsIntoCycle

theorem exists_leadsTo
    (runs : RunsIntoCycle value? name) :
    ∃ next, LeadsTo value? name next ∧ RunsIntoCycle value? next := by
  obtain ⟨target, reaches, cyclic⟩ := runs
  obtain rfl | ⟨next, leads, reaches⟩ := Relation.ReflTransGen.cases_head reaches
  · obtain ⟨next, leads, leadsBack⟩ := Relation.TransGen.head'_iff.1 cyclic
    exact ⟨next, leads, name, leadsBack, cyclic⟩
  · exact ⟨next, leads, target, reaches, cyclic⟩

theorem ne_none
    (runs : RunsIntoCycle value? name) :
    value? name ≠ none := by
  obtain ⟨_, ⟨refers, -⟩, -⟩ := runs.exists_leadsTo
  intro unknown
  rw [unknown] at refers
  contradiction

/-- Hops from the value of a name whose references run into a cycle do not end. -/
theorem next?_iterate_hop_ne_none
    (runs : RunsIntoCycle value? name)
    (isValue : value? name = some value)
    (count : Nat) :
    next? value? ((hop value?)^[count] value) ≠ none := by
  induction count generalizing name value with
  | zero =>
      obtain ⟨_, leads, -⟩ := runs.exists_leadsTo
      obtain ⟨next, found, -⟩ := leads.exists_next? isValue
      exact Option.ne_none_iff_exists'.2 ⟨next, found⟩
  | succ count inductionHypothesis =>
      obtain ⟨_, leads, runsOn⟩ := runs.exists_leadsTo
      obtain ⟨next, found, isNext⟩ := leads.exists_next? isValue
      rw [Function.iterate_succ_apply, hop_of_next?_eq_some found]
      exact inductionHypothesis runsOn isNext

/-- A chain of more names than there are runs into a cycle. -/
theorem of_isChain
    {rest known : List Text}
    (chain : (name :: rest).IsChain (LeadsTo value?))
    (isKnown : (value? name).isSome = true)
    (allKnown : ∀ target, (value? target).isSome = true → target ∈ known)
    (long : known.length ≤ rest.length) :
    RunsIntoCycle value? name := by
  by_contra endsSomewhere
  have leads : ∀ target ∈ rest, Relation.TransGen (LeadsTo value?) name target := fun _ =>
    List.rel_of_pairwise_cons
      (List.isChain_iff_pairwise.1 (chain.imp fun _ _ => Relation.TransGen.single))
  have nodup : (name :: rest).Nodup := by
    refine nodup_of_isChain (fun target member cyclic => endsSomewhere ⟨target, ?_, cyclic⟩) chain
    obtain rfl | behind := List.mem_cons.1 member
    · exact .refl
    · exact (leads target behind).to_reflTransGen
  have inside : name :: rest ⊆ known := by
    refine List.cons_subset.2 ⟨allKnown name isKnown, fun target behind => allKnown target ?_⟩
    obtain ⟨_, -, refers⟩ := Relation.TransGen.tail'_iff.1 (leads target behind)
    exact refers.2
  have short := nodup.length_le_of_subset inside
  rw [List.length_cons] at short
  omega

end RunsIntoCycle

/-- Hops that have not ended have gone along a chain of references. -/
theorem exists_isChain_of_next?_ne_none
    (isValue : value? name = some value)
    (goesOn : next? value? ((hop value?)^[count] value) ≠ none) :
    ∃ rest : List Text, rest.length = count + 1 ∧ (name :: rest).IsChain (LeadsTo value?) := by
  induction count generalizing name value with
  | zero =>
      obtain ⟨next, found⟩ := Option.ne_none_iff_exists'.1 goesOn
      obtain ⟨target, leads, -⟩ := exists_leadsTo_of_next?_eq_some isValue found
      exact ⟨[target], rfl, .cons_cons leads (.singleton target)⟩
  | succ count inductionHypothesis =>
      cases found : next? value? value with
      | none =>
          rw [iterate_hop_of_next?_eq_none found] at goesOn
          contradiction
      | some next =>
          obtain ⟨target, leads, isNext⟩ := exists_leadsTo_of_next?_eq_some isValue found
          rw [Function.iterate_succ_apply, hop_of_next?_eq_some found] at goesOn
          obtain ⟨rest, length, chain⟩ := inductionHypothesis isNext goesOn
          exact ⟨target :: rest, by rw [List.length_cons, length], .cons_cons leads chain⟩

/-! ## Names that are not expanded -/

/-- The value of a name, unless it is one of the given names. -/
def expandable?
    (fixed : List Text)
    (value? : Text → Option Text)
    (name : Text) : Option Text :=
  if fixed.contains name then none else value? name

variable {fixed : List Text}

theorem expandable?_of_mem
    (isFixed : name ∈ fixed) :
    expandable? fixed value? name = none :=
  if_pos (List.contains_iff_mem.2 isFixed)

theorem expandable?_of_not_mem
    (isFree : name ∉ fixed) :
    expandable? fixed value? name = value? name :=
  if_neg (mt List.contains_iff_mem.1 isFree)

theorem next?_expandable?_of_next?_eq_none
    (stops : next? value? value = none) :
    next? (expandable? fixed value?) value = none := by
  unfold next? at stops ⊢
  cases isReference : bareName? value with
  | none => rfl
  | some name =>
      rw [isReference, Option.bind_some] at stops
      rw [Option.bind_some, expandable?, stops, ite_self]

/--
Without the values of some names, a chain goes as far as it does with them, or
it ends at a reference to the first of these names.
-/
theorem afterHops?_expandable?
    (reaches : afterHops? value? hops value = some text) :
    afterHops? (expandable? fixed value?) hops value = some text ∨
      ∃ earlier ≤ hops, ∃ middle, ∃ name ∈ fixed,
        afterHops? (expandable? fixed value?) earlier value = some middle ∧
        bareName? middle = some name ∧
        afterHops? value? (hops - earlier) middle = some text := by
  induction hops generalizing value with
  | zero => exact Or.inl reaches
  | succ hops inductionHypothesis =>
      obtain ⟨next, found, reachesNext⟩ := Option.bind_eq_some_iff.1 reaches
      obtain ⟨name, isReference, isValue⟩ := Option.bind_eq_some_iff.1 found
      by_cases isFixed : name ∈ fixed
      · exact Or.inr ⟨0, Nat.zero_le _, value, name, isFixed, rfl, isReference, reaches⟩
      · have foundFree : next? (expandable? fixed value?) value = some next := by
          rw [next?, isReference, Option.bind_some, expandable?_of_not_mem isFixed, isValue]
        have hops_succ (more : Nat) : afterHops? (expandable? fixed value?) (more + 1) value =
            afterHops? (expandable? fixed value?) more next := by
          rw [afterHops?, foundFree, Option.bind_some]
        obtain same | ⟨earlier, before, middle, first, isFirst, toMiddle, refers, rest⟩ :=
          inductionHypothesis reachesNext
        · exact Or.inl ((hops_succ hops).trans same)
        · refine Or.inr ⟨earlier + 1, Nat.succ_le_succ before, middle, first, isFirst,
            (hops_succ earlier).trans toMiddle, refers, ?_⟩
          rwa [Nat.add_sub_add_right]

end Reference
end LessTheme
