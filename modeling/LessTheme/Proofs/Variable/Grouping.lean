import Mathlib.Data.List.Nodup
import LessTheme.Proofs.Variable.Reading

/-!
# The groups of a catalog

A catalog keeps the names of each group in a list of its own.  A name stands in
at most one of these lists, and only in that of the group of its variable.  It
is left out of all lists exactly if that group is begun anew after the last
declaration of the variable.
-/

namespace LessTheme
namespace Catalog

/-- The names that are listed in a group. -/
def members (catalog : Catalog) (group : Text) : List Text :=
  (catalog.groups.get? group).getD []

/-- Every listed name is that of a variable of the group, and every variable has its group. -/
structure IsGrouped (catalog : Catalog) : Prop where
  nodup : ∀ group, (catalog.members group).Nodup
  listed : ∀ group, ∀ name ∈ catalog.members group,
    ∃ declared, catalog.find? name = some declared ∧ declared.group = group
  begun : ∀ name declared, catalog.find? name = some declared →
    declared.group ∈ catalog.groups.keys

section Members

variable (catalog : Catalog)

theorem members_of_mem_groups
    {catalog : Catalog}
    {group : Text × List Text}
    (isGroup : group ∈ catalog.groups.entries) :
    catalog.members group.1 = group.2 := by
  rw [members, OrderedMap.get?_of_mem_entries isGroup, Option.getD_some]

theorem mem_groups_of_mem_members
    {catalog : Catalog}
    {group name : Text}
    (isMember : name ∈ catalog.members group) :
    (group, catalog.members group) ∈ catalog.groups.entries := by
  apply OrderedMap.mem_entries_of_get?_eq_some
  rw [members] at isMember ⊢
  cases isGroup : catalog.groups.get? group with
  | none =>
      rw [isGroup] at isMember
      contradiction
  | some names => rfl

theorem members_beginGroup
    (group other : Text) :
    (catalog.beginGroup group).members other =
      if group = other then [] else catalog.members other := by
  rw [members, beginGroup, OrderedMap.get?_insert]
  split <;> rfl

theorem members_joinGroup
    (group name other : Text) :
    (catalog.joinGroup group name).members other =
      if group = other then catalog.members other ++ [name] else catalog.members other := by
  rw [members, joinGroup, OrderedMap.get?_insert]
  split
  case isTrue same => rw [← same]; rfl
  case isFalse => rfl

/-- A name that leaves its group is listed nowhere, since it was listed in that group only. -/
theorem members_leaveGroup
    {catalog : Catalog}
    (isGrouped : catalog.IsGrouped)
    (name group : Text) :
    (catalog.leaveGroup name).members group = (catalog.members group).filter (· != name) := by
  have unlisted : name ∉ catalog.members group →
      catalog.members group = (catalog.members group).filter (· != name) := by
    intro absent
    refine (List.filter_eq_self.2 fun member isMember => bne_iff_ne.2 ?_).symm
    rintro rfl
    exact absent isMember
  unfold leaveGroup
  cases isFound : catalog.find? name with
  | none =>
      refine unlisted fun isMember => ?_
      obtain ⟨declared, isDeclared, -⟩ := isGrouped.listed group name isMember
      rw [isFound] at isDeclared
      contradiction
  | some earlier =>
      change ((catalog.groups.modify earlier.group (·.filter (· != name))).get? group).getD [] = _
      rw [OrderedMap.get?_modify]
      split
      · rw [members]
        cases catalog.groups.get? group <;> rfl
      case isFalse different =>
        refine unlisted fun isMember => different ?_
        obtain ⟨declared, isDeclared, isGroup⟩ := isGrouped.listed group name isMember
        rw [← isGroup, Option.some.inj (isFound.symm.trans isDeclared)]

theorem members_declare
    {catalog : Catalog}
    (isGrouped : catalog.IsGrouped)
    (group other : Text)
    (found : Declaration) :
    (catalog.declare group found).members other =
      if group = other then (catalog.members other).filter (· != found.name) ++ [found.name]
      else (catalog.members other).filter (· != found.name) := by
  have joined : (catalog.declare group found).members other =
      ((catalog.leaveGroup found.name).joinGroup group found.name).members other := rfl
  rw [joined, members_joinGroup, members_leaveGroup isGrouped]

theorem mem_members_declare_iff
    {catalog : Catalog}
    (isGrouped : catalog.IsGrouped)
    {group other name : Text}
    {found : Declaration} :
    name ∈ (catalog.declare group found).members other ↔
      name ∈ catalog.members other ∧ name ≠ found.name ∨ group = other ∧ name = found.name := by
  rw [members_declare isGrouped]
  split
  case isTrue same => simp [same]
  case isFalse different => simp [different]

theorem keys_groups_declare_subset
    (group : Text)
    (found : Declaration) :
    catalog.groups.keys ⊆ (catalog.declare group found).groups.keys ∧
      group ∈ (catalog.declare group found).groups.keys := by
  have left : (catalog.leaveGroup found.name).groups.keys = catalog.groups.keys := by
    unfold leaveGroup
    split
    · exact OrderedMap.keys_modify _ _ _
    · rfl
  have joined : (catalog.declare group found).groups.keys =
      if group ∈ catalog.groups.keys then catalog.groups.keys
      else catalog.groups.keys ++ [group] := by
    rw [← left]
    exact OrderedMap.keys_insert _ group _
  rw [joined]
  split
  case isTrue known => exact ⟨List.Subset.refl _, known⟩
  case isFalse => simp

end Members

namespace IsGrouped

variable {catalog : Catalog}

theorem exists_of_mem_groups
    (isGrouped : catalog.IsGrouped)
    {group : Text × List Text}
    (isGroup : group ∈ catalog.groups.entries)
    {name : Text}
    (isMember : name ∈ group.2) :
    ∃ declared, catalog.find? name = some declared ∧ declared.group = group.1 := by
  rw [← members_of_mem_groups isGroup] at isMember
  exact isGrouped.listed group.1 name isMember

/-- No name is listed twice, since the groups of two lists that hold it are the same. -/
theorem nodup_flatMap_groups
    (isGrouped : catalog.IsGrouped) :
    (catalog.groups.entries.flatMap Prod.snd).Nodup := by
  rw [List.nodup_flatMap]
  constructor
  · intro group isGroup
    rw [← members_of_mem_groups isGroup]
    exact isGrouped.nodup group.1
  · have keysApart := List.pairwise_map.1 catalog.groups.nodup
    refine keysApart.imp_of_mem fun {left right} isLeft isRight different name inLeft inRight => ?_
    obtain ⟨declared, isFound, isLeftGroup⟩ := isGrouped.exists_of_mem_groups isLeft inLeft
    obtain ⟨other, isOther, isRightGroup⟩ := isGrouped.exists_of_mem_groups isRight inRight
    obtain rfl := Option.some.inj (isFound.symm.trans isOther)
    exact different (isLeftGroup.symm.trans isRightGroup)

/-- A name that is not listed in the group of its variable is listed nowhere. -/
theorem forall_not_mem_iff
    (isGrouped : catalog.IsGrouped)
    {name : Text}
    {declared : Variable}
    (isFound : catalog.find? name = some declared) :
    (∀ group ∈ catalog.groups.entries, name ∉ group.2) ↔
      name ∉ catalog.members declared.group := by
  constructor
  · intro unlisted isMember
    exact unlisted _ (mem_groups_of_mem_members isMember) isMember
  · intro absent group isGroup isMember
    obtain ⟨other, isOther, isOwn⟩ := isGrouped.exists_of_mem_groups isGroup isMember
    obtain rfl := Option.some.inj (isFound.symm.trans isOther)
    rw [← members_of_mem_groups isGroup, ← isOwn] at isMember
    exact absent isMember

/-! ## All lines -/

theorem beginGroup
    (isGrouped : catalog.IsGrouped)
    (group : Text) :
    (catalog.beginGroup group).IsGrouped := by
  refine ⟨fun other => ?_, fun other name isMember => ?_, fun name declared isFound => ?_⟩
  · rw [members_beginGroup]
    split
    · exact List.nodup_nil
    · exact isGrouped.nodup other
  · rw [members_beginGroup] at isMember
    split at isMember
    · contradiction
    · exact isGrouped.listed other name isMember
  · have begun := isGrouped.begun name declared isFound
    have keys : (catalog.beginGroup group).groups.keys = _ :=
      OrderedMap.keys_insert catalog.groups group []
    rw [keys]
    split
    · exact begun
    · exact List.mem_append_left _ begun

theorem declare
    (isGrouped : catalog.IsGrouped)
    (group : Text)
    (found : Declaration) :
    (catalog.declare group found).IsGrouped := by
  obtain ⟨keysStay, begins⟩ := catalog.keys_groups_declare_subset group found
  refine ⟨fun other => ?_, fun other name isMember => ?_, fun name declared isFound => ?_⟩
  · have nodup := (isGrouped.nodup other).filter (· != found.name)
    rw [members_declare isGrouped]
    split
    · exact List.nodup_append.2 ⟨nodup, List.nodup_singleton _, by simp⟩
    · exact nodup
  · rw [find?_declare]
    obtain ⟨isMember, different⟩ | ⟨isOther, named⟩ := (mem_members_declare_iff isGrouped).1 isMember
    · rw [if_neg fun same => different same.symm]
      exact isGrouped.listed other name isMember
    · rw [if_pos named.symm]
      exact ⟨_, rfl, isOther⟩
  · rw [find?_declare] at isFound
    split at isFound
    · rw [← Option.some.inj isFound]
      exact begins
    · exact keysStay (isGrouped.begun name declared isFound)

end IsGrouped

theorem isGrouped_readLines
    (unit : Text)
    (lines : List Text) :
    (readLines unit lines).catalog.IsGrouped := by
  induction lines using List.reverseRecOn with
  | nil => exact ⟨fun _ => List.nodup_nil, nofun, nofun⟩
  | append_singleton lines line inductionHypothesis =>
      obtain ⟨next, isNext, step⟩ := exists_lineStep unit lines line
      rw [isNext]
      cases step with
      | marker group => exact inductionHypothesis.beginGroup group
      | shown found => exact inductionHypothesis.declare _ found
      | other => exact inductionHypothesis

/-- A name is listed in the group of its last declaration until that group is begun anew. -/
theorem IsLastShown.mem_members_iff
    {lines before after : List Text}
    {found : Declaration}
    (isLast : IsLastShown lines before found after)
    (unit : Text) :
    found.name ∈ (readLines unit lines).catalog.members (lastGroup before) ↔
      ∀ marker ∈ after, groupLabel? marker ≠ some (lastGroup before) := by
  induction lines using List.reverseRecOn generalizing after with
  | nil =>
      obtain ⟨line, split, -⟩ := isLast.exists_line
      simp at split
  | append_singleton lines line inductionHypothesis =>
      have isGrouped := isGrouped_readLines unit lines
      obtain ⟨next, isNext, step⟩ := exists_lineStep unit lines line
      rw [isNext]
      obtain ⟨rfl, rfl, here⟩ | ⟨between, rfl, earlier, declaresOther⟩ := isLast.eq_or_exists
      · cases step with
        | marker _ _ unshown | other _ unshown =>
            rw [unshown] at here
            contradiction
        | shown other _ declares =>
            obtain rfl := Option.some.inj (declares.symm.trans here)
            rw [mem_members_declare_iff isGrouped, group_readLines]
            simp
      · have soFar := inductionHypothesis earlier
        rw [List.forall_mem_append, List.forall_mem_singleton, ← soFar]
        cases step with
        | marker group begins =>
            rw [members_beginGroup, begins]
            by_cases same : group = lastGroup before
            · simp [same]
            · simp [same]
        | shown other unmarked declares =>
            have different := declaresOther other declares
            rw [mem_members_declare_iff isGrouped, unmarked]
            simp [different.symm]
        | other unmarked => simp [unmarked]

/--
The lists of a catalog hold no name twice, not even in two of them.  A name in a
list has a variable in that group, and the group of every variable has a list.
A variable is in no list exactly if its group is begun anew after the last
declaration of the variable.
-/
theorem groups_read (unit source : Text) :
    ((read unit source).groups.entries.flatMap Prod.snd).Nodup ∧
      (∀ group ∈ (read unit source).groups.entries, ∀ name ∈ group.2,
        ∃ declared, (read unit source).find? name = some declared ∧
          declared.group = group.1) ∧
      ∀ name declared, (read unit source).find? name = some declared →
        declared.group ∈ (read unit source).groups.keys ∧
          ∃ before found after,
            IsLastShown source.withoutByteOrderMark.lines before found after ∧
              found.name = name ∧
              ((∀ group ∈ (read unit source).groups.entries, name ∉ group.2) ↔
                ∃ marker ∈ after, groupLabel? marker = some declared.group) := by
  have isGrouped : (read unit source).IsGrouped := isGrouped_readLines unit _
  refine ⟨isGrouped.nodup_flatMap_groups,
    fun group isGroup name isMember => isGrouped.exists_of_mem_groups isGroup isMember,
    fun name declared isFound => ⟨isGrouped.begun name declared isFound, ?_⟩⟩
  obtain ⟨before, found, after, isLast, named, made⟩ :=
    exists_isLastShown_of_find?_readLines isFound
  refine ⟨before, found, after, isLast, named, ?_⟩
  have isGroup : declared.group = lastGroup before := by
    rw [made]
    rfl
  have isListed := isLast.mem_members_iff unit
  rw [← read_eq, named, ← isGroup] at isListed
  rw [isGrouped.forall_not_mem_iff isFound, isListed]
  simp

end Catalog

namespace Sample

/-- A unit with a group that is begun anew after one of its variables and before the other. -/
def resetUnit : Text :=
  "// @group: One\n@x-a: 1px;\n@x-b: 2px;\n// @group: Two\n// @group: One\n@x-b: 3px;"

/-- The groups of the unit: the first variable has left its group. -/
def resetGroups : List (Text × List Text) := [("One", ["x-b"]), ("Two", [])]

end Sample

/-- The group of the first variable is begun anew behind it, so the variable is in no list. -/
theorem Catalog.groups_read_reset :
    (Catalog.read "x" Sample.resetUnit).groups.entries = Sample.resetGroups ∧
      (Catalog.read "x" Sample.resetUnit).find? "x-a" =
        some ⟨"x-a", "1px", .size, "One", "x", "A"⟩ ∧
      (∃ before found after,
        Catalog.IsLastShown (Text.lines Sample.resetUnit) before found after ∧
          found.name = "x-a" ∧ ∃ marker ∈ after, groupLabel? marker = some ("One" : Text)) ∧
      ∃ declared, (Catalog.read "x" Sample.resetUnit).find? "x-b" = some declared ∧
        declared.group = "One" := by
  have groupsEq : (Catalog.read "x" Sample.resetUnit).groups.entries = Sample.resetGroups := by
    decide +kernel
  have isFound : (Catalog.read "x" Sample.resetUnit).find? "x-a" =
      some ⟨"x-a", "1px", .size, "One", "x", "A"⟩ := by decide +kernel
  obtain ⟨-, ofListed, ofFound⟩ := Catalog.groups_read "x" Sample.resetUnit
  rw [groupsEq] at ofListed ofFound
  obtain ⟨-, before, found, after, isLast, named, isMissing⟩ := ofFound _ _ isFound
  exact ⟨groupsEq, isFound,
    ⟨before, found, after, isLast, named, isMissing.1 (by decide)⟩,
    ofListed ("One", ["x-b"]) (by decide) "x-b" (by decide)⟩

end LessTheme
