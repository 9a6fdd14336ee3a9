import LocalFirst.Proofs.Constructions
import LocalFirst.Proofs.StoredForm

/-!
# Looking up a group by binary search

The search is right as long as the groups increase and no operator occurs twice, and putting a group
where the search has ended keeps it so.  The groups then list the entries of the update to which
they belong.
-/

universe u

namespace LocalFirst

namespace Update

/-- What a place says about the groups. -/
def Place.Splits (groups : List Group) (wanted : Operator) : Place → Prop
  | .found place => ∃ before group after, groups = before ++ group :: after ∧
      before.length = place ∧ group.operator = wanted
  | .gap place => ∃ before after, groups = before ++ after ∧ before.length = place ∧
      (∀ group ∈ before, compare group.operator wanted = .lt) ∧
        ∀ group ∈ after, compare wanted group.operator = .lt

/-- The groups increase by their operators. -/
def Increasing (groups : List Group) : Prop :=
  groups.Pairwise fun group later => compare group.operator later.operator = .lt

/-- What stands in the middle parts increasing groups into lower and higher ones. -/
theorem Increasing.parts {groups : List Group} (increasing : Increasing groups) {middle : Nat}
    {group : Group} (found : groups[middle]? = some group) :
    groups.take (middle + 1) = groups.take middle ++ [group] ∧
      groups.drop middle = group :: groups.drop (middle + 1) ∧
      (∀ lower ∈ groups.take middle, compare lower.operator group.operator = .lt) ∧
      ∀ higher ∈ groups.drop (middle + 1), compare group.operator higher.operator = .lt := by
  obtain ⟨inside, rfl⟩ := List.getElem?_eq_some_iff.1 found
  have cut := List.drop_eq_getElem_cons inside
  rw [Increasing, ← List.take_append_drop middle groups, List.pairwise_append, cut,
    List.pairwise_cons] at increasing
  exact ⟨by rw [List.take_add_one, found, Option.toList_some], cut, fun lower member =>
    increasing.2.2 lower member _ List.mem_cons_self, increasing.2.1.1⟩

/-- Among increasing groups, the search finds the group of an operator or the place where it is
missing. -/
theorem splits_seek {groups : List Group} (wanted : Operator) {low high : Nat}
    (increasing : Increasing groups) (ordered : low ≤ high) (within : high ≤ groups.length)
    (below : ∀ group ∈ groups.take low, compare group.operator wanted = .lt)
    (above : ∀ group ∈ groups.drop high, compare wanted group.operator = .lt) :
    (seek groups wanted low high).Splits groups wanted := by
  fun_induction seek groups wanted low high with
  | case1 low high unfinished middle missing =>
      rw [List.getElem?_eq_none_iff] at missing
      omega
  | case2 low high unfinished middle group found order ih =>
      obtain ⟨taken, _, lowerThan, _⟩ := increasing.parts found
      refine ih (by omega) within ?_ above
      rw [taken]
      intro lower member
      rcases List.mem_append.1 member with inLower | isGroup
      · exact Std.TransCmp.lt_trans (lowerThan lower inLower) order
      · exact List.mem_singleton.1 isGroup ▸ order
  | case3 low high unfinished middle group found order =>
      obtain ⟨inside, _⟩ := List.getElem?_eq_some_iff.1 found
      obtain ⟨_, dropped, _⟩ := increasing.parts found
      refine ⟨groups.take middle, group, groups.drop (middle + 1), ?_, ?_,
        Std.LawfulEqOrd.eq_of_compare order⟩
      · rw [← dropped, List.take_append_drop]
      · rw [List.length_take, Nat.min_eq_left (Nat.le_of_lt inside)]
  | case4 low high unfinished middle group found order ih =>
      obtain ⟨_, dropped, _, higherThan⟩ := increasing.parts found
      have orderBack : compare wanted group.operator = .lt := Std.OrientedCmp.lt_of_gt order
      refine ih (by omega) (by omega) below ?_
      rw [dropped]
      exact List.forall_mem_cons.2 ⟨orderBack, fun higher member =>
        Std.TransCmp.lt_trans orderBack (higherThan higher member)⟩
  | case5 low high finished =>
      obtain rfl : low = high := by omega
      refine ⟨groups.take low, groups.drop low, (List.take_append_drop low groups).symm, ?_, below,
        above⟩
      rw [List.length_take, Nat.min_eq_left within]

/-- The groups increase and none is empty, and together they hold the entries of an update. -/
structure Lists (groups : List Group) (update : Update) : Prop where
  increasing : Increasing groups
  nonempty : ∀ group ∈ groups, group.entries.toList ≠ []
  entries : ∀ entry, entry ∈ update.entries.toList ↔
    ∃ group ∈ groups, entry ∈ group.entries.toList

theorem lists_empty : Lists [] Update.empty where
  increasing := .nil
  nonempty := by simp
  entries entry := iff_of_false List.not_mem_nil (by simp)

/-- A group has nothing under the address of an entry of another operator. -/
theorem Group.find?_eq_none_of_ne {group : Group} {entry : Entry}
    (differ : entry.edit.operator ≠ group.operator) :
    group.entries.find? entry.address = none := by
  rw [Keyed.find?_eq_none_iff]
  intro other member equal
  have addressesEq : other.address = entry.address := Std.LawfulEqOrd.eq_of_compare equal
  have operatorsEq : other.edit.operator = entry.edit.operator :=
    congrArg Address.operator addressesEq
  exact differ (operatorsEq.symm.trans (group.ofOperator other member))

theorem Group.find?_eq_none_of_isEmpty {group : Group} (isEmpty : group.isEmpty = true)
    (address : Address) : group.entries.find? address = none := by
  have nothing : group.entries.toList = [] := List.isEmpty_iff.1 isEmpty
  rw [Keyed.find?_eq_none_iff, nothing]
  simp

/-- The entries of a group that has absorbed another one of its operator. -/
theorem Group.mem_absorb {group other : Group} (sameOperator : group.operator = other.operator)
    {entry : Entry} : entry ∈ (group.absorb other).entries.toList ↔
      entry ∈ other.entries.toList ∨
        other.entries.find? entry.address = none ∧ entry ∈ group.entries.toList := by
  rw [absorb, dif_pos sameOperator.symm]
  exact Keyed.mem_merge

theorem Group.operator_absorb (group other : Group) :
    (group.absorb other).operator = other.operator := by
  unfold absorb
  split
  next same => exact same.symm
  · rfl

theorem modify_append {α : Type u} (change : α → α) (before after : List α) (item : α) :
    (before ++ item :: after).modify before.length change = before ++ change item :: after := by
  induction before with
  | nil => rfl
  | cons first rest ih => simp [ih]

theorem insertIdx_append {α : Type u} (before after : List α) (item : α) :
    (before ++ after).insertIdx before.length item = before ++ item :: after := by
  induction before with
  | nil => rfl
  | cons first rest ih => simp [ih]

theorem increasing_append_cons_iff {before after : List Group} {group : Group} :
    Increasing (before ++ group :: after) ↔ Increasing (before ++ after) ∧
      (∀ lower ∈ before, compare lower.operator group.operator = .lt) ∧
        ∀ higher ∈ after, compare group.operator higher.operator = .lt := by
  simp only [Increasing, List.pairwise_append, List.pairwise_cons, List.forall_mem_cons]
  constructor
  · rintro ⟨beforeIncreasing, ⟨higherThan, afterIncreasing⟩, apart⟩
    exact ⟨⟨beforeIncreasing, afterIncreasing, fun lower member => (apart lower member).2⟩,
      fun lower member => (apart lower member).1, higherThan⟩
  · rintro ⟨⟨beforeIncreasing, afterIncreasing, apart⟩, lowerThan, higherThan⟩
    exact ⟨beforeIncreasing, ⟨higherThan, afterIncreasing⟩, fun lower member =>
      ⟨lowerThan lower member, apart lower member⟩⟩

theorem exists_mem_middle {α : Type u} {holds : α → Prop} {before after : List α} {item : α} :
    (∃ other ∈ before ++ item :: after, holds other) ↔
      holds item ∨ ∃ other ∈ before ++ after, holds other := by
  simp only [List.mem_append, List.mem_cons, or_and_right, exists_or, exists_eq_left]
  exact or_left_comm

theorem forall_mem_middle {α : Type u} {holds : α → Prop} {before after : List α} {item : α} :
    (∀ other ∈ before ++ item :: after, holds other) ↔
      holds item ∧ ∀ other ∈ before ++ after, holds other := by
  simp only [List.forall_mem_append, List.forall_mem_cons]
  exact and_left_comm

/-- Lower and higher groups hold nothing under the addresses of a group between them. -/
theorem find?_eq_none_of_between {before after : List Group} {group : Group} {entry : Entry}
    (lowerThan : ∀ lower ∈ before, compare lower.operator group.operator = .lt)
    (higherThan : ∀ higher ∈ after, compare group.operator higher.operator = .lt)
    (elsewhere : ∃ other ∈ before ++ after, entry ∈ other.entries.toList) :
    group.entries.find? entry.address = none := by
  obtain ⟨other, member, inOther⟩ := elsewhere
  refine Group.find?_eq_none_of_ne fun same => ?_
  rw [other.ofOperator entry inOther] at same
  rcases List.mem_append.1 member with inBefore | inAfter
  · have lower := lowerThan other inBefore
    simp [same, Std.ReflCmp.compare_self] at lower
  · have higher := higherThan other inAfter
    simp [same, Std.ReflCmp.compare_self] at higher

/-- Putting a group among others adds its entries to the update that they list. -/
theorem Lists.put {groups : List Group} {update : Update} (lists : Lists groups update)
    (group : Group) : Lists (put groups group) (update.merge ⟨group.entries⟩) := by
  have merged : ∀ entry, entry ∈ (update.merge ⟨group.entries⟩).entries.toList ↔
      entry ∈ group.entries.toList ∨ group.entries.find? entry.address = none ∧
        ∃ group ∈ groups, entry ∈ group.entries.toList := fun entry => by
    rw [← lists.entries]
    exact Keyed.mem_merge
  unfold Update.put
  split
  next isEmpty =>
    refine ⟨lists.increasing, lists.nonempty, fun entry => ?_⟩
    have nothing : group.entries.toList = [] := List.isEmpty_iff.1 isEmpty
    simp [merged, nothing, Group.find?_eq_none_of_isEmpty isEmpty]
  next filled =>
    obtain ⟨first, inGroup⟩ : ∃ entry, entry ∈ group.entries.toList :=
      List.exists_mem_of_ne_nil _ fun nothing => filled (List.isEmpty_iff.2 nothing)
    have splits := splits_seek group.operator lists.increasing (Nat.zero_le _)
      (Nat.le_refl _) (by simp) (by simp)
    split
    next place found =>
      rw [found] at splits
      obtain ⟨before, present, after, rfl, rfl, sameOperator⟩ := splits
      obtain ⟨others, lowerThan, higherThan⟩ := increasing_append_cons_iff.1 lists.increasing
      rw [sameOperator] at lowerThan higherThan
      rw [modify_append]
      refine ⟨increasing_append_cons_iff.2 ?_, forall_mem_middle.2 ⟨?_, ?_⟩, fun entry => ?_⟩
      · rw [Group.operator_absorb]
        exact ⟨others, lowerThan, higherThan⟩
      · exact List.ne_nil_of_mem ((Group.mem_absorb sameOperator).2 (.inl inGroup))
      · exact (forall_mem_middle.1 lists.nonempty).2
      · rw [merged, exists_mem_middle, exists_mem_middle, Group.mem_absorb sameOperator,
          and_or_left, or_assoc,
          and_iff_right_of_imp (find?_eq_none_of_between lowerThan higherThan)]
    next place found =>
      rw [found] at splits
      obtain ⟨before, after, rfl, rfl, lowerThan, higherThan⟩ := splits
      rw [insertIdx_append]
      refine ⟨increasing_append_cons_iff.2 ⟨lists.increasing, lowerThan, higherThan⟩,
        forall_mem_middle.2 ⟨List.ne_nil_of_mem inGroup, lists.nonempty⟩, fun entry => ?_⟩
      rw [merged, exists_mem_middle,
        and_iff_right_of_imp (find?_eq_none_of_between lowerThan higherThan)]

/-- Putting groups among others one after another adds the entries of all of them. -/
theorem Lists.putAll {groups : List Group} {update : Update} (lists : Lists groups update)
    (others : List Group) : Lists (putAll groups others)
      ⟨update.entries.insertAll (others.flatMap fun group => group.entries.toList)⟩ := by
  induction others generalizing groups update with
  | nil => exact lists
  | cons group rest ih =>
      have inserted := ih (lists.put group)
      rw [List.flatMap_cons, Keyed.insertAll, List.foldl_append]
      exact inserted

/-- An update lists the entries of its groups one group after another. -/
theorem Lists.entries_eq {groups : List Group} {update : Update} (lists : Lists groups update) :
    update.entries.toList = groups.flatMap fun group => group.entries.toList := by
  have increasing : (groups.flatMap fun group => group.entries.toList).Pairwise
      fun entry later => compare entry.address later.address = .lt := by
    refine List.pairwise_flatMap.2 ⟨fun group _ => group.entries.increasing,
      lists.increasing.imp fun {group later} below entry inGroup other inLater => ?_⟩
    rw [Entry.compare_address, group.ofOperator entry inGroup, later.ofOperator other inLater,
      below]
    rfl
  have same : update.entries = ⟨_, increasing⟩ := Keyed.ext_mem fun entry => by
    rw [lists.entries, List.mem_flatMap]
  rw [same]

theorem increasing_all :
    Operator.all.Pairwise fun operator later => compare operator later = .lt := by
  decide

/-- The entries of an operator are those of its group. -/
theorem Lists.entriesOf_eq {groups : List Group} {update : Update} (lists : Lists groups update)
    {group : Group} (member : group ∈ groups) :
    update.entriesOf group.operator = group.entries.toList := by
  have nodup : (groups.map Group.operator).Nodup :=
    List.pairwise_map.2 (lists.increasing.imp fun below same => by
      simp [same, Std.ReflCmp.compare_self] at below)
  suffices same : update.entries.filter (fun entry => entry.edit.operator = group.operator) =
      group.entries from congrArg Keyed.toList same
  refine Keyed.ext_mem fun entry => mem_entriesOf.trans ?_
  rw [lists.entries]
  constructor
  · rintro ⟨⟨other, inGroups, inOther⟩, sameOperator⟩
    rw [other.ofOperator entry inOther] at sameOperator
    rwa [← List.inj_on_of_nodup_map nodup inGroups member sameOperator]
  · exact fun inGroup => ⟨⟨group, member, inGroup⟩, group.ofOperator entry inGroup⟩

/-- The groups are those that the update lists. -/
theorem Lists.groups_eq {groups : List Group} {update : Update} (lists : Lists groups update) :
    groups.map Group.listed = update.groups := by
  have listedIncreasing : (groups.map Group.listed).Pairwise
      fun group later => compare group.1 later.1 = .lt :=
    List.pairwise_map.2 lists.increasing
  have groupsIncreasing : update.groups.Pairwise
      fun group later => compare group.1 later.1 = .lt :=
    (List.pairwise_map.2 increasing_all).filter _
  suffices same : (⟨_, listedIncreasing⟩ : Keyed (Operator × List Entry) Prod.fst) =
      ⟨_, groupsIncreasing⟩ from congrArg Keyed.toList same
  refine Keyed.ext_mem fun group => ?_
  rw [mem_groups, List.mem_map]
  constructor
  · rintro ⟨group, member, rfl⟩
    exact ⟨(lists.entriesOf_eq member).symm, lists.nonempty group member⟩
  · rintro ⟨listedEq, filled⟩
    obtain ⟨entry, inListed⟩ := List.exists_mem_of_ne_nil _ filled
    rw [listedEq, mem_entriesOf, lists.entries] at inListed
    obtain ⟨⟨other, inGroups, inOther⟩, sameOperator⟩ := inListed
    rw [other.ofOperator entry inOther] at sameOperator
    refine ⟨other, inGroups, Prod.ext sameOperator ?_⟩
    rw [listedEq, ← sameOperator, lists.entriesOf_eq inGroups, Group.listed]

end Update

end LocalFirst
