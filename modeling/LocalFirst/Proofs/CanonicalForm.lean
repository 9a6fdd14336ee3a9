import LocalFirst.Proofs.GroupSearch

/-!
# The canonical form of updates

An update lists its edits in groups, one for each operator that occurs.  It can be put together from
groups in any order: a group is looked up by its operator, by binary search in the groups that are
there, and takes over the new edits or makes room for a new group.  The search is right only as long
as the groups increase and no operator occurs twice, and putting groups together keeps it so.  The
list that comes out this way is the one that the update lists, whatever the steps by which both have
been built, and so the laws of merging are those of finite maps in which the second one wins.
-/

namespace LocalFirst

namespace Update

/-- To put the edits of one operator among the groups is to insert them. -/
theorem Lists.put_collect {groups : List Group} {update : Update} (lists : Lists groups update)
    {operator : Operator} {entries : List Entry}
    (ofOperator : ∀ entry ∈ entries, entry.edit.operator = operator) :
    Lists (Update.put groups (.collect operator entries)) ⟨update.entries.insertAll entries⟩ := by
  have collected : (Group.collect operator entries).entries = Keyed.ofList entries :=
    congrArg Keyed.ofList
      (List.filter_eq_self.2 fun entry member => by simp [ofOperator entry member])
  have added := lists.put (.collect operator entries)
  rwa [collected, merge, Keyed.merge_ofList] at added

theorem operator_of_readPayload {operator : Operator} {payload : Document} {entries : List Entry}
    (read : readPayload operator payload = .ok entries) :
    ∀ entry ∈ entries, entry.edit.operator = operator := by
  intro entry member
  unfold readPayload at read
  split at read
  next members =>
    obtain ⟨pair, _, pairRead⟩ := Except.exists_mem_of_mapM read member
    simp only [Except.bind_eq_ok, Except.pure_eq_ok] at pairRead
    obtain ⟨edit, editRead, rfl⟩ := pairRead
    exact Edit.operator_of_ofDocument editRead
  · cases read

/-- A member of the wire form goes into the groups as it goes into the update. -/
theorem corresponds_putMember {groups : List Group} {update : Update}
    (lists : Lists groups update) (member : String × Document) :
    Except.Corresponds Lists (putMember groups member) (readGroup update member) := by
  unfold putMember readGroup
  cases named : Operator.ofName? member.1 with
  | none => rfl
  | some operator =>
      cases read : readPayload operator member.2 with
      | error error =>
          simp only [read]
          rfl
      | ok entries =>
          simp only [read]
          exact lists.put_collect (operator_of_readPayload read)

theorem Lists.setEach {groups : List Group} {update : Update} (lists : Lists groups update)
    (members : List (String × Document)) :
    Lists
      (members.foldl (fun groups member =>
        Update.put groups (.collect .set [⟨Path.parse member.1, .set member.2⟩])) groups)
      (members.foldl (fun update member => update.set (Path.parse member.1) member.2) update) := by
  induction members generalizing groups update with
  | nil => exact lists
  | cons member rest ih => exact ih (lists.put_collect (by simp [Edit.operator]))

/-- The wire form is read into groups as it is read into an update. -/
theorem corresponds_readGroups (document : Document) :
    Except.Corresponds Lists (readGroups document) (ofDocument document) := by
  cases document with
  | object members =>
      simp only [readGroups, ofDocument]
      by_cases plain : members.all (fun member => !Document.isOperatorKey member.1) = true
      · rw [if_pos plain, if_pos plain]
        exact lists_empty.setEach members
      · rw [if_neg plain, if_neg plain]
        split
        · refine Except.Corresponds.foldlM (List.forall₂_eq_eq_eq ▸ rfl) ?_ lists_empty
          rintro member _ groups update rfl lists
          exact corresponds_putMember lists member
        · rfl
  | _ => rfl

/-- Whatever the steps, they lead to an update and to the groups that it lists, or fail alike. -/
theorem corresponds_construction (construction : Construction) :
    Except.Corresponds Lists construction.groups construction.update := by
  induction construction with
  | nothing => exact lists_empty
  | editing before path edit ih =>
      refine ih.bind fun groups update lists => ?_
      exact lists.put_collect (by simp)
  | adding before group ih => exact ih.bind fun groups update lists => lists.put group
  | merging first second firstIH secondIH =>
      refine firstIH.bind fun groups update lists => secondIH.bind fun others other otherLists => ?_
      have added := lists.putAll others
      rwa [← otherLists.entries_eq] at added
  | collecting groups => exact lists_empty.putAll groups
  | reading document => exact corresponds_readGroups document

/-- However an update is put together, it lists the groups that the same steps put together, which
increase by their operators and are not empty.  Updates form a monoid of idempotents under merging,
which keeps at each address what the second one has and otherwise what the first one has.  Groups
that have no address in common, or even twice, can be put together in any order. -/
theorem canonical_of_construction :
    (∀ construction : Construction, Except.Corresponds
      (fun groups update => groups.map Group.listed = update.groups ∧ Increasing groups ∧
        ∀ group ∈ groups, group.entries.toList ≠ [])
      construction.groups construction.update) ∧
    (∀ first second third : Update,
      (first.merge second).merge third = first.merge (second.merge third)) ∧
    (∀ update : Update, empty.merge update = update ∧ update.merge empty = update ∧
      update.merge update = update) ∧
    (∀ (first second : Update) (address : Address), (first.merge second).entries.find? address =
      (second.entries.find? address).or (first.entries.find? address)) ∧
    ∀ groups others : List Group, groups.Perm others →
      (groups.flatMap fun group => group.entries.toList.map Entry.address).Nodup →
      (Construction.collecting groups).update = (Construction.collecting others).update := by
  refine ⟨fun construction => ?_, merge_assoc, fun update =>
    ⟨empty_merge update, merge_empty update, merge_self update⟩,
    fun first second => first.entries.find?_merge second.entries,
    fun groups others permuted nodup => ?_⟩
  · rcases Except.corresponds_iff.1 (corresponds_construction construction) with
      ⟨groups, update, builtGroups, built, lists⟩ | ⟨fault, failedGroups, failed⟩
    · rw [builtGroups, built]
      exact ⟨lists.groups_eq, lists.increasing, lists.nonempty⟩
    · rw [failedGroups, failed]
      rfl
  · rw [← List.map_flatMap] at nodup
    exact congrArg (Except.ok ∘ Update.mk)
      (Keyed.ofList_eq_of_perm (permuted.flatMap_right _) nodup)

/-- Two groups of one operator, with another one between them. -/
def scatteredGroups : List Group :=
  [.collect .inc [⟨⟨["n"]⟩, .inc (.int 1)⟩], .collect .set [⟨⟨["n"]⟩, .set .null⟩],
    .collect .inc [⟨⟨["m", "n"]⟩, .inc (.int 2)⟩, ⟨⟨["m"]⟩, .inc (.int 3)⟩]]

theorem canonical_of_construction_reversed :
    scatteredGroups.Perm scatteredGroups.reverse ∧
      (scatteredGroups.flatMap fun group => group.entries.toList.map Entry.address).Nodup ∧
      (Construction.collecting scatteredGroups).update =
        (Construction.collecting scatteredGroups.reverse).update := by
  have permuted : scatteredGroups.Perm scatteredGroups.reverse :=
    (List.reverse_perm scatteredGroups).symm
  have nodup : (scatteredGroups.flatMap fun group =>
      group.entries.toList.map Entry.address).Nodup := by
    decide +kernel
  exact ⟨permuted, nodup, canonical_of_construction.2.2.2.2 _ _ permuted nodup⟩

end Update

end LocalFirst
