import LocalFirst.Proofs.Collections
import LocalFirst.Proofs.WrittenEdits
import LocalFirst.Update.Typed

/-!
# The stored form of updates

An update that has been read from the wire is written back to a document from
which the same update is read again.  The readers fix everything that the writers
leave open: paths are cut at every dot, the keys of an object are distinct, and
an equality stands as a plain value.  `Written` says of each part of an update that
it has this form; what a reader returns is written, and what is written survives
the way to the wire and back.
-/

namespace LocalFirst

namespace Update

/-- Every entry has the form that a reader gives it. -/
def Written (update : Update) : Prop :=
  ∀ entry ∈ update.entries.toList, entry.path.Written ∧ entry.edit.Written

theorem mem_entriesOf {update : Update} {operator : Operator} {entry : Entry} :
    entry ∈ update.entriesOf operator ↔
      entry ∈ update.entries.toList ∧ entry.edit.operator = operator := by
  simp [entriesOf]

theorem mem_groups {update : Update} {group : Operator × List Entry} :
    group ∈ update.groups ↔ group.2 = update.entriesOf group.1 ∧ group.2 ≠ [] := by
  simp only [groups, List.mem_filter, List.mem_map, Bool.not_eq_true', List.isEmpty_eq_false_iff]
  constructor
  · rintro ⟨⟨operator, _, rfl⟩, nonempty⟩
    exact ⟨rfl, nonempty⟩
  · rintro ⟨same, nonempty⟩
    exact ⟨⟨group.1, Operator.mem_all _, by rw [← same]⟩, nonempty⟩

theorem isOperatorKey_name (operator : Operator) :
    Document.isOperatorKey operator.name = true := by
  cases operator <;> decide

/-- Read the entries that a member of the wire form lists for an operator. -/
def readMember (member : String × Document) : Except UpdateError (List Entry) :=
  match Operator.ofName? member.1 with
  | none => .error (.malformed (.unknownOperator member.1))
  | some operator => readPayload operator member.2

/-- Read all entries of the wire form, in the order of its members. -/
def readEntries (members : List (String × Document)) : Except UpdateError (List Entry) :=
  if members.all (fun member => !Document.isOperatorKey member.1) then
    .ok (members.map fun member => ⟨Path.parse member.1, .set member.2⟩)
  else if members.all (fun member => Document.isOperatorKey member.1) then
    (members.mapM readMember).map List.flatten
  else .error (.malformed .mixedKeys)

theorem foldl_set_eq (members : List (String × Document)) (update : Update) :
    members.foldl (fun update member => update.set (Path.parse member.1) member.2) update =
      ⟨update.entries.insertAll
        (members.map fun member => ⟨Path.parse member.1, .set member.2⟩)⟩ := by
  induction members generalizing update with
  | nil => rfl
  | cons member rest ih => exact ih _

theorem readGroup_eq (update : Update) (member : String × Document) :
    readGroup update member =
      (readMember member).map fun entries => ⟨update.entries.insertAll entries⟩ := by
  unfold readGroup readMember
  cases Operator.ofName? member.1 with
  | none => rfl
  | some operator => rfl

theorem foldlM_readGroup_eq (members : List (String × Document)) (update : Update) :
    members.foldlM readGroup update =
      (members.mapM readMember).map fun groups => ⟨update.entries.insertAll groups.flatten⟩ := by
  induction members generalizing update with
  | nil => rfl
  | cons member rest ih =>
      rw [List.foldlM_cons, List.mapM_cons, readGroup_eq]
      cases readMember member with
      | error error => rfl
      | ok entries =>
          refine (ih _).trans ?_
          cases rest.mapM readMember with
          | error error => rfl
          | ok groups =>
              refine congrArg (fun entries => Except.ok (Update.mk entries)) ?_
              simp only [Keyed.insertAll, List.flatten_cons, List.foldl_append]

/-- An update is read by collecting the entries of the wire form. -/
theorem ofDocument_eq (members : List (String × Document)) :
    ofDocument (.object members) = (readEntries members).map ofEntries := by
  simp only [ofDocument, readEntries]
  split
  · exact congrArg Except.ok (foldl_set_eq members empty)
  · split
    · rw [foldlM_readGroup_eq]
      cases members.mapM readMember <;> rfl
    · rfl

/-- Entries that are read one by one all have a property if each one has it. -/
theorem forall_entries_of_ofDocument {property : Entry → Prop}
    {members : List (String × Document)} {read : Update}
    (sets : ∀ pair ∈ members, property ⟨Path.parse pair.1, .set pair.2⟩)
    (reads : ∀ member ∈ members, ∀ operator, Operator.ofName? member.1 = some operator →
      ∀ payload, member.2 = .object payload → ∀ pair ∈ payload, ∀ edit,
        Edit.ofDocument operator (Path.parse pair.1) pair.2 = .ok edit →
          property ⟨Path.parse pair.1, edit⟩)
    (succeeds : ofDocument (.object members) = .ok read) :
    ∀ entry ∈ read.entries.toList, property entry := by
  rw [ofDocument_eq, Except.map_eq_ok] at succeeds
  obtain ⟨entries, entriesRead, rfl⟩ := succeeds
  suffices each : ∀ entry ∈ entries, property entry from fun entry collected =>
    each entry (Keyed.mem_of_mem_ofList collected)
  unfold readEntries at entriesRead
  split at entriesRead
  · cases entriesRead
    exact List.forall_mem_map.2 sets
  split at entriesRead
  · obtain ⟨groups, groupsRead, rfl⟩ := Except.map_eq_ok.1 entriesRead
    intro entry member
    obtain ⟨group, inGroups, inGroup⟩ := List.mem_flatten.1 member
    obtain ⟨⟨name, payload⟩, inMembers, groupRead⟩ := Except.exists_mem_of_mapM groupsRead inGroups
    unfold readMember at groupRead
    split at groupRead
    · cases groupRead
    next operator named =>
      cases payload with
      | object pairs =>
          obtain ⟨pair, inPairs, pairRead⟩ := Except.exists_mem_of_mapM groupRead inGroup
          simp only [Except.bind_eq_ok, Except.pure_eq_ok] at pairRead
          obtain ⟨edit, editRead, rfl⟩ := pairRead
          exact reads _ inMembers operator named pairs rfl pair inPairs edit editRead
      | _ => cases groupRead
  · cases entriesRead

/-- Every edit of the update that is read stands under its operator in the document. -/
theorem written_of_stored {update parsed : Update} (succeeds : update.stored = .ok parsed) :
    parsed.Written := by
  refine forall_entries_of_ofDocument
    (fun pair _ => ⟨Path.written_parse pair.1, trivial⟩) ?_ succeeds
  intro member inGroups operator named payload payloadEq pair inPayload edit editRead
  obtain ⟨group, inUpdate, rfl⟩ := List.mem_map.1 inGroups
  obtain ⟨groupEq, _⟩ := mem_groups.1 inUpdate
  simp only [Operator.ofName?_name, Option.some.injEq] at named
  subst named
  simp only [payloadDocument, Document.ofPairs, Document.object.injEq] at payloadEq
  subst payloadEq
  obtain ⟨entry, inGroup, rfl⟩ := List.mem_map.1 (Members.mem_of_mem_ofPairs inPayload)
  rw [groupEq, mem_entriesOf] at inGroup
  refine ⟨Path.written_parse _, Edit.written_of_ofDocument ?_ editRead⟩
  exact inGroup.2 ▸ entry.edit.readsOnce_operandDocument

theorem nodup_texts_entriesOf {update : Update} (written : update.Written)
    (operator : Operator) :
    ((update.entriesOf operator).map (fun entry => entry.path.text)).Nodup := by
  refine List.pairwise_map.2 ((update.entries.increasing.filter _).imp_of_mem ?_)
  intro first second inFirst inSecond below textsEq
  obtain ⟨firstMember, firstOperator⟩ := mem_entriesOf.1 inFirst
  obtain ⟨secondMember, secondOperator⟩ := mem_entriesOf.1 inSecond
  have pathsEq : first.path = second.path := by
    rw [← (written first firstMember).1, ← (written second secondMember).1, textsEq]
  have addressesEq : first.address = second.address := by
    rw [Entry.address, Entry.address, firstOperator, secondOperator, pathsEq]
  simp [addressesEq, Std.ReflCmp.compare_self] at below

theorem readMember_payloadDocument {entries : List Entry} {operator : Operator}
    (written : ∀ entry ∈ entries, entry.path.Written ∧ entry.edit.Written)
    (sameOperator : ∀ entry ∈ entries, entry.edit.operator = operator)
    (nodup : (entries.map (fun entry => entry.path.text)).Nodup) :
    readMember (operator.name, payloadDocument entries) = .ok entries := by
  have pairs : Members.ofPairs
      (entries.map (fun entry => (entry.path.text, entry.edit.operandDocument))) =
        entries.map (fun entry => (entry.path.text, entry.edit.operandDocument)) :=
    Members.ofPairs_eq_self (by simpa [Members.keys, Function.comp_def] using nodup)
  simp only [readMember, Operator.ofName?_name, payloadDocument, Document.ofPairs, pairs,
    readPayload]
  refine Except.mapM_map_eq_ok fun entry member => ?_
  obtain ⟨pathWritten, editWritten⟩ := written entry member
  have pathRead : Path.parse entry.path.text = entry.path := pathWritten
  have editRead := Edit.ofDocument_operandDocument editWritten entry.path
  rw [sameOperator entry member] at editRead
  simp [pathRead, editRead]

/-- The groups of an update are read entry for entry. -/
theorem readEntries_groups {update : Update} (written : update.Written) :
    readEntries (update.groups.map fun group => (group.1.name, payloadDocument group.2)) =
      .ok (update.groups.flatMap Prod.snd) := by
  have operators : (update.groups.map
      (fun group => (group.1.name, payloadDocument group.2))).all
        (fun member => Document.isOperatorKey member.1) = true := by
    simp [isOperatorKey_name]
  rw [readEntries, if_pos operators]
  split
  next plain =>
    have noGroups : update.groups = [] := by
      refine List.eq_nil_iff_forall_not_mem.2 fun group member => ?_
      have := List.all_eq_true.1 plain _ (List.mem_map_of_mem member)
      simp [isOperatorKey_name] at this
    rw [noGroups]
    rfl
  · have groupsRead : (update.groups.map fun group =>
        (group.1.name, payloadDocument group.2)).mapM readMember =
          .ok (update.groups.map Prod.snd) := by
      rw [Except.mapM_eq_ok_iff, List.forall₂_map_left_iff, List.forall₂_map_right_iff]
      refine List.forall₂_same.2 fun group member => ?_
      have groupEq := (mem_groups.1 member).1
      exact readMember_payloadDocument
        (fun entry inGroup => written entry (mem_entriesOf.1 (groupEq ▸ inGroup)).1)
        (fun entry inGroup => (mem_entriesOf.1 (groupEq ▸ inGroup)).2)
        (groupEq ▸ nodup_texts_entriesOf written group.1)
    rw [groupsRead]
    exact congrArg Except.ok (List.flatMap_def ..).symm

/-- An update in the form of a reader is read back from its wire form. -/
theorem stored_of_written {update : Update} (written : update.Written) :
    update.stored = .ok update := by
  have collects : ofEntries (update.groups.flatMap Prod.snd) = update := by
    refine congrArg Update.mk (Keyed.ofList_eq_of_mem_iff fun entry => ?_)
    rw [List.mem_flatMap]
    constructor
    · rintro ⟨group, inGroups, inGroup⟩
      rw [(mem_groups.1 inGroups).1, mem_entriesOf] at inGroup
      exact inGroup.1
    · intro member
      have inGroup := mem_entriesOf.2 ⟨member, rfl⟩
      exact ⟨(entry.edit.operator, update.entriesOf entry.edit.operator),
        mem_groups.2 ⟨rfl, List.ne_nil_of_mem inGroup⟩, inGroup⟩
  rw [stored, toDocument, ofDocument_eq, readEntries_groups written]
  exact congrArg Except.ok collects

/-- The stored form is a fixed point of storing. -/
theorem stored_of_stored {update parsed : Update} (succeeds : update.stored = .ok parsed) :
    parsed.stored = .ok parsed :=
  stored_of_written (written_of_stored succeeds)

theorem mapM_stored_eq_ok {updates : List Update}
    (stored : ∀ update ∈ updates, update.stored = .ok update) :
    updates.mapM Update.stored = .ok updates := by
  have reads : (updates.map id).mapM Update.stored = .ok updates := Except.mapM_map_eq_ok stored
  rwa [List.map_id] at reads

theorem stored_of_mapM_stored {updates parsed : List Update}
    (succeeds : updates.mapM Update.stored = .ok parsed) :
    ∀ update ∈ parsed, update.stored = .ok update := by
  intro update member
  obtain ⟨_, _, read⟩ := Except.exists_mem_of_mapM succeeds member
  exact stored_of_stored read

end Update

end LocalFirst
