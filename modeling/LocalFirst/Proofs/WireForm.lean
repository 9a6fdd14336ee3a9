import LocalFirst.Proofs.StoredForm

/-!
# Reading and writing updates

A document in which no object repeats a key is read as an update that is written back
to a document from which the same update is read again.  Reading looks for operator keys
on several levels: in the document, in the operand of a push or of a joined set, and in a
condition at every depth.  Wherever it reads an object, distinct keys let it take each member
for itself, so that what it returns has the form that survives writing.
-/

namespace LocalFirst

namespace Document

theorem memberKeysDistinct_iff {members : List (String × Document)} :
    MemberKeysDistinct members ↔ ∀ member ∈ members, member.2.KeysDistinct := by
  induction members with
  | nil => simp [MemberKeysDistinct]
  | cons member rest ih => simp [MemberKeysDistinct, ih]

theorem keysDistinct_object {members : List (String × Document)} :
    (object members).KeysDistinct ↔
      (Members.keys members).Nodup ∧ ∀ member ∈ members, member.2.KeysDistinct := by
  rw [KeysDistinct, memberKeysDistinct_iff]

theorem KeysDistinct.top {document : Document} (distinct : document.KeysDistinct) :
    document.TopKeysDistinct := by
  rintro members rfl
  exact (keysDistinct_object.1 distinct).1

end Document

/-- The rule by which a push sorts is itself a document in which no key repeats. -/
theorem Push.sortKeysDistinct_of_keysDistinct {operand : Document}
    (distinct : operand.KeysDistinct) : Push.SortKeysDistinct operand := by
  rintro members rfl rule member
  exact ((Document.keysDistinct_object.1 distinct).2 _ member).top

namespace Condition

mutual

theorem readsOnce_of_keysDistinct {document : Document} (distinct : document.KeysDistinct) :
    ReadsOnce document := by
  match document with
  | .object members =>
      exact ⟨distinct.1, fun _ => fieldsReadOnce_of_memberKeysDistinct distinct.2⟩
  | .null | .bool _ | .int _ | .float _ | .string _ | .array _ => exact trivial

theorem fieldsReadOnce_of_memberKeysDistinct {members : List (String × Document)}
    (distinct : Document.MemberKeysDistinct members) : FieldsReadOnce members := by
  match members with
  | [] => exact trivial
  | (_, operand) :: rest =>
      exact ⟨readsOnce_of_keysDistinct distinct.1,
        fieldsReadOnce_of_memberKeysDistinct distinct.2⟩

end

end Condition

theorem Edit.readsOnce_of_keysDistinct (operator : Operator) {operand : Document}
    (distinct : operand.KeysDistinct) : Edit.ReadsOnce operator operand := by
  cases operator with
  | bit => exact distinct.top
  | push => exact Push.sortKeysDistinct_of_keysDistinct distinct
  | pull => exact Condition.readsOnce_of_keysDistinct distinct
  | _ => trivial

namespace Update

/-- Only an object is read as an update. -/
theorem exists_members_of_ofDocument {document : Document} {update : Update}
    (read : ofDocument document = .ok update) : ∃ members, document = .object members := by
  cases document with
  | object members => exact ⟨members, rfl⟩
  | _ => cases read

/-- Each entry is read from an operand of its own: from a member that is set, or from a
member of the payload of an operator. -/
theorem written_of_ofDocument {document : Document} {update : Update}
    (distinct : document.KeysDistinct) (read : ofDocument document = .ok update) :
    update.Written := by
  obtain ⟨members, rfl⟩ := exists_members_of_ofDocument read
  have operandsDistinct := (Document.keysDistinct_object.1 distinct).2
  refine forall_entries_of_ofDocument
    (fun pair _ => ⟨Path.written_parse pair.1, trivial⟩) ?_ read
  intro member inMembers operator _ payload payloadEq pair inPayload edit editRead
  have payloadDistinct : (Document.object payload).KeysDistinct :=
    payloadEq ▸ operandsDistinct member inMembers
  have operandDistinct := (Document.keysDistinct_object.1 payloadDistinct).2 pair inPayload
  have once := Edit.readsOnce_of_keysDistinct operator operandDistinct
  exact ⟨Path.written_parse pair.1, Edit.written_of_ofDocument once editRead⟩

/-- What is read from a document is read again, entry for entry, from the document to which
it is written, and so writing what has been read changes nothing any more.  The operands need
not even equal themselves: not-a-number comes back as well. -/
theorem ofDocument_toDocument_of_ofDocument {document : Document} {update : Update}
    (distinct : document.KeysDistinct) (read : ofDocument document = .ok update) :
    ofDocument update.toDocument = .ok update ∧
      (ofDocument update.toDocument).map toDocument = .ok update.toDocument := by
  have written : update.Written := written_of_ofDocument distinct read
  have readsBack : ofDocument update.toDocument = .ok update := stored_of_written written
  rw [readsBack]
  exact ⟨rfl, rfl⟩

/-- Each operator once and those with several forms once in each, with a condition on the
fields of fields. -/
def everyOperator : Document :=
  .object
    [("$set", .object [("title", .string "all"), ("author.name", .object [("$first", .null)])]),
      ("$unset", .object [("draft", .bool true)]),
      ("$rename", .object [("body", .string "text")]),
      ("$inc", .object [("views", .int 1)]),
      ("$mul", .object [("price", .float 1.5)]),
      ("$min", .object [("low", .null)]),
      ("$max", .object [("high", .array [])]),
      ("$bit", .object [("flags", .object [("or", .int 4), ("and", .int 6)])]),
      ("$currentDate", .object
        [("day", .bool true), ("hour", .object [("$type", .string "timestamp")])]),
      ("$push", .object
        [("tags", .string "one"),
          ("log", .object [("$sort", .object [("at", .int 1), ("by.name", .int (-1))]),
            ("$each", .array [.int 1, .int 2]), ("$slice", .int (-3)), ("$position", .int 0)])]),
      ("$addToSet", .object
        [("seen", .string "one"), ("marks", .object [("$each", .array [.int 1, .int 2])])]),
      ("$pull", .object
        [("tags", .object [("$eq", .string "old")]),
          ("items", .object [("size", .object [("$gt", .int 1), ("$lte", .int 9)]),
            ("parts", .object [("kind", .object [("$in", .array [.null])])])])]),
      ("$pop", .object [("queue", .int (-1))])]

theorem keysDistinct_everyOperator : everyOperator.KeysDistinct := by
  simp [everyOperator, Document.KeysDistinct, Document.ItemKeysDistinct,
    Document.MemberKeysDistinct, Members.keys]

theorem ofDocument_toDocument_everyOperator : ∃ update,
    ofDocument everyOperator = .ok update ∧ update.entries.toList.length = 18 ∧
      ofDocument update.toDocument = .ok update ∧
      (ofDocument update.toDocument).map toDocument = .ok update.toDocument := by
  have count : (ofDocument everyOperator).toOption.map
      (fun update => update.entries.toList.length) = some 18 := by
    decide +kernel
  cases read : ofDocument everyOperator with
  | error error => simp [read, Except.toOption] at count
  | ok update =>
      rw [read] at count
      exact ⟨update, rfl, Option.some.inj count,
        ofDocument_toDocument_of_ofDocument keysDistinct_everyOperator read⟩

end Update

end LocalFirst
