import LocalFirst.Proofs.WrittenConditions

/-!
# Conditions that have been read

What has been read as a condition is written, and it lists no operator and no field twice when the
document does not.
-/

namespace LocalFirst

namespace Condition

/-- What is read from an object of operators is written, as no operator repeats. -/
theorem written_ofParts {path : Path} {members : List (String × Document)}
    {parts : List Condition} (nonempty : members ≠ []) (nodup : (Members.keys members).Nodup)
    (read : members.mapM (fun member => ofOperator path member.1 member.2) = .ok parts) :
    (ofParts parts).Written := by
  have found : ∀ part ∈ parts, part.operatorMember?.isSome := by
    intro part inParts
    obtain ⟨member, _, partRead⟩ := Except.exists_mem_of_mapM read inParts
    simp [ofOperator_eq_ok_iff.1 partRead]
  have membersEq : parts.filterMap operatorMember? = members := by
    clear nonempty nodup found
    rw [Except.mapM_eq_ok_iff] at read
    induction read with
    | nil => rfl
    | cons firstRead _ ih => simp [ofOperator_eq_ok_iff.1 firstRead, ih]
  unfold ofParts
  split
  · trivial
  next part notEquality =>
    obtain ⟨member, partFound⟩ := Option.isSome_iff_exists.1 (found part (by simp))
    cases part with
    | compares comparison operand =>
        exact fun equality => notEquality operand (by rw [equality])
    | isIn | notIn => trivial
    | _ => simp [operatorMember?] at partFound
  next notEquality notSingle =>
    refine ⟨?_, found, membersEq.symm ▸ nodup⟩
    rcases parts with _ | ⟨part, _ | ⟨second, rest⟩⟩
    · exact absurd (by simpa using membersEq.symm) nonempty
    · exact absurd rfl (notSingle part)
    · simp

mutual

theorem written_of_ofDocument {path : Path} {document : Document} {condition : Condition}
    (once : ReadsOnce document) (read : ofDocument path document = .ok condition) :
    condition.Written := by
  match document with
  | .object members =>
      obtain ⟨nodup, fieldsOnce⟩ := once
      unfold ofDocument at read
      split at read
      · cases read
        trivial
      next nonempty =>
        split at read
        · rw [Except.map_eq_ok] at read
          obtain ⟨parts, partsRead, rfl⟩ := read
          exact written_ofParts (by simpa using nonempty) nodup partsRead
        split at read
        · simp at read
        next plain =>
          rw [Except.map_eq_ok] at read
          obtain ⟨conditions, fieldsRead, rfl⟩ := read
          have noOperators := Bool.eq_false_iff.2 plain
          obtain ⟨written, texts⟩ := fieldsWritten_of_ofFields (fieldsOnce noOperators)
            (fun member inMembers => by simpa using List.any_eq_false.1 noOperators member inMembers)
            fieldsRead
          refine ⟨?_, texts ▸ nodup, written⟩
          rintro rfl
          simp only [List.map_nil] at texts
          simp [List.map_eq_nil_iff.1 texts.symm] at nonempty
  | .null | .bool _ | .int _ | .float _ | .string _ | .array _ =>
      cases read
      trivial

theorem fieldsWritten_of_ofFields {path : Path} {members : List (String × Document)}
    {conditions : List (Path × Condition)} (once : FieldsReadOnce members)
    (plain : ∀ member ∈ members, Document.isOperatorKey member.1 = false)
    (read : ofFields path members = .ok conditions) :
    FieldsWritten conditions ∧
      conditions.map (fun field => field.1.text) = Members.keys members := by
  match members with
  | [] =>
      cases read
      exact ⟨trivial, rfl⟩
  | (key, operand) :: rest =>
      obtain ⟨operandOnce, restOnce⟩ := once
      obtain ⟨keyPlain, restPlain⟩ := List.forall_mem_cons.1 plain
      simp only [ofFields, Except.bind_eq_ok, Except.pure_eq_ok] at read
      obtain ⟨condition, operandRead, others, restRead, rfl⟩ := read
      obtain ⟨restWritten, restTexts⟩ := fieldsWritten_of_ofFields restOnce restPlain restRead
      refine ⟨⟨⟨Path.written_parse key, by simpa using keyPlain⟩,
        written_of_ofDocument operandOnce operandRead, restWritten⟩, by simp [restTexts]⟩

end

theorem fieldsReadOnce_iff {members : List (String × Document)} :
    FieldsReadOnce members ↔ ∀ member ∈ members, ReadsOnce member.2 := by
  induction members with
  | nil => simp [FieldsReadOnce]
  | cons member rest ih => simp [FieldsReadOnce, ih]

theorem topKeysDistinct_toDocument (condition : Condition) :
    condition.toDocument.TopKeysDistinct := by
  intro members same
  cases condition with
  | equals value =>
      rcases value with _ | _ | _ | _ | _ | _ | _ | _ <;> simp [toDocument] at same <;>
        subst same <;> simp
  | isIn | notIn | compares =>
      simp only [toDocument, Document.object.injEq] at same
      simp [← same]
  | all | fields =>
      simp only [toDocument] at same
      exact Document.topKeysDistinct_ofPairs _ members same

/-- The document of a condition is read once as soon as its members without operator
keys are. -/
private theorem readsOnce_of_members {condition : Condition}
    (membersOnce : ∀ member ∈ condition.toDocument.members?.getD [],
      Document.isOperatorKey member.1 = false → ReadsOnce member.2) :
    ReadsOnce condition.toDocument := by
  have distinct := topKeysDistinct_toDocument condition
  cases written : condition.toDocument with
  | object members =>
      refine ⟨distinct members written, fun plain => fieldsReadOnce_iff.2 fun member found => ?_⟩
      refine membersOnce member (by simpa [written, Document.members?] using found) ?_
      simpa using List.any_eq_false.1 plain member found
  | _ => trivial

mutual

private theorem readsOnce_members (condition : Condition) :
    ∀ member ∈ condition.toDocument.members?.getD [],
      Document.isOperatorKey member.1 = false → ReadsOnce member.2 := by
  match condition with
  | .equals value =>
      rcases value with _ | _ | _ | _ | _ | _ | _ | _ <;>
        simp [toDocument, Document.members?, show Document.isOperatorKey "$eq" = true by decide]
  | .isIn values =>
      simp [toDocument, Document.members?, show Document.isOperatorKey "$in" = true by decide]
  | .notIn values =>
      simp [toDocument, Document.members?, show Document.isOperatorKey "$nin" = true by decide]
  | .compares comparison operand =>
      simp [toDocument, Document.members?, isOperatorKey_name]
  | .all parts =>
      intro member found
      exact readsOnce_partMembers parts member (Members.mem_of_mem_ofPairs found)
  | .fields conditions =>
      intro member found _
      exact readsOnce_fieldMembers conditions member (Members.mem_of_mem_ofPairs found)

private theorem readsOnce_partMembers (parts : List Condition) :
    ∀ member ∈ partMembers parts,
      Document.isOperatorKey member.1 = false → ReadsOnce member.2 := by
  match parts with
  | [] => simp [partMembers]
  | part :: rest =>
      intro member found
      rcases List.mem_append.1 found with inPart | inRest
      · exact readsOnce_members part member inPart
      · exact readsOnce_partMembers rest member inRest

private theorem readsOnce_fieldMembers (conditions : List (Path × Condition)) :
    ∀ member ∈ fieldMembers conditions, ReadsOnce member.2 := by
  match conditions with
  | [] => simp [fieldMembers]
  | (field, condition) :: rest =>
      exact List.forall_mem_cons.2
        ⟨readsOnce_of_members (readsOnce_members condition), readsOnce_fieldMembers rest⟩

end

theorem readsOnce_toDocument (condition : Condition) : ReadsOnce condition.toDocument :=
  readsOnce_of_members (readsOnce_members condition)

end Condition

end LocalFirst
