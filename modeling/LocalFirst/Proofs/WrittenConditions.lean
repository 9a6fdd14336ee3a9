import LocalFirst.Proofs.WrittenPushes

/-!
# Conditions through documents

A condition on a value is written as an object of operators, or as the value alone when it asks for
equality; one on fields is written as an object with a member for each field.  A written condition
that lists no operator and no field twice is read back from its document.
-/

namespace LocalFirst

namespace Condition

/-- The member that a condition on the whole item contributes to an object of
operators. -/
def operatorMember? : Condition → Option (String × Document)
  | .isIn values => some ("$in", .array values)
  | .notIn values => some ("$nin", .array values)
  | .compares comparison operand => some (comparison.name, operand)
  | _ => none

mutual

def Written : Condition → Prop
  | .compares comparison _ => comparison ≠ .eq
  | .all parts =>
      2 ≤ parts.length ∧ (∀ part ∈ parts, part.operatorMember?.isSome) ∧
        (Members.keys (parts.filterMap operatorMember?)).Nodup
  | .fields conditions =>
      conditions ≠ [] ∧ (conditions.map (fun field => field.1.text)).Nodup ∧
        FieldsWritten conditions
  | _ => True

def FieldsWritten : List (Path × Condition) → Prop
  | [] => True
  | (field, condition) :: rest =>
      (field.Written ∧ Document.isOperatorKey field.text = false) ∧ condition.Written ∧
        FieldsWritten rest

end

mutual

/-- No key repeats in an object from which a condition is read. -/
def ReadsOnce : Document → Prop
  | .object members =>
      (Members.keys members).Nodup ∧
        (members.any (fun member => Document.isOperatorKey member.1) = false →
          FieldsReadOnce members)
  | _ => True

def FieldsReadOnce : List (String × Document) → Prop
  | [] => True
  | (_, operand) :: rest => ReadsOnce operand ∧ FieldsReadOnce rest

end

theorem isOperatorKey_name (comparison : Comparison) :
    Document.isOperatorKey comparison.name = true := by
  cases comparison <;> decide

theorem isOperatorKey_of_operatorMember? {condition : Condition} {member : String × Document}
    (found : condition.operatorMember? = some member) :
    Document.isOperatorKey member.1 = true := by
  cases condition <;> simp only [operatorMember?, Option.some.injEq, reduceCtorEq] at found <;>
    subst found
  · exact (by decide : Document.isOperatorKey "$in" = true)
  · exact (by decide : Document.isOperatorKey "$nin" = true)
  · exact isOperatorKey_name _

theorem toDocument_of_operatorMember? {condition : Condition} {member : String × Document}
    (found : condition.operatorMember? = some member) :
    condition.toDocument = .object [member] := by
  cases condition <;> simp only [operatorMember?, Option.some.injEq, reduceCtorEq] at found <;>
    subst found <;> simp [toDocument]

/-- Reading a member of an object of operators inverts `operatorMember?`. -/
theorem ofOperator_eq_ok_iff {path : Path} {key : String} {operand : Document}
    {condition : Condition} :
    ofOperator path key operand = .ok condition ↔
      condition.operatorMember? = some (key, operand) := by
  constructor
  · intro read
    unfold ofOperator at read
    split at read
    next listKey =>
      split at read
      · cases read
        rcases listKey with rfl | rfl <;> simp [operatorMember?]
      · simp at read
    next =>
      split at read
      next comparison named =>
        cases read
        have nameEq : comparison.name = key := by
          unfold Comparison.ofName? at named
          split at named <;> simp only [Option.some.injEq, reduceCtorEq] at named <;>
            subst named <;> rfl
        simp [operatorMember?, nameEq]
      · simp at read
  · intro found
    cases condition with
    | isIn values =>
        simp only [operatorMember?, Option.some.injEq, Prod.mk.injEq] at found
        obtain ⟨rfl, rfl⟩ := found
        simp [ofOperator]
    | notIn values =>
        simp only [operatorMember?, Option.some.injEq, Prod.mk.injEq] at found
        obtain ⟨rfl, rfl⟩ := found
        simp [ofOperator]
    | compares comparison value =>
        simp only [operatorMember?, Option.some.injEq, Prod.mk.injEq] at found
        obtain ⟨rfl, rfl⟩ := found
        cases comparison <;> simp [ofOperator, Comparison.name, Comparison.ofName?]
    | _ => simp [operatorMember?] at found

theorem partMembers_eq {parts : List Condition}
    (operators : ∀ part ∈ parts, part.operatorMember?.isSome) :
    partMembers parts = parts.filterMap operatorMember? := by
  induction parts with
  | nil => rfl
  | cons part rest ih =>
      obtain ⟨partOperator, restOperators⟩ := List.forall_mem_cons.1 operators
      obtain ⟨member, found⟩ := Option.isSome_iff_exists.1 partOperator
      simp [partMembers, toDocument_of_operatorMember? found, Document.members?, found,
        ih restOperators]

theorem ofParts_of_two_le {parts : List Condition} (two : 2 ≤ parts.length) :
    ofParts parts = .all parts := by
  unfold ofParts
  split
  · simp at two
  · simp at two
  · rfl

theorem mapM_ofOperator {parts : List Condition} (path : Path)
    (operators : ∀ part ∈ parts, part.operatorMember?.isSome) :
    (parts.filterMap operatorMember?).mapM
      (fun member => ofOperator path member.1 member.2) = .ok parts := by
  induction parts with
  | nil => rfl
  | cons part rest ih =>
      obtain ⟨partOperator, restOperators⟩ := List.forall_mem_cons.1 operators
      obtain ⟨member, found⟩ := Option.isSome_iff_exists.1 partOperator
      simp [found, ofOperator_eq_ok_iff.2 (found : _ = some (member.1, member.2)),
        ih restOperators]

/-- An object of operators is read member by member. -/
theorem ofDocument_operators {path : Path} {members : List (String × Document)}
    (parts : List Condition) (nonempty : members ≠ [])
    (read : members.mapM (fun member => ofOperator path member.1 member.2) = .ok parts) :
    ofDocument path (.object members) = .ok (ofParts parts) := by
  have operatorKeys : members.all (fun member => Document.isOperatorKey member.1) = true := by
    rw [List.all_eq_true]
    intro member inMembers
    rw [Except.mapM_eq_ok_iff] at read
    induction read with
    | nil => simp at inMembers
    | cons firstRead rest ih =>
        rcases List.mem_cons.1 inMembers with here | there
        · exact here ▸ isOperatorKey_of_operatorMember? (ofOperator_eq_ok_iff.1 firstRead)
        · cases rest with
          | nil => simp at there
          | cons => exact ih (by simp) there
  simp [ofDocument, nonempty, operatorKeys, read]

theorem ofDocument_comparison (path : Path) (comparison : Comparison) (operand : Document) :
    ofDocument path (.object [(comparison.name, operand)]) =
      .ok (ofParts [.compares comparison operand]) := by
  refine ofDocument_operators _ (by simp) ?_
  simp [ofOperator_eq_ok_iff.2 (rfl : operatorMember? (.compares comparison operand) = _)]

/-- An object without operator keys is read as conditions on its fields. -/
theorem ofDocument_fields {path : Path} {members : List (String × Document)}
    {conditions : List (Path × Condition)} (nonempty : members ≠ [])
    (plain : ∀ member ∈ members, Document.isOperatorKey member.1 = false)
    (read : ofFields path members = .ok conditions) :
    ofDocument path (.object members) = .ok (.fields conditions) := by
  obtain ⟨member, rest, rfl⟩ := List.exists_cons_of_ne_nil nonempty
  have firstPlain := plain member List.mem_cons_self
  have noOperators : (member :: rest).any (fun member => Document.isOperatorKey member.1) = false :=
    List.any_eq_false.2 fun other inMembers => by simp [plain other inMembers]
  simp only [ofDocument, List.isEmpty_cons, List.all_cons, firstPlain, noOperators, read]
  rfl

theorem keys_fieldMembers (conditions : List (Path × Condition)) :
    Members.keys (fieldMembers conditions) = conditions.map (fun field => field.1.text) := by
  induction conditions with
  | nil => rfl
  | cons field rest ih => simp [fieldMembers, ih]

theorem fieldMembers_plain {conditions : List (Path × Condition)}
    (written : FieldsWritten conditions) :
    ∀ member ∈ fieldMembers conditions, Document.isOperatorKey member.1 = false := by
  induction conditions with
  | nil => simp [fieldMembers]
  | cons field rest ih =>
      obtain ⟨⟨_, fieldPlain⟩, _, restWritten⟩ := written
      exact List.forall_mem_cons.2 ⟨fieldPlain, ih restWritten⟩

mutual

theorem ofDocument_toDocument {condition : Condition} (written : condition.Written)
    (path : Path) : ofDocument path condition.toDocument = .ok condition := by
  match condition with
  | .equals value =>
      cases value with
      | object members =>
          cases members with
          | nil => simp [toDocument, ofDocument]
          | cons member members =>
              exact ofDocument_operators [.compares .eq _] (by simp)
                (by simp [ofOperator, Comparison.ofName?])
      | _ => simp [toDocument, ofDocument]
  | .isIn values =>
      exact ofDocument_operators [.isIn values] (by simp) (by simp [ofOperator])
  | .notIn values =>
      exact ofDocument_operators [.notIn values] (by simp) (by simp [ofOperator])
  | .compares comparison operand =>
      rw [toDocument, ofDocument_comparison]
      cases comparison <;> first | rfl | exact absurd rfl written
  | .all parts =>
      obtain ⟨two, operators, nodup⟩ := written
      have read := mapM_ofOperator path operators
      have nonempty : parts.filterMap operatorMember? ≠ [] := by
        intro empty
        rw [empty, List.mapM_nil, Except.pure_eq_ok] at read
        simp [← read] at two
      rw [toDocument, Document.ofPairs, partMembers_eq operators, Members.ofPairs_eq_self nodup,
        ofDocument_operators parts nonempty read, ofParts_of_two_le two]
  | .fields conditions =>
      obtain ⟨nonempty, nodup, fieldsWritten⟩ := written
      have keysEq := keys_fieldMembers conditions
      have plain := fieldMembers_plain fieldsWritten
      have fieldsRead := ofFields_fieldMembers fieldsWritten path
      rw [toDocument, Document.ofPairs, Members.ofPairs_eq_self (keysEq ▸ nodup)]
      exact ofDocument_fields (fun empty => nonempty (by simpa [empty] using keysEq)) plain
        fieldsRead

theorem ofFields_fieldMembers {conditions : List (Path × Condition)}
    (written : FieldsWritten conditions) (path : Path) :
    ofFields path (fieldMembers conditions) = .ok conditions := by
  match conditions with
  | [] => rfl
  | (field, condition) :: rest =>
      obtain ⟨⟨fieldWritten, _⟩, conditionWritten, restWritten⟩ := written
      simp [fieldMembers, ofFields, ofDocument_toDocument conditionWritten path,
        ofFields_fieldMembers restWritten path, show Path.parse field.text = field from fieldWritten,
        bind, Except.bind, pure, Except.pure]

end

end Condition

end LocalFirst
