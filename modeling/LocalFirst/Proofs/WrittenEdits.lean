import LocalFirst.Proofs.ReadConditions

/-!
# Edits through documents

The operand of an edit is written as a document under its path, and what the readers accept for an
operator is read again from what is written.
-/

namespace LocalFirst

namespace BitStep

@[simp]
theorem ofMember_toMember (step : BitStep) (path : Path) :
    ofMember path step.toMember = .ok step := by
  cases step <;> rfl

theorem toMember_of_ofMember {path : Path} {member : String × Document} {step : BitStep}
    (read : ofMember path member = .ok step) : step.toMember.1 = member.1 := by
  obtain ⟨key, operand⟩ := member
  simp only [ofMember, Except.bind_eq_ok] at read
  obtain ⟨mask, _, read⟩ := read
  split at read <;> cases read <;> rfl

end BitStep

namespace Edit

def Written : Edit → Prop
  | .bit steps => steps ≠ [] ∧ (steps.map (fun step => step.toMember.1)).Nodup
  | .push operand => operand.Written
  | .pull condition => condition.Written
  | _ => True

/-- No key repeats where the operand of an operator is read as an object. -/
def ReadsOnce : Operator → Document → Prop
  | .bit, operand => operand.TopKeysDistinct
  | .push, operand => Push.SortKeysDistinct operand
  | .pull, operand => Condition.ReadsOnce operand
  | _, _ => True

theorem readsOnce_operandDocument (edit : Edit) :
    ReadsOnce edit.operator edit.operandDocument := by
  cases edit with
  | bit steps => exact Document.topKeysDistinct_ofPairs _
  | push operand => exact operand.sortKeysDistinct_toDocument
  | pull condition => exact condition.readsOnce_toDocument
  | _ => trivial

theorem readSetValues_setValuesDocument (path : Path) (values : List Document) :
    readSetValues path (setValuesDocument values) = .ok values := by
  unfold setValuesDocument
  split
  next value =>
    split
    · rfl
    next plain =>
      have noOperators : value.hasOperatorKeys = false := by simpa using plain
      simp [readSetValues,
        Document.get?_of_not_hasOperatorKeys "$each" noOperators (by decide)]
  · rfl

theorem ofDocument_operandDocument {edit : Edit} (written : edit.Written) (path : Path) :
    ofDocument edit.operator path edit.operandDocument = .ok edit := by
  cases edit with
  | set | unset | rename | min | max => rfl
  | inc amount | mul amount =>
      simp [ofDocument, operator, operandDocument, readNumber, Except.map]
  | bit steps =>
      obtain ⟨nonempty, nodup⟩ := written
      have pairs : Members.ofPairs (steps.map BitStep.toMember) = steps.map BitStep.toMember :=
        Members.ofPairs_eq_self (by simpa [Members.keys, Function.comp_def] using nodup)
      have stepsRead := Except.mapM_map_eq_ok
        (fun step (_ : step ∈ steps) => step.ofMember_toMember path)
      obtain ⟨step, rest, rfl⟩ := List.exists_cons_of_ne_nil nonempty
      rw [List.map_cons] at pairs stepsRead
      simp only [ofDocument, operator, operandDocument, Document.ofPairs, List.map_cons, pairs,
        stepsRead]
      rfl
  | currentDate form => cases form <;> rfl
  | push operand =>
      simp [ofDocument, operator, operandDocument, Push.ofDocument_toDocument written, Except.map]
  | addToSet values =>
      simp [ofDocument, operator, operandDocument, readSetValues_setValuesDocument, Except.map]
  | pull condition =>
      simp [ofDocument, operator, operandDocument, Condition.ofDocument_toDocument written,
        Except.map]
  | pop side => cases side <;> rfl

theorem operator_of_ofDocument {operator : Operator} {path : Path} {operand : Document}
    {edit : Edit} (read : ofDocument operator path operand = .ok edit) :
    edit.operator = operator := by
  cases operator <;> simp only [ofDocument] at read
  case set | unset | min | max => cases read; rfl
  case inc | mul | currentDate | push | addToSet | pull =>
    rw [Except.map_eq_ok] at read
    obtain ⟨_, _, rfl⟩ := read
    rfl
  case rename => split at read <;> cases read; rfl
  case bit =>
    split at read
    · rw [Except.map_eq_ok] at read
      obtain ⟨_, _, rfl⟩ := read
      rfl
    · cases read
  case pop => split at read <;> cases read <;> rfl

theorem written_of_ofDocument {operator : Operator} {path : Path} {operand : Document}
    {edit : Edit} (once : ReadsOnce operator operand)
    (read : ofDocument operator path operand = .ok edit) : edit.Written := by
  cases operator <;> simp only [ofDocument] at read
  case set | unset | min | max => cases read; trivial
  case inc | mul | currentDate | addToSet =>
    rw [Except.map_eq_ok] at read
    obtain ⟨_, _, rfl⟩ := read
    trivial
  case rename => split at read <;> cases read; trivial
  case bit =>
    split at read
    next member members =>
      rw [Except.map_eq_ok] at read
      obtain ⟨steps, stepsRead, rfl⟩ := read
      have keysEq : steps.map (fun step => step.toMember.1) = Members.keys (member :: members) :=
        Except.map_eq_of_mapM stepsRead fun _ _ => BitStep.toMember_of_ofMember
      refine ⟨?_, keysEq ▸ once _ rfl⟩
      rintro rfl
      simp at keysEq
    · cases read
  case push =>
    rw [Except.map_eq_ok] at read
    obtain ⟨_, pushRead, rfl⟩ := read
    exact Push.written_of_ofDocument once pushRead
  case pull =>
    rw [Except.map_eq_ok] at read
    obtain ⟨_, conditionRead, rfl⟩ := read
    exact Condition.written_of_ofDocument once conditionRead
  case pop => split at read <;> cases read <;> trivial

end Edit

end LocalFirst
