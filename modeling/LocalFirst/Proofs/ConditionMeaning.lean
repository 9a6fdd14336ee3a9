import LocalFirst.Proofs.ConditionClauses

/-!
# The meaning of a condition on the wire

The wire form of a conjunction is one object that takes the members of all its parts, and that of
conditions on fields is an object with a member for each field.  When such an object is read, each
member is read as a clause of its own, and an item has to meet all of them.  The parts of a
condition need not fit into one object, though: a part that is a bare value has no member to give,
of two members under one key the last one stays, and operators and fields cannot stand side by
side.  What is read back therefore asks for some of the clauses only, and for all of them when
nothing was left out.
-/

namespace LocalFirst

namespace Condition

variable {path : Path} {condition : Condition}

theorem ofMember_of_operatorMember? {member : String × Document}
    (found : condition.operatorMember? = some member) : ofMember path member = .ok condition := by
  rw [ofMember, if_pos (isOperatorKey_of_operatorMember? found)]
  exact ofOperator_eq_ok_iff.2 found

/-- A condition that is written as one operator is read as a condition that asks for the same. -/
theorem clausesKept_of_operator {written : Condition} {member : String × Document}
    (single : condition.members = [member]) (found : written.operatorMember? = some member)
    (same : ∀ item, written.matchesItem item = condition.matchesItem item) :
    ClausesKept path condition where
  reads other inMembers := by
    rw [single, List.mem_singleton] at inMembers
    subst inMembers
    exact ⟨written, ofMember_of_operatorMember? found, fun item => (same item).trans⟩
  meets _ _ item meets := by
    rw [single, List.forall_mem_singleton] at meets
    exact (same item).symm.trans (meets written (ofMember_of_operatorMember? found))

theorem clausesKept_of_members_eq_nil (none : condition.members = []) :
    ClausesKept path condition where
  reads member inMembers := by simp [none] at inMembers
  meets _ nonempty := absurd none nonempty

theorem clausesKept_equals (value : Document) : ClausesKept path (.equals value) := by
  have bare : (equals value).members = [] ∨ (equals value).members = [("$eq", value)] := by
    rcases value with _ | _ | _ | _ | _ | _ | _ | _ <;>
      simp [Condition.members, toDocument, Document.members?]
  rcases bare with none | single
  · exact clausesKept_of_members_eq_nil none
  · have found : (compares .eq value).operatorMember? = some ("$eq", value) := rfl
    exact clausesKept_of_operator single found fun _ => rfl

theorem clausesKept_all {parts : List Condition}
    (partsKept : ∀ part ∈ parts, ClausesKept path part) : ClausesKept path (.all parts) where
  reads member inMembers := by
    obtain ⟨part, inParts, inPart⟩ := mem_partMembers.1 (Members.mem_of_mem_ofPairs inMembers)
    obtain ⟨clause, read, asks⟩ := (partsKept part inParts).reads member inPart
    refine ⟨clause, read, fun item meets => asks item ?_⟩
    rw [matchesItem, allMatch_iff] at meets
    exact meets part inParts
  meets complete _ item meets := by
    obtain ⟨⟨nonempty, agree⟩, partsComplete⟩ := throughout_all.1 complete
    rw [matchesItem, allMatch_iff]
    intro part inParts
    refine (partsKept part inParts).meets (partsComplete part inParts) (nonempty part inParts)
      item fun member inPart => meets member ?_
    exact mem_ofPairs_of_keysAgree agree (mem_partMembers.2 ⟨part, inParts, inPart⟩)

theorem clausesKept_fields {conditions : List (Path × Condition)}
    (named : (fields conditions).NamesFields) (nonempty : conditions ≠ [])
    (fieldsStored : ∀ field ∈ conditions, ∃ stored, StoredAs path field.2 stored) :
    ClausesKept path (.fields conditions) := by
  have reads : ∀ field ∈ conditions, ∀ stored, StoredAs path field.2 stored →
      ofMember path (field.1.text, field.2.toDocument) = .ok (.fields [(field.1, stored)]) := by
    intro field inConditions stored storedAs
    obtain ⟨undotted, plain⟩ := named field inConditions
    have same : Path.parse field.1.text = field.1 := Path.written_iff_undotted.2 undotted
    simp [ofMember, plain, storedAs.read, Except.map, same]
  constructor
  · intro member inMembers
    obtain ⟨field, inConditions, rfl⟩ := mem_fieldMembers.1 (Members.mem_of_mem_ofPairs inMembers)
    obtain ⟨stored, storedAs⟩ := fieldsStored field inConditions
    refine ⟨_, reads field inConditions stored storedAs, fun item meets => ?_⟩
    obtain ⟨isObject, meets⟩ := matchesItem_fields_iff.1 meets
    exact matchesItem_fields_iff.2 ⟨isObject, List.forall_mem_singleton.2
      (storedAs.asks _ (meets field inConditions))⟩
  · intro complete _ item meets
    obtain ⟨agree, fieldsComplete⟩ := throughout_fields.1 complete
    have clauseMet : ∀ field ∈ conditions, ∃ stored, StoredAs path field.2 stored ∧
        (fields [(field.1, stored)]).matchesItem item = true := by
      intro field inConditions
      obtain ⟨stored, storedAs⟩ := fieldsStored field inConditions
      have inMembers := mem_ofPairs_of_keysAgree agree
        (mem_fieldMembers.2 ⟨field, inConditions, rfl⟩)
      exact ⟨stored, storedAs, meets _ inMembers _ (reads field inConditions stored storedAs)⟩
    refine matchesItem_fields_iff.2 ⟨?_, fun field inConditions => ?_⟩
    · obtain ⟨field, inConditions⟩ := List.exists_mem_of_ne_nil conditions nonempty
      obtain ⟨_, _, met⟩ := clauseMet field inConditions
      exact (matchesItem_fields_iff.1 met).1
    · obtain ⟨stored, storedAs, met⟩ := clauseMet field inConditions
      exact storedAs.meets (fieldsComplete field inConditions) _
        ((matchesItem_fields_iff.1 met).2 _ (List.mem_singleton.2 rfl))

theorem clausesKept (path : Path) (named : condition.Throughout NamesFields)
    (fits : condition.Throughout Fits) : ClausesKept path condition := by
  induction condition using Condition.induction with
  | equals value => exact clausesKept_equals value
  | isIn | notIn | compares => exact clausesKept_of_operator rfl rfl fun _ => rfl
  | all parts ih =>
      rw [throughout_all] at named fits
      exact clausesKept_all fun part inParts =>
        ih part inParts (named.2 part inParts) (fits.2 part inParts)
  | fields conditions ih =>
      rw [throughout_fields] at named fits
      refine clausesKept_fields named.1 fits.1 fun field inConditions => ?_
      have fieldNamed := named.2 field inConditions
      have fieldFits := fits.2 field inConditions
      exact (ih field inConditions fieldNamed fieldFits).exists_storedAs fieldNamed.here
        fieldFits.here

/-- A condition whose conjunctions fit into one object each can be read back from the wire.  There
it asks for no more than it did, and when nothing is left out, for the same. -/
theorem meaning_on_the_wire (path : Path) (named : condition.Throughout NamesFields)
    (fits : condition.Throughout Fits) :
    ∃ stored, ofDocument path condition.toDocument = .ok stored ∧
      (∀ item, condition.matchesItem item = true → stored.matchesItem item = true) ∧
      (condition.Throughout LeavesNothingOut →
        ∀ item, stored.matchesItem item = condition.matchesItem item) := by
  obtain ⟨stored, storedAs⟩ := (clausesKept path named fits).exists_storedAs named.here fits.here
  exact ⟨stored, storedAs.read, storedAs.asks, fun complete item =>
    Bool.eq_iff_iff.2 ⟨storedAs.meets complete item, storedAs.asks item⟩⟩

/-- Boxes of some height, with a given size and label. -/
def boxes : Condition :=
  .all [
    .fields [(⟨["size", "height"]⟩, .all [.compares .gte (.int 1), .compares .lt (.int 9)])],
    .all [.fields [(⟨["size"]⟩, .equals (.object [("height", .int 3)])),
      (⟨["label"]⟩, .isIn [.string "a", .null])]]]

theorem meaning_on_the_wire_boxes :
    (boxes.Throughout NamesFields ∧ boxes.Throughout Fits ∧ boxes.Throughout LeavesNothingOut) ∧
      ∃ stored, ofDocument ⟨["row"]⟩ boxes.toDocument = .ok stored ∧
        ∀ item, stored.matchesItem item = boxes.matchesItem item := by
  have named : boxes.Throughout NamesFields := by
    simp [boxes, Throughout, PartsThroughout, FieldsThroughout, NamesFields, Path.Undotted]
    decide
  have fits : boxes.Throughout Fits := by
    simp [boxes, Throughout, PartsThroughout, FieldsThroughout, Fits, OneForm, partMembers,
      fieldMembers, toDocument, Document.ofPairs, Document.members?, Members.ofPairs, Members.put,
      Comparison.name, Path.text, Path.joinDots]
    decide
  have complete : boxes.Throughout LeavesNothingOut := by
    simp [boxes, Throughout, PartsThroughout, FieldsThroughout, LeavesNothingOut, KeysAgree,
      Condition.members, partMembers, fieldMembers, toDocument, Document.ofPairs,
      Document.members?, Members.ofPairs, Members.put, Comparison.name, Path.text, Path.joinDots]
  obtain ⟨stored, read, _, same⟩ := meaning_on_the_wire ⟨["row"]⟩ named fits
  exact ⟨⟨named, fits, complete⟩, stored, read, same complete⟩

/-- In a conjunction a bare value is left out, the last of two operands of one operator stays, and
an operator beside a field is refused; where there is nothing to write, the empty object is read as
a value. -/
theorem meaning_lost_on_the_wire :
    (∃ stored, ofDocument ⟨["row"]⟩ (all [.equals (.int 1)]).toDocument = .ok stored ∧
        (all [.equals (.int 1)]).matchesItem (.int 1) = true ∧
        stored.matchesItem (.int 1) = false) ∧
      (∃ stored, ofDocument ⟨["row"]⟩
          (all [.compares .gt (.int 5), .compares .gt (.int 1)]).toDocument = .ok stored ∧
        (all [.compares .gt (.int 5), .compares .gt (.int 1)]).matchesItem (.int 3) = false ∧
        stored.matchesItem (.int 3) = true) ∧
      (∃ stored, ofDocument ⟨["row"]⟩ (fields []).toDocument = .ok stored ∧
        (fields []).matchesItem (.object [("a", .null)]) = true ∧
        stored.matchesItem (.object [("a", .null)]) = false) ∧
      ∃ error, ofDocument ⟨["row"]⟩
        (all [.fields [(⟨["a"]⟩, .equals .null)], .compares .ne .null]).toDocument =
          .error error := by
  have empty : ofDocument ⟨["row"]⟩ (.object []) = .ok (.equals (.object [])) := by
    simp [ofDocument]
  refine ⟨⟨_, empty, by decide +kernel, by decide +kernel⟩,
    ⟨_, ofDocument_comparison _ .gt (.int 1), by decide +kernel, by decide +kernel⟩,
    ⟨_, empty, by decide +kernel, by decide +kernel⟩, ?_⟩
  have written : (all [.fields [(⟨["a"]⟩, .equals .null)], .compares .ne .null]).toDocument =
      .object [("a", .null), ("$ne", .null)] := by
    simp [toDocument, partMembers, fieldMembers, Document.ofPairs, Document.members?,
      Members.ofPairs, Members.put, Comparison.name, Path.text, Path.joinDots]
  refine ⟨.invalid operatorName ⟨["row"]⟩ .mixedCondition, ?_⟩
  rw [written]
  simp [ofDocument, show Document.isOperatorKey "a" = false by decide,
    show Document.isOperatorKey "$ne" = true by decide]

end Condition

end LocalFirst
