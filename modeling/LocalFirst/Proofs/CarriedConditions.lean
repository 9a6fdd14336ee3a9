import LocalFirst.Proofs.Everywhere

/-!
# Documents within conditions

Reading a condition takes its operands out of a document, and writing it puts them back between
texts and objects that repeat no key.
-/

namespace LocalFirst

open Document

variable {holds : Document → Prop}

namespace Condition

/-- What passes from the parts of a conjunction and from the conditions on fields to the whole, and
holds of all other conditions, holds of all conditions. -/
@[elab_as_elim]
theorem induction {motive : Condition → Prop} (equals : ∀ value, motive (.equals value))
    (isIn : ∀ values, motive (.isIn values)) (notIn : ∀ values, motive (.notIn values))
    (compares : ∀ comparison operand, motive (.compares comparison operand))
    (all : ∀ parts, (∀ part ∈ parts, motive part) → motive (.all parts))
    (fields : ∀ conditions, (∀ field ∈ conditions, motive field.2) → motive (.fields conditions))
    (condition : Condition) : motive condition :=
  @Condition.rec motive (fun parts => ∀ part ∈ parts, motive part)
    (fun conditions => ∀ field ∈ conditions, motive field.2) (fun field => motive field.2)
    equals isIn notIn compares all fields (by simp)
    (fun _ _ first rest => List.forall_mem_cons.2 ⟨first, rest⟩) (by simp)
    (fun _ _ first rest => List.forall_mem_cons.2 ⟨first, rest⟩) (fun _ _ value => value) condition

mutual

/-- The property holds of the condition and of all conditions within it. -/
def Throughout (holds : Condition → Prop) : Condition → Prop
  | .all parts => holds (.all parts) ∧ PartsThroughout holds parts
  | .fields conditions => holds (.fields conditions) ∧ FieldsThroughout holds conditions
  | condition => holds condition

def PartsThroughout (holds : Condition → Prop) : List Condition → Prop
  | [] => True
  | part :: parts => part.Throughout holds ∧ PartsThroughout holds parts

def FieldsThroughout (holds : Condition → Prop) : List (Path × Condition) → Prop
  | [] => True
  | (_, condition) :: rest => condition.Throughout holds ∧ FieldsThroughout holds rest

end

theorem partsThroughout_iff {holds : Condition → Prop} {parts : List Condition} :
    PartsThroughout holds parts ↔ ∀ part ∈ parts, part.Throughout holds := by
  induction parts with
  | nil => simp [PartsThroughout]
  | cons part rest ih => simp [PartsThroughout, ih]

theorem fieldsThroughout_iff {holds : Condition → Prop} {conditions : List (Path × Condition)} :
    FieldsThroughout holds conditions ↔ ∀ field ∈ conditions, field.2.Throughout holds := by
  induction conditions with
  | nil => simp [FieldsThroughout]
  | cons field rest ih => simp [FieldsThroughout, ih]

theorem throughout_all {holds : Condition → Prop} {parts : List Condition} :
    (all parts).Throughout holds ↔ holds (.all parts) ∧ ∀ part ∈ parts, part.Throughout holds := by
  rw [Throughout, partsThroughout_iff]

theorem throughout_fields {holds : Condition → Prop} {conditions : List (Path × Condition)} :
    (fields conditions).Throughout holds ↔
      holds (.fields conditions) ∧ ∀ field ∈ conditions, field.2.Throughout holds := by
  rw [Throughout, fieldsThroughout_iff]

theorem Throughout.here {holds : Condition → Prop} {condition : Condition}
    (throughout : condition.Throughout holds) : holds condition := by
  cases condition with
  | all | fields => exact throughout.1
  | _ => exact throughout

/-- Only an object meets conditions on fields. -/
theorem matchesItem_fields (conditions : List (Path × Condition)) (item : Document) :
    (fields conditions).matchesItem item =
      (decide (item.kind = .object) && fieldsMatch conditions item) := by
  cases item <;> simp [matchesItem, kind]

mutual

/-- The documents that an item and its fields are compared with. -/
def documents : Condition → List Document
  | .equals value => [value]
  | .isIn values | .notIn values => values
  | .compares _ operand => [operand]
  | .all parts => partsDocuments parts
  | .fields conditions => fieldsDocuments conditions

def partsDocuments : List Condition → List Document
  | [] => []
  | part :: parts => part.documents ++ partsDocuments parts

def fieldsDocuments : List (Path × Condition) → List Document
  | [] => []
  | (_, condition) :: rest => condition.documents ++ fieldsDocuments rest

end

theorem mem_partsDocuments {parts : List Condition} {value : Document} :
    value ∈ partsDocuments parts ↔ ∃ part ∈ parts, value ∈ part.documents := by
  induction parts with
  | nil => simp [partsDocuments]
  | cons part rest ih => simp [partsDocuments, ih]

theorem mem_documents_ofParts {parts : List Condition} {value : Document}
    (member : value ∈ (ofParts parts).documents) : ∃ part ∈ parts, value ∈ part.documents := by
  unfold ofParts at member
  split at member
  · exact ⟨_, List.mem_singleton.2 rfl, by simpa [documents] using member⟩
  · exact ⟨_, List.mem_singleton.2 rfl, member⟩
  · exact mem_partsDocuments.1 member

theorem everywhere_of_ofOperator {path : Path} {member : String × Document} {condition : Condition}
    (everywhere : member.2.Everywhere holds)
    (read : ofOperator path member.1 member.2 = .ok condition) :
    ∀ value ∈ condition.documents, value.Everywhere holds := by
  obtain ⟨key, operand⟩ := member
  have found := ofOperator_eq_ok_iff.1 read
  cases condition with
  | isIn values | notIn values =>
      simp only [operatorMember?, Option.some.injEq, Prod.mk.injEq] at found
      obtain ⟨_, rfl⟩ := found
      exact (everywhere_array.1 everywhere).2
  | compares comparison value =>
      simp only [operatorMember?, Option.some.injEq, Prod.mk.injEq] at found
      obtain ⟨_, rfl⟩ := found
      simpa [documents] using everywhere
  | _ => simp [operatorMember?] at found

mutual

theorem everywhere_of_ofDocument {path : Path} {document : Document} {condition : Condition}
    (everywhere : document.Everywhere holds) (read : ofDocument path document = .ok condition) :
    ∀ value ∈ condition.documents, value.Everywhere holds := by
  match document with
  | .object members =>
      unfold ofDocument at read
      split at read
      · cases read
        simpa [documents] using everywhere
      split at read
      · rw [Except.map_eq_ok] at read
        obtain ⟨parts, partsRead, rfl⟩ := read
        intro value carried
        obtain ⟨part, inParts, inPart⟩ := mem_documents_ofParts carried
        obtain ⟨member, inMembers, partRead⟩ := Except.exists_mem_of_mapM partsRead inParts
        have operandEverywhere := (everywhere_object.1 everywhere).2 member inMembers
        exact everywhere_of_ofOperator operandEverywhere partRead value inPart
      split at read
      · cases read
      · rw [Except.map_eq_ok] at read
        obtain ⟨conditions, fieldsRead, rfl⟩ := read
        exact everywhere_of_ofFields everywhere.2 fieldsRead
  | .null | .bool _ | .int _ | .float _ | .string _ | .array _ =>
      cases read
      simpa [documents] using everywhere

theorem everywhere_of_ofFields {path : Path} {members : List (String × Document)}
    {conditions : List (Path × Condition)} (everywhere : MembersEverywhere holds members)
    (read : ofFields path members = .ok conditions) :
    ∀ value ∈ fieldsDocuments conditions, value.Everywhere holds := by
  match members with
  | [] =>
      cases read
      simp [fieldsDocuments]
  | (key, operand) :: rest =>
      simp only [ofFields, Except.bind_eq_ok, Except.pure_eq_ok] at read
      obtain ⟨condition, operandRead, others, restRead, rfl⟩ := read
      exact List.forall_mem_append.2 ⟨everywhere_of_ofDocument everywhere.1 operandRead,
        everywhere_of_ofFields everywhere.2 restRead⟩

end

mutual

theorem everywhere_toDocument (safe : WireSafe holds) {condition : Condition}
    (carries : ∀ value ∈ condition.documents, value.Everywhere holds) :
    condition.toDocument.Everywhere holds := by
  match condition with
  | .equals value =>
      have everywhere : value.Everywhere holds := carries value (List.mem_singleton.2 rfl)
      unfold toDocument
      split
      case h_1 same =>
        cases same
        exact safe.everywhere_single _ everywhere
      case h_2 same =>
        cases same
        exact everywhere
      all_goals contradiction
  | .isIn values | .notIn values =>
      exact safe.everywhere_single _ (safe.everywhere_array carries)
  | .compares comparison operand =>
      exact safe.everywhere_single _ (carries operand (List.mem_singleton.2 rfl))
  | .all parts => exact safe.everywhere_ofPairs (everywhere_partMembers safe carries)
  | .fields conditions => exact safe.everywhere_ofPairs (everywhere_fieldMembers safe carries)

theorem everywhere_partMembers (safe : WireSafe holds) {parts : List Condition}
    (carry : ∀ value ∈ partsDocuments parts, value.Everywhere holds) :
    ∀ member ∈ partMembers parts, member.2.Everywhere holds := by
  match parts with
  | [] => simp [partMembers]
  | part :: rest =>
      obtain ⟨partCarries, restCarry⟩ := List.forall_mem_append.1 carry
      intro member found
      rcases List.mem_append.1 found with inPart | inRest
      · have everywhere := everywhere_toDocument safe partCarries
        cases written : part.toDocument with
        | object members =>
            rw [written] at everywhere inPart
            exact (everywhere_object.1 everywhere).2 member inPart
        | _ => simp [written, members?] at inPart
      · exact everywhere_partMembers safe restCarry member inRest

theorem everywhere_fieldMembers (safe : WireSafe holds) {conditions : List (Path × Condition)}
    (carry : ∀ value ∈ fieldsDocuments conditions, value.Everywhere holds) :
    ∀ member ∈ fieldMembers conditions, member.2.Everywhere holds := by
  match conditions with
  | [] => simp [fieldMembers]
  | (field, condition) :: rest =>
      obtain ⟨conditionCarries, restCarry⟩ := List.forall_mem_append.1 carry
      exact List.forall_mem_cons.2 ⟨everywhere_toDocument safe conditionCarries,
        everywhere_fieldMembers safe restCarry⟩

end

end Condition

end LocalFirst
