import LocalFirst.Proofs.Carried
import LocalFirst.Proofs.DocumentEquality

/-!
# Laws of equality for updates

Updates are equal when they have the same outline and carry equal documents in the same places, so
that the laws for documents give those for updates.
-/

namespace LocalFirst

namespace Condition

mutual

/-- The condition with null in the place of every document. -/
def outline : Condition → Condition
  | .equals _ => .equals .null
  | .isIn values => .isIn (values.map fun _ => .null)
  | .notIn values => .notIn (values.map fun _ => .null)
  | .compares comparison _ => .compares comparison .null
  | .all parts => .all (partsOutline parts)
  | .fields conditions => .fields (fieldsOutline conditions)

def partsOutline : List Condition → List Condition
  | [] => []
  | part :: parts => part.outline :: partsOutline parts

def fieldsOutline : List (Path × Condition) → List (Path × Condition)
  | [] => []
  | (field, condition) :: rest => (field, condition.outline) :: fieldsOutline rest

end

mutual

/-- The outline has as many places for documents. -/
theorem length_documents_outline (condition : Condition) :
    condition.outline.documents.length = condition.documents.length := by
  match condition with
  | .equals _ | .isIn _ | .notIn _ | .compares _ _ => simp [outline, documents]
  | .all parts => simpa [outline, documents] using length_documents_partsOutline parts
  | .fields conditions => simpa [outline, documents] using length_documents_fieldsOutline conditions

theorem length_documents_partsOutline (parts : List Condition) :
    (partsDocuments (partsOutline parts)).length = (partsDocuments parts).length := by
  match parts with
  | [] => rfl
  | part :: rest =>
      simp [partsOutline, partsDocuments, length_documents_outline part,
        length_documents_partsOutline rest]

theorem length_documents_fieldsOutline (conditions : List (Path × Condition)) :
    (fieldsDocuments (fieldsOutline conditions)).length = (fieldsDocuments conditions).length := by
  match conditions with
  | [] => rfl
  | (field, condition) :: rest =>
      simp [fieldsOutline, fieldsDocuments, length_documents_outline condition,
        length_documents_fieldsOutline rest]

end

theorem length_documents_of_outline_eq {condition other : Condition}
    (outlines : condition.outline = other.outline) :
    condition.documents.length = other.documents.length := by
  rw [← length_documents_outline condition, outlines, length_documents_outline]

/-- Two documents are the same. -/
def SameDocuments (values others : List Document) : Prop :=
  List.Forall₂ (fun value other => value.same other = true) values others

theorem sameValues_iff {values others : List Document} :
    sameValues values others = true ↔
      values.map (fun _ => Document.null) = others.map (fun _ => Document.null) ∧
        SameDocuments values others := by
  have same : sameValues values others = true ↔ SameDocuments values others :=
    Document.agreeItems_iff
  rw [same, List.map_const', List.map_const', and_iff_right_of_imp]
  exact fun alike => by rw [alike.length_eq]

mutual

theorem same_iff {condition other : Condition} : condition.same other = true ↔
    condition.outline = other.outline ∧ SameDocuments condition.documents other.documents := by
  match condition with
  | .equals value => cases other <;> simp [same, outline, documents, SameDocuments]
  | .isIn values => cases other <;> simp [same, outline, documents, sameValues_iff]
  | .notIn values => cases other <;> simp [same, outline, documents, sameValues_iff]
  | .compares comparison operand =>
      cases other <;> simp [same, outline, documents, SameDocuments]
  | .all parts => cases other <;> simp [same, outline, documents, sameParts_iff]
  | .fields conditions => cases other <;> simp [same, outline, documents, sameFields_iff]

theorem sameParts_iff {parts others : List Condition} : sameParts parts others = true ↔
    partsOutline parts = partsOutline others ∧
      SameDocuments (partsDocuments parts) (partsDocuments others) := by
  match parts, others with
  | [], [] => simp [sameParts, partsOutline, partsDocuments, SameDocuments]
  | [], _ :: _ => simp [sameParts, partsOutline]
  | _ :: _, [] => simp [sameParts, partsOutline]
  | part :: rest, other :: others =>
      rw [sameParts, Bool.and_eq_true, same_iff, sameParts_iff, partsOutline, partsOutline,
        List.cons.injEq]
      constructor
      · rintro ⟨⟨outlines, first⟩, restOutlines, restSame⟩
        exact ⟨⟨outlines, restOutlines⟩, (forall₂_append_iff
          (length_documents_of_outline_eq outlines)).2 ⟨first, restSame⟩⟩
      · rintro ⟨⟨outlines, restOutlines⟩, alike⟩
        obtain ⟨first, restSame⟩ := (forall₂_append_iff
          (length_documents_of_outline_eq outlines)).1 alike
        exact ⟨⟨outlines, first⟩, restOutlines, restSame⟩

theorem sameFields_iff {conditions others : List (Path × Condition)} :
    sameFields conditions others = true ↔ fieldsOutline conditions = fieldsOutline others ∧
      SameDocuments (fieldsDocuments conditions) (fieldsDocuments others) := by
  match conditions, others with
  | [], [] => simp [sameFields, fieldsOutline, fieldsDocuments, SameDocuments]
  | [], _ :: _ => simp [sameFields, fieldsOutline]
  | _ :: _, [] => simp [sameFields, fieldsOutline]
  | (field, condition) :: rest, (otherField, other) :: others =>
      rw [sameFields, Bool.and_eq_true, Bool.and_eq_true, beq_iff_eq, same_iff, sameFields_iff,
        fieldsOutline, fieldsOutline, List.cons.injEq, Prod.mk.injEq]
      constructor
      · rintro ⟨⟨fields, outlines, first⟩, restOutlines, restSame⟩
        exact ⟨⟨⟨fields, outlines⟩, restOutlines⟩, (forall₂_append_iff
          (length_documents_of_outline_eq outlines)).2 ⟨first, restSame⟩⟩
      · rintro ⟨⟨⟨fields, outlines⟩, restOutlines⟩, alike⟩
        obtain ⟨first, restSame⟩ := (forall₂_append_iff
          (length_documents_of_outline_eq outlines)).1 alike
        exact ⟨⟨fields, outlines, first⟩, restOutlines, restSame⟩

end

end Condition

open Condition (SameDocuments)

theorem Number.same_eq (left right : Number) :
    left.same right = (Document.ofNumber left).same (Document.ofNumber right) := by
  cases left <;> cases right <;> simp [same, Document.ofNumber, Document.same, Document.agree,
    Document.sameScalar]

namespace Push

/-- The push with null in the place of every value. -/
def outline (operand : Push) : Push :=
  { operand with each := operand.each.map fun _ => .null }

theorem same_iff {operand other : Push} : operand.same other = true ↔
    operand.outline = other.outline ∧ SameDocuments operand.each other.each := by
  obtain ⟨each, position, slice, sort⟩ := operand
  obtain ⟨otherEach, otherPosition, otherSlice, otherSort⟩ := other
  simp only [same, outline, Bool.and_eq_true, beq_iff_eq, Condition.sameValues_iff, mk.injEq]
  tauto

end Push

namespace Edit

/-- The edit with null, or zero, in the place of every document. -/
def outline : Edit → Edit
  | .set _ => .set .null
  | .min _ => .min .null
  | .max _ => .max .null
  | .inc _ => .inc (.int 0)
  | .mul _ => .mul (.int 0)
  | .push operand => .push operand.outline
  | .addToSet values => .addToSet (values.map fun _ => .null)
  | .pull condition => .pull condition.outline
  | edit => edit

theorem length_documents_of_outline_eq {edit other : Edit}
    (outlines : edit.outline = other.outline) :
    edit.documents.length = other.documents.length := by
  have counts : ∀ edit : Edit, edit.outline.documents.length = edit.documents.length := by
    intro edit
    cases edit <;> simp [outline, documents, Push.outline, Condition.length_documents_outline]
  rw [← counts edit, outlines, counts]

/-- Edits are equal when they have the same outline and the same documents. -/
theorem same_iff {edit other : Edit} : edit.same other = true ↔
    edit.outline = other.outline ∧ SameDocuments edit.documents other.documents := by
  cases edit <;> cases other <;>
    simp [same, outline, documents, SameDocuments, Number.same_eq, Push.same_iff,
      Condition.same_iff, Condition.sameValues_iff]

end Edit

namespace Update

/-- The entries with null in the place of every document. -/
def entriesOutline (entries : List Entry) : List Entry :=
  entries.map fun entry => ⟨entry.path, entry.edit.outline⟩

theorem sameEntries_iff {entries others : List Entry} : sameEntries entries others = true ↔
    entriesOutline entries = entriesOutline others ∧
      SameDocuments (entries.flatMap fun entry => entry.edit.documents)
        (others.flatMap fun entry => entry.edit.documents) := by
  induction entries generalizing others with
  | nil => cases others <;> simp [sameEntries, entriesOutline, SameDocuments]
  | cons entry rest ih =>
      cases others with
      | nil => simp [sameEntries, entriesOutline]
      | cons other others =>
          rw [sameEntries, Bool.and_eq_true, Bool.and_eq_true, beq_iff_eq, Edit.same_iff, ih]
          simp only [entriesOutline, List.map_cons, List.cons.injEq, Entry.mk.injEq,
            List.flatMap_cons]
          constructor
          · rintro ⟨⟨paths, outlines, first⟩, restOutlines, restSame⟩
            exact ⟨⟨⟨paths, outlines⟩, restOutlines⟩, (forall₂_append_iff
              (Edit.length_documents_of_outline_eq outlines)).2 ⟨first, restSame⟩⟩
          · rintro ⟨⟨⟨paths, outlines⟩, restOutlines⟩, alike⟩
            obtain ⟨first, restSame⟩ := (forall₂_append_iff
              (Edit.length_documents_of_outline_eq outlines)).1 alike
            exact ⟨⟨paths, outlines, first⟩, restOutlines, restSame⟩

/-- Updates are equal when they have the same outline and the same documents. -/
theorem same_iff {update other : Update} : update.same other = true ↔
    entriesOutline update.entries.toList = entriesOutline other.entries.toList ∧
      SameDocuments update.documents other.documents :=
  sameEntries_iff

variable {update other last : Update}

/-- An update equals itself where no key repeats and no float is not-a-number. -/
theorem same_refl (distinct : update.Carries Document.KeysDistinct)
    (numbers : update.Carries (Document.Everywhere Document.NotNaN)) :
    update.same update = true :=
  same_iff.2 ⟨rfl, List.forall₂_same.2 fun value carried =>
    Document.same_refl (distinct value carried) (numbers value carried)⟩

/-- Equality can be turned around where no key repeats on the left. -/
theorem same_symm (distinct : update.Carries Document.KeysDistinct)
    (same : update.same other = true) : other.same update = true := by
  obtain ⟨outlines, alike⟩ := same_iff.1 same
  exact same_iff.2 ⟨outlines.symm, forall₂_symm
    (fun value carried _ => Document.same_symm (distinct value carried)) alike⟩

theorem same_trans (first : update.same other = true) (second : other.same last = true) :
    update.same last = true := by
  obtain ⟨outlines, alike⟩ := same_iff.1 first
  obtain ⟨otherOutlines, following⟩ := same_iff.1 second
  exact same_iff.2 ⟨outlines.trans otherOutlines,
    forall₂_trans (fun _ _ _ _ => Document.same_trans) alike following⟩

/-- What equals one of two equal updates equals the other. -/
theorem same_right_congr (distinct : update.Carries Document.KeysDistinct)
    (same : update.same other = true) (before : Update) : before.same update = before.same other :=
  Bool.eq_iff_iff.2 ⟨fun first => same_trans first same,
    fun first => same_trans first (same_symm distinct same)⟩

theorem same_left_congr (distinct : update.Carries Document.KeysDistinct)
    (same : update.same other = true) (last : Update) : update.same last = other.same last :=
  Bool.eq_iff_iff.2 ⟨fun first => same_trans (same_symm distinct same) first,
    fun first => same_trans same first⟩

end Update

end LocalFirst
