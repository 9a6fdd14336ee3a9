import LocalFirst.Update.Error

/-!
# Typed documents

A type with a document form can be lowered to a document and rebuilt from one.
Records are rebuilt field by field by a reader that knows the name of the type,
so that every error says which type could not be restored and why.
-/

namespace LocalFirst

/-- A type whose values can be lowered to documents and rebuilt from them. -/
class DocumentForm (α : Type) where
  toDocument : α → Document
  ofDocument : Document → Except UpdateError α

instance : DocumentForm Document :=
  ⟨id, .ok⟩

/-- The members of a document, read as the fields of a named type. -/
structure Record where
  typeName : String
  members : List (String × Document)

namespace Record

/-- Read the fields of an object. -/
def ofDocument (typeName : String) (document : Document) : Except UpdateError Record :=
  match document with
  | .object members => .ok ⟨typeName, members⟩
  | other => .error (.restore typeName (.notMapping other.kind))

/-- The error of a field that does not have the expected type. -/
def mismatch (record : Record) (key expected : String) : UpdateError :=
  .restore record.typeName (.fieldType key expected)

/-- A field that must be present.  Null counts as present. -/
def required (record : Record) (key : String) : Except UpdateError Document :=
  match Members.get? key record.members with
  | some value => .ok value
  | none => .error (.restore record.typeName (.missingField key))

/-- A field that may be absent or null. -/
def optional? (record : Record) (key : String) : Option Document :=
  (Members.get? key record.members).filter (fun value => !value.isNull)

/-- A field that must be present and be read by a function. -/
def read {α : Type} (record : Record) (read? : Document → Option α) (expected key : String) :
    Except UpdateError α := do
  match read? (← record.required key) with
  | some value => return value
  | none => throw (record.mismatch key expected)

def string (record : Record) (key : String) : Except UpdateError String :=
  record.read Document.string? "string" key

def int (record : Record) (key : String) : Except UpdateError Int64 :=
  record.read Document.int? "int" key

def float (record : Record) (key : String) : Except UpdateError Float :=
  record.read Document.float? "number" key

def bool (record : Record) (key : String) : Except UpdateError Bool :=
  record.read Document.bool? "bool" key

def optionalString (record : Record) (key : String) : Except UpdateError (Option String) :=
  match record.optional? key with
  | none => .ok none
  | some (.string value) => .ok (some value)
  | some _ => .error (record.mismatch key "string")

/-- A field with a typed value. -/
def typed {α : Type} [DocumentForm α] (record : Record) (key : String) :
    Except UpdateError α := do
  DocumentForm.ofDocument (← record.required key)

/-- A field with a typed value that may be absent or null. -/
def optionalTyped {α : Type} [DocumentForm α] (record : Record) (key : String) :
    Except UpdateError (Option α) :=
  match record.optional? key with
  | none => .ok none
  | some value => (DocumentForm.ofDocument value).map some

/-- A field with an array of typed values. -/
def typedList {α : Type} [DocumentForm α] (record : Record) (key : String) :
    Except UpdateError (List α) := do
  match ← record.required key with
  | .array items => items.mapM DocumentForm.ofDocument
  | _ => throw (record.mismatch key "array")

end Record

end LocalFirst
