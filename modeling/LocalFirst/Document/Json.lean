import LocalFirst.Document.Number
import LocalFirst.Json.Printer

/-!
# Documents and JSON

Every JSON tree is read as a document: an integer that a signed 64-bit word
cannot hold becomes a float.  Every document is written as JSON, a number that
is not finite as null.
-/

namespace LocalFirst

namespace Document

mutual

def ofJson : Json → Document
  | .null => .null
  | .bool value => .bool value
  | .integer value =>
      match Number.word? value with
      | some word => .int word
      | none => .float (Float.ofInt value)
  | .float value => .float value
  | .string value => .string value
  | .array items => .array (ofJsonItems items)
  | .object members => .object (ofJsonMembers members)

def ofJsonItems : List Json → List Document
  | [] => []
  | item :: rest => ofJson item :: ofJsonItems rest

def ofJsonMembers : List (String × Json) → List (String × Document)
  | [] => []
  | (key, value) :: rest => (key, ofJson value) :: ofJsonMembers rest

end

mutual

def toJson : Document → Json
  | .null => .null
  | .bool value => .bool value
  | .int value => .integer value.toInt
  | .float value => if value.isFinite then .float value else .null
  | .string value => .string value
  | .array items => .array (toJsonItems items)
  | .object members => .object (toJsonMembers members)

def toJsonItems : List Document → List Json
  | [] => []
  | item :: rest => item.toJson :: toJsonItems rest

def toJsonMembers : List (String × Document) → List (String × Json)
  | [] => []
  | (key, value) :: rest => (key, value.toJson) :: toJsonMembers rest

end

/-- The compact JSON text of a document. -/
def text (document : Document) : String :=
  document.toJson.text

end Document

end LocalFirst
