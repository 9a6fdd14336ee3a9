import LocalFirst.Document.Json
import LocalFirst.Document.Path

/-!
# Errors of updates

An error says which of three things went wrong: one entry of an update is
invalid or cannot be applied at its path, an update as a whole is malformed, or
a document does not describe a value of some type.  Causes are kept as data;
`UpdateError.message` words them.
-/

namespace LocalFirst

/-- Why one entry of an update is refused. -/
inductive EntryFault where
  | path (fault : PathFault)
  | notReachable
  | unsuitable (kind : Kind)
  | integerOverflow
  | renamesItem
  | notAnArray (kind : Kind)
  | fieldInArray (segment : String)
  | indexOutOfRange
  | fieldInScalar (segment : String) (kind : Kind)
  | mixedCondition
  | needsArray (operator : String)
  | unsupportedCondition (operator : String)
  | sortDirection (operand : Document)
  | modifiersWithoutEach
  | eachNotArray
  | unknownModifier (key : String)
  | notInteger (what : String)
  | newNameNotString
  | operandNotNumber (kind : Kind)
  | bitOperand
  | unknownBitOperator (key : String)
  | dateType
  | dateOperand
  | popOperand

/-- Why an update as a whole is refused. -/
inductive FormFault where
  | notMapping (kind : Kind)
  | mixedKeys
  | unknownOperator (key : String)
  | payloadNotMapping (operator : String) (kind : Kind)

/-- Why a document does not describe a value of some type. -/
inductive RestoreFault where
  | notMapping (kind : Kind)
  | missingField (key : String)
  | fieldType (key expected : String)
  | mustBe (subject requirement : String)
  | negative (key : String)
  | unknownName (what name : String)
  | other (reason : String)

inductive UpdateError where
  | invalid (operator : String) (path : Path) (fault : EntryFault)
  | malformed (fault : FormFault)
  | restore (typeName : String) (fault : RestoreFault)

def PathFault.message : PathFault → String
  | .emptyPath => "empty path"
  | .emptySegment => "empty path segment"

def EntryFault.message : EntryFault → String
  | .path fault => fault.message
  | .notReachable => "path not reachable"
  | .unsuitable kind => "cannot apply to a value of type " ++ kind.name
  | .integerOverflow => "integer overflow"
  | .renamesItem => "cannot rename a sequence element"
  | .notAnArray kind => "expected an array, found " ++ kind.name
  | .fieldInArray segment => "cannot use field name " ++ segment ++ " inside an array"
  | .indexOutOfRange => "index out of range"
  | .fieldInScalar segment kind =>
      "cannot create field " ++ segment ++ " in a value of type " ++ kind.name
  | .mixedCondition => "condition mixes operators and field names"
  | .needsArray operator => operator ++ " needs an array"
  | .unsupportedCondition operator => "unsupported condition operator " ++ operator
  | .sortDirection operand => "sort direction must be 1 or -1, got " ++ operand.text
  | .modifiersWithoutEach => "modifiers require $each"
  | .eachNotArray => "$each must be an array"
  | .unknownModifier key => "unknown modifier " ++ key
  | .notInteger what => what ++ " must be an integer"
  | .newNameNotString => "new name must be a string"
  | .operandNotNumber kind => "operand must be a number, got " ++ kind.name
  | .bitOperand => "expects \x7band|or|xor: int\x7d"
  | .unknownBitOperator key => "unknown bitwise operator " ++ key
  | .dateType => "$type must be \"date\" or \"timestamp\""
  | .dateOperand => "operand must be true or \x7b$type\x7d"
  | .popOperand => "operand must be 1 or -1"

def FormFault.message : FormFault → String
  | .notMapping kind => "expected a mapping, got " ++ kind.name
  | .mixedKeys => "operator keys and plain fields cannot be mixed"
  | .unknownOperator key => "unknown operator " ++ key
  | .payloadNotMapping operator kind =>
      operator ++ " expects a mapping of paths, got " ++ kind.name

def RestoreFault.message : RestoreFault → String
  | .notMapping kind => "expected a mapping, got " ++ kind.name
  | .missingField key => "missing field " ++ key
  | .fieldType key expected => "field " ++ key ++ " must be a " ++ expected
  | .mustBe subject requirement => subject ++ " must be " ++ requirement
  | .negative key => key ++ " must not be negative"
  | .unknownName what name => "unknown " ++ what ++ " " ++ name
  | .other reason => reason

def UpdateError.message : UpdateError → String
  | .invalid operator path fault =>
      "invalid " ++ operator ++ " at \"" ++ path.text ++ "\": " ++ fault.message
  | .malformed fault => "malformed update operation: " ++ fault.message
  | .restore typeName fault =>
      "cannot restore " ++ typeName ++ " from document: " ++ fault.message

/-- Check that a path can address a field. -/
def Path.validate (operator : String) (path : Path) : Except UpdateError Unit :=
  match path.fault? with
  | some fault => .error (.invalid operator path (.path fault))
  | none => .ok ()

end LocalFirst
