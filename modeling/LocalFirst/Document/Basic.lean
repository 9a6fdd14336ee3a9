import LocalFirst.Members

/-!
# Documents

A document is a tree of scalars, arrays and objects.  Integers are signed
64-bit words and are kept apart from floats.  Objects list their members in
insertion order; documents that come out of a reader or an update never repeat
a key, and `Document.KeysDistinct` says so.
-/

namespace LocalFirst

inductive Document where
  | null
  | bool (value : Bool)
  | int (value : Int64)
  | float (value : Float)
  | string (value : String)
  | array (items : List Document)
  | object (members : List (String × Document))
  deriving Inhabited

/-- The kinds of documents. -/
inductive Kind where
  | null
  | bool
  | int
  | float
  | string
  | array
  | object
  deriving DecidableEq, Repr

/-- The name of a kind in messages. -/
def Kind.name : Kind → String
  | .null => "null"
  | .bool => "bool"
  | .int => "int"
  | .float => "float"
  | .string => "string"
  | .array => "array"
  | .object => "object"

/-- A numeric operand or field. -/
inductive Number where
  | int (value : Int64)
  | float (value : Float)

namespace Document

def kind : Document → Kind
  | .null => .null
  | .bool _ => .bool
  | .int _ => .int
  | .float _ => .float
  | .string _ => .string
  | .array _ => .array
  | .object _ => .object

/-- The object without members. -/
def emptyObject : Document :=
  .object []

/-- An object built from pairs; a repeated key keeps its last value. -/
def ofPairs (pairs : List (String × Document)) : Document :=
  .object (Members.ofPairs pairs)

def isNull : Document → Bool
  | .null => true
  | _ => false

def bool? : Document → Option Bool
  | .bool value => some value
  | _ => none

def int? : Document → Option Int64
  | .int value => some value
  | _ => none

def string? : Document → Option String
  | .string value => some value
  | _ => none

def array? : Document → Option (List Document)
  | .array items => some items
  | _ => none

def members? : Document → Option (List (String × Document))
  | .object members => some members
  | _ => none

def number? : Document → Option Number
  | .int value => some (.int value)
  | .float value => some (.float value)
  | _ => none

def ofNumber : Number → Document
  | .int value => .int value
  | .float value => .float value

/-- The member of an object with this key. -/
def get? (key : String) : Document → Option Document
  | .object members => Members.get? key members
  | _ => none

/-- An operator key begins with a dollar sign. -/
def isOperatorKey (key : String) : Bool :=
  key.toList.head? = some '$'

/-- Whether some member of an object has an operator key. -/
def hasOperatorKeys : Document → Bool
  | .object members => members.any (fun member => isOperatorKey member.1)
  | _ => false

mutual

/-- No object in the tree repeats a key. -/
def KeysDistinct : Document → Prop
  | .array items => ItemKeysDistinct items
  | .object members => (Members.keys members).Nodup ∧ MemberKeysDistinct members
  | _ => True

def ItemKeysDistinct : List Document → Prop
  | [] => True
  | item :: rest => item.KeysDistinct ∧ ItemKeysDistinct rest

def MemberKeysDistinct : List (String × Document) → Prop
  | [] => True
  | (_, value) :: rest => value.KeysDistinct ∧ MemberKeysDistinct rest

end

@[simp]
theorem number?_ofNumber (number : Number) : (ofNumber number).number? = some number := by
  cases number <;> rfl

end Document

end LocalFirst
