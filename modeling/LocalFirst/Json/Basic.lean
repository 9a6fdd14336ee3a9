import LocalFirst.Members

/-!
# JSON trees

The tree that a JSON text denotes.  Integer literals keep their value exactly
as long as a signed or an unsigned 64-bit word can hold them; every other
number is a double.  Objects keep their members in order of first appearance.
-/

namespace LocalFirst

inductive Json where
  | null
  | bool (value : Bool)
  | integer (value : Int)
  | float (value : Float)
  | string (value : String)
  | array (items : List Json)
  | object (members : List (String × Json))
  deriving Inhabited

namespace Json

/-- An object built from pairs; a repeated key keeps its last value. -/
def ofPairs (pairs : List (String × Json)) : Json :=
  .object (Members.ofPairs pairs)

/-- The member of an object with this key. -/
def get? (key : String) : Json → Option Json
  | .object members => Members.get? key members
  | _ => none

/-- Change the member of an object under a key; other trees stay as they are. -/
def change (key : String) (edit : Json → Json) : Json → Json
  | .object members => .object (Members.change key edit members)
  | tree => tree

/-- Whether the first member of an object that has one of the two keys has the
first of them. -/
def precedes (key other : String) : Json → Bool
  | .object members => Members.precedes key other members
  | _ => false

def string? : Json → Option String
  | .string value => some value
  | _ => none

def bool? : Json → Option Bool
  | .bool value => some value
  | _ => none

def integer? : Json → Option Int
  | .integer value => some value
  | _ => none

def array? : Json → Option (List Json)
  | .array items => some items
  | _ => none

def members? : Json → Option (List (String × Json))
  | .object members => some members
  | _ => none

end Json

end LocalFirst
