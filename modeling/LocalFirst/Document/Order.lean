import LocalFirst.Document.Number

/-!
# Order of documents

Documents fall into brackets: null, numbers, strings, objects, arrays and
booleans, in this order.  Within a bracket arrays compare item by item, and
objects member by member in the order in which they list them, first by key
and then by value; a proper beginning comes first.
-/

namespace LocalFirst

/-- The place of a kind in the order of brackets. -/
def Kind.bracket : Kind → Nat
  | .null => 0
  | .int => 1
  | .float => 1
  | .string => 2
  | .object => 3
  | .array => 4
  | .bool => 5

namespace Document

/-- Whether two documents fall into the same bracket. -/
def sameBracket (left right : Document) : Bool :=
  left.kind.bracket == right.kind.bracket

mutual

/-- The order of two documents. -/
def compare : Document → Document → Ordering
  | .bool left, .bool right => Ord.compare left right
  | .int left, .int right => Number.compare (.int left) (.int right)
  | .int left, .float right => Number.compare (.int left) (.float right)
  | .float left, .int right => Number.compare (.float left) (.int right)
  | .float left, .float right => Number.compare (.float left) (.float right)
  | .string left, .string right => Ord.compare left right
  | .array items, .array others => compareItems items others
  | .object members, .object others => compareMembers members others
  | left, right => Ord.compare left.kind.bracket right.kind.bracket

def compareItems : List Document → List Document → Ordering
  | [], [] => .eq
  | [], _ :: _ => .lt
  | _ :: _, [] => .gt
  | item :: items, other :: others => (compare item other).then (compareItems items others)

def compareMembers :
    List (String × Document) → List (String × Document) → Ordering
  | [], [] => .eq
  | [], _ :: _ => .lt
  | _ :: _, [] => .gt
  | (key, value) :: members, (otherKey, other) :: others =>
      ((Ord.compare key otherKey).then (compare value other)).then
        (compareMembers members others)

end

/-- Sort documents in ascending order; documents that compare equal keep their
order. -/
def sort (documents : List Document) : List Document :=
  documents.mergeSort (fun left right => (compare left right).isLE)

end Document

end LocalFirst
