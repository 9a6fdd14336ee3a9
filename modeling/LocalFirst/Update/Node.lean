import LocalFirst.Update.Error

/-!
# Writing into documents

Writes go one step at a time: a member of an object or an item of an array is
written or removed, and the documents above it are rebuilt around the new one.
Writing past the end of an array pads it with nulls, up to a bound.
-/

namespace LocalFirst

namespace Document

/-- How many nulls a write past the end of an array may insert. -/
def maxPadding : Nat :=
  10000

/-- Write an item of an array, padding it with nulls when it is too short. -/
def writeItem (items : List Document) (index : Nat) (value : Document) : List Document :=
  (items ++ List.replicate (index + 1 - items.length) Document.null).set index value

/-- Write the member or item that one segment names. -/
def setChild (node : Document) (segment : String) (value : Document) :
    Except EntryFault Document :=
  match node with
  | .object members => .ok (.object (Members.put segment value members))
  | .array items =>
      match Path.index? segment with
      | none => .error (.fieldInArray segment)
      | some index =>
          if index + 1 ≤ items.length + maxPadding then
            .ok (.array (writeItem items index value))
          else .error .indexOutOfRange
  | scalar => .error (.fieldInScalar segment scalar.kind)

/-- Remove a member of an object.  An item of an array is replaced by null, so
that the others keep their places. -/
def removeChild (node : Document) (segment : String) : Document :=
  match node with
  | .object members => .object (Members.erase segment members)
  | .array items =>
      match Path.index? segment with
      | none => node
      | some index => .array (items.set index .null)
  | _ => node

/-- Change the document that holds the last of the segments.  With `create`,
missing documents on the way are created as objects; without it a missing one
leaves everything as it is. -/
def updateParent (create : Bool) (act : Document → String → Except EntryFault Document)
    (node : Document) : List String → Except EntryFault Document
  | [] => .error (.path .emptyPath)
  | [last] => act node last
  | segment :: next :: rest =>
      match node.child? segment with
      | some child => do
          let updated ← child.updateParent create act (next :: rest)
          node.setChild segment updated
      | none =>
          if create then do
            let grown ← node.setChild segment emptyObject
            match grown.child? segment with
            | none => .error .notReachable
            | some child =>
                let updated ← child.updateParent create act (next :: rest)
                grown.setChild segment updated
          else .ok node

/-- Change the document that holds the field at a path. -/
def atParent (create : Bool) (act : Document → String → Except EntryFault Document)
    (document : Document) (path : Path) : Except EntryFault Document :=
  match path.fault? with
  | some fault => .error (.path fault)
  | none => document.updateParent create act path.segments

end Document

end LocalFirst
