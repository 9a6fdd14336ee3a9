import LocalFirst.Instant
import LocalFirst.Update.Basic
import LocalFirst.Update.Node

/-!
# Applying updates

An update runs its entries in order, each one on the result of the one before,
and succeeds only as a whole.  Most edits create the documents that are missing
on the way to their path; edits that can only remove something leave the
document alone when there is nothing at their path.
-/

universe u

namespace LocalFirst

namespace SortDirection

def direct (direction : SortDirection) (order : Ordering) : Ordering :=
  match direction with
  | .ascending => order
  | .descending => order.swap

end SortDirection

namespace SortRule

/-- The order of two items.  Keys decide one after another; a missing key counts
as null. -/
def compare (rule : SortRule) (left right : Document) : Ordering :=
  match rule with
  | .items direction => direction.direct (left.compare right)
  | .keys order =>
      order.foldl (fun decided key =>
        decided.then
          (key.2.direct
            (((left.resolve? key.1).getD .null).compare ((right.resolve? key.1).getD .null)))) .eq

/-- Sort items; those that compare equal keep their order. -/
def sort (rule : SortRule) (items : List Document) : List Document :=
  items.mergeSort (fun left right => (rule.compare left right).isLE)

end SortRule

namespace Push

/-- Where the pushed values go: a negative position counts from the end. -/
def place (position : Option Int64) (length : Nat) : Nat :=
  match position with
  | none => length
  | some position =>
      if 0 ≤ position.toInt then Nat.min position.toInt.toNat length
      else length - position.toInt.natAbs

/-- How much of the array stays: a negative bound keeps its end. -/
def cut (slice : Option Int64) (items : List Document) : List Document :=
  match slice with
  | none => items
  | some bound =>
      if 0 ≤ bound.toInt then items.take bound.toInt.toNat
      else items.drop (items.length - bound.toInt.natAbs)

/-- Insert the pushed values, sort the array and cut it. -/
def run (operand : Push) (items : List Document) : List Document :=
  let before := place operand.position items.length
  let inserted := items.take before ++ operand.each ++ items.drop before
  let sorted := match operand.sort with
    | none => inserted
    | some rule => rule.sort inserted
  cut operand.slice sorted

end Push

namespace BitStep

def run : BitStep → Int64 → Int64
  | .and mask, value => value &&& mask
  | .or mask, value => value ||| mask
  | .xor mask, value => value ^^^ mask

end BitStep

namespace ArrayEnd

/-- Remove the item at one end, if there is one. -/
def removeFrom : ArrayEnd → List Document → List Document
  | .first, items => items.drop 1
  | .last, items => items.dropLast

end ArrayEnd

/-- Append the values that are not equivalent to an item that is already there. -/
def joinSet (items values : List Document) : List Document :=
  values.foldl
    (fun collected value =>
      if collected.any (·.equivalent value) then collected else collected ++ [value])
    items

namespace Edit

/-- Combine a numeric field with an operand; without a field, `start` is
written. -/
def combine (start : Number) (op : Number → Option Number) (node : Document) (key : String) :
    Except EntryFault Document :=
  match node.child? key with
  | none => node.setChild key (Document.ofNumber start)
  | some current =>
      match current.number? with
      | none => .error (.unsuitable current.kind)
      | some number =>
          match op number with
          | none => .error .integerOverflow
          | some result => node.setChild key (Document.ofNumber result)

/-- Write a value unless the field is there and does not compare as wanted. -/
def writeIf (wanted : Ordering) (value node : Document) (key : String) :
    Except EntryFault Document :=
  match node.child? key with
  | none => node.setChild key value
  | some current =>
      if value.compare current = wanted then node.setChild key value else .ok node

/-- Run bitwise steps on an integer field; a missing one counts as zero. -/
def runBits (steps : List BitStep) (node : Document) (key : String) :
    Except EntryFault Document :=
  let run (value : Int64) := node.setChild key (.int (steps.foldl (fun n step => step.run n) value))
  match node.child? key with
  | none => run 0
  | some (.int value) => run value
  | some other => .error (.unsuitable other.kind)

/-- Change an array field; a missing one counts as the empty array. -/
def growArray (act : List Document → List Document) (node : Document) (key : String) :
    Except EntryFault Document :=
  match node.child? key with
  | none => node.setChild key (.array (act []))
  | some (.array items) => node.setChild key (.array (act items))
  | some other => .error (.notAnArray other.kind)

/-- Change an array field, if there is one. -/
def shrinkArray (act : List Document → List Document) (node : Document) (key : String) :
    Except EntryFault Document :=
  match node.child? key with
  | none => .ok node
  | some (.array items) => node.setChild key (.array (act items))
  | some other => .error (.notAnArray other.kind)

/-- The current date in one of its forms. -/
def stamp (now : Instant) : DateForm → Document
  | .date => .string now.rfc3339
  | .timestamp => .int (Int64.ofInt now.millis)

/-- Whether an edit creates the documents that are missing on the way. -/
def creates : Edit → Bool
  | .unset | .rename _ | .pull _ | .pop _ => false
  | _ => true

/-- What an edit does to the document that holds its field.  A rename only takes
the field away here; `Entry.rename` writes it elsewhere. -/
def act (now : Instant) : Edit → Document → String → Except EntryFault Document
  | .set value, node, key => node.setChild key value
  | .unset, node, key => .ok (node.removeChild key)
  | .rename _, node, key => .ok (node.removeChild key)
  | .inc amount, node, key => combine amount (·.add? amount) node key
  | .mul factor, node, key => combine factor.zeroLike (·.mul? factor) node key
  | .min value, node, key => writeIf .lt value node key
  | .max value, node, key => writeIf .gt value node key
  | .bit steps, node, key => runBits steps node key
  | .currentDate form, node, key => node.setChild key (stamp now form)
  | .push operand, node, key => growArray operand.run node key
  | .addToSet values, node, key => growArray (joinSet · values) node key
  | .pull condition, node, key =>
      shrinkArray (fun items => items.filter (fun item => !condition.matchesItem item)) node key
  | .pop side, node, key => shrinkArray side.removeFrom node key

end Edit

namespace Path

/-- Where a rename moves the field at a path: a dotted name is a whole path, any
other name stays beside the field. -/
def renamed (path : Path) (name : String) : Path :=
  if name.toList.contains '.' then parse name
  else
    match path.parent? with
    | some parent => parent.child name
    | none => parse name

end Path

namespace Entry

/-- Blame a fault on an operator at a path. -/
def blame {α : Type u} (operator : Operator) (path : Path) (result : Except EntryFault α) :
    Except UpdateError α :=
  result.mapError (.invalid operator.name path)

/-- Refuse to take an item out of an array. -/
def renameSource (node : Document) (key : String) : Except EntryFault Document :=
  match node with
  | .array _ => .error .renamesItem
  | _ => .ok (node.removeChild key)

/-- Move the field at a path to where its new name points.  Without such a field
nothing happens. -/
def rename (document : Document) (path : Path) (name : String) :
    Except UpdateError Document :=
  let target := path.renamed name
  match target.fault? with
  | some fault => .error (.invalid Operator.rename.name target (.path fault))
  | none =>
      if target = path then .ok document
      else do
        let remaining ← blame .rename path (document.atParent false renameSource path)
        match document.resolve? path with
        | none => return remaining
        | some value =>
            blame .rename target
              (remaining.atParent true (fun node key => node.setChild key value) target)

/-- Run one entry. -/
def run (now : Instant) (document : Document) (entry : Entry) :
    Except UpdateError Document :=
  match entry.edit with
  | .rename name => rename document entry.path name
  | edit =>
      blame edit.operator entry.path
        (document.atParent edit.creates (edit.act now) entry.path)

end Entry

namespace Update

/-- Apply an update to a document. -/
def apply (now : Instant) (document : Document) (update : Update) :
    Except UpdateError Document :=
  update.entries.toList.foldlM (Entry.run now) document

/-- Apply updates one after another, all or none. -/
def applyAll (now : Instant) (document : Document) (updates : List Update) :
    Except UpdateError Document :=
  updates.foldlM (Update.apply now) document

end Update

end LocalFirst
