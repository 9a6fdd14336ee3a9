import LocalFirst.Update.Condition
import LocalFirst.Update.Operator

/-!
# Edits

An edit is one operator together with its operand: what an update does at one
path.
-/

namespace LocalFirst

inductive SortDirection where
  | ascending
  | descending
  deriving DecidableEq, Repr

/-- How a push sorts the array. -/
inductive SortRule where
  | items (direction : SortDirection)
  | keys (keys : List (Path × SortDirection))
  deriving DecidableEq

/-- The operand of a push: the pushed values, the place where they go, the
order of the whole array afterwards, and how much of it stays. -/
structure Push where
  each : List Document
  position : Option Int64 := none
  slice : Option Int64 := none
  sort : Option SortRule := none

/-- One bitwise step on an integer. -/
inductive BitStep where
  | and (mask : Int64)
  | or (mask : Int64)
  | xor (mask : Int64)
  deriving DecidableEq

/-- The form in which the current date is written. -/
inductive DateForm where
  | date
  | timestamp
  deriving DecidableEq, Repr

/-- An end of an array. -/
inductive ArrayEnd where
  | first
  | last
  deriving DecidableEq, Repr

inductive Edit where
  | set (value : Document)
  | unset
  | rename (name : String)
  | inc (amount : Number)
  | mul (factor : Number)
  | min (value : Document)
  | max (value : Document)
  | bit (steps : List BitStep)
  | currentDate (form : DateForm)
  | push (operand : Push)
  | addToSet (values : List Document)
  | pull (condition : Condition)
  | pop (side : ArrayEnd)

namespace Push

def same (left right : Push) : Bool :=
  Condition.sameValues left.each right.each && left.position == right.position &&
    left.slice == right.slice && left.sort == right.sort

/-- Add a key to the order of the array.  A rule for whole items gives way. -/
def sortedBy (operand : Push) (key : Path) (direction : SortDirection) : Push :=
  match operand.sort with
  | some (.keys keys) => { operand with sort := some (.keys (keys ++ [(key, direction)])) }
  | _ => { operand with sort := some (.keys [(key, direction)]) }

end Push

namespace Edit

def operator : Edit → Operator
  | .set _ => .set
  | .unset => .unset
  | .rename _ => .rename
  | .inc _ => .inc
  | .mul _ => .mul
  | .min _ => .min
  | .max _ => .max
  | .bit _ => .bit
  | .currentDate _ => .currentDate
  | .push _ => .push
  | .addToSet _ => .addToSet
  | .pull _ => .pull
  | .pop _ => .pop

/-- Equality of edits, with equality of documents at the leaves. -/
def same : Edit → Edit → Bool
  | .set left, .set right => left.same right
  | .unset, .unset => true
  | .rename left, .rename right => left == right
  | .inc left, .inc right => left.same right
  | .mul left, .mul right => left.same right
  | .min left, .min right => left.same right
  | .max left, .max right => left.same right
  | .bit left, .bit right => left == right
  | .currentDate left, .currentDate right => left == right
  | .push left, .push right => left.same right
  | .addToSet left, .addToSet right => Condition.sameValues left right
  | .pull left, .pull right => left.same right
  | .pop left, .pop right => left == right
  | _, _ => false

end Edit

end LocalFirst
