import LocalFirst.Document.Basic

/-!
# Numbers in documents

Arithmetic on two integers stays an integer and is refused when the exact
result leaves the 64-bit range.  As soon as one operand is a float, the
operation is carried out on floats.
-/

namespace LocalFirst

namespace Number

/-- The signed 64-bit word that holds an integer, if one does. -/
def word? (value : Int) : Option Int64 :=
  if Int64.minValue.toInt ≤ value ∧ value ≤ Int64.maxValue.toInt then some (Int64.ofInt value)
  else none

def toFloat : Number → Float
  | .int value => value.toFloat
  | .float value => value

/-- The zero of the same kind. -/
def zeroLike : Number → Number
  | .int _ => .int 0
  | .float _ => .float 0.0

/-- The sum, unless two integers leave the 64-bit range. -/
def add? : Number → Number → Option Number
  | .int left, .int right => (word? (left.toInt + right.toInt)).map .int
  | left, right => some (.float (left.toFloat + right.toFloat))

/-- The product, unless two integers leave the 64-bit range. -/
def mul? : Number → Number → Option Number
  | .int left, .int right => (word? (left.toInt * right.toInt)).map .int
  | left, right => some (.float (left.toFloat * right.toFloat))

/-- Equality that keeps integers and floats apart. -/
def same : Number → Number → Bool
  | .int left, .int right => left == right
  | .float left, .float right => left == right
  | _, _ => false

/-- Order by value.  A NaN is below every other number. -/
def compare : Number → Number → Ordering
  | .int left, .int right => Ord.compare left.toInt right.toInt
  | left, right =>
      let left := left.toFloat
      let right := right.toFloat
      match left.isNaN, right.isNaN with
      | true, true => .eq
      | true, false => .lt
      | false, true => .gt
      | false, false => if left < right then .lt else if left == right then .eq else .gt

/-- A number as an integer: a float counts when it has no fractional part, and
is then cut to the 64-bit range. -/
def integer? : Number → Option Int64
  | .int value => some value
  | .float value =>
      if value.isFinite && value.floor == value then some value.toInt64 else none

end Number

/-- The value of a number as a float. -/
def Document.float? (document : Document) : Option Float :=
  document.number?.map Number.toFloat

end LocalFirst
