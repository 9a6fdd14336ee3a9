import LocalFirst.Document.Agreement
import LocalFirst.Document.Order
import LocalFirst.Update.Error

/-!
# Conditions on array items

The items that a pull removes are described by a condition: equality,
membership, comparison within a bracket, and conditions on the fields of an
object.  On the wire a condition is a document in which operator keys mark
everything but plain equality; an object without operator keys is a condition
on its fields.
-/

namespace LocalFirst

/-- How an item is compared with an operand. -/
inductive Comparison where
  | eq
  | ne
  | gt
  | gte
  | lt
  | lte
  deriving DecidableEq, Repr

namespace Comparison

def name : Comparison → String
  | .eq => "$eq"
  | .ne => "$ne"
  | .gt => "$gt"
  | .gte => "$gte"
  | .lt => "$lt"
  | .lte => "$lte"

def ofName? : String → Option Comparison
  | "$eq" => some .eq
  | "$ne" => some .ne
  | "$gt" => some .gt
  | "$gte" => some .gte
  | "$lt" => some .lt
  | "$lte" => some .lte
  | _ => none

/-- Whether the comparison holds.  The range comparisons hold only between
documents of one bracket. -/
def holds (comparison : Comparison) (actual operand : Document) : Bool :=
  match comparison with
  | .eq => actual.equivalent operand
  | .ne => !actual.equivalent operand
  | .gt => actual.sameBracket operand && (actual.compare operand).isGT
  | .gte => actual.sameBracket operand && (actual.compare operand).isGE
  | .lt => actual.sameBracket operand && (actual.compare operand).isLT
  | .lte => actual.sameBracket operand && (actual.compare operand).isLE

end Comparison

/-- A condition on an array item. -/
inductive Condition where
  | equals (value : Document)
  | isIn (values : List Document)
  | notIn (values : List Document)
  | compares (comparison : Comparison) (operand : Document)
  | all (parts : List Condition)
  | fields (conditions : List (Path × Condition))
  deriving Inhabited

namespace Condition

mutual

/-- Whether an item meets the condition.  A missing field counts as null. -/
def matchesItem : Condition → Document → Bool
  | .equals value, item => item.equivalent value
  | .isIn values, item => values.any item.equivalent
  | .notIn values, item => !values.any item.equivalent
  | .compares comparison operand, item => comparison.holds item operand
  | .all parts, item => allMatch parts item
  | .fields conditions, .object members => fieldsMatch conditions (.object members)
  | .fields _, _ => false

def allMatch : List Condition → Document → Bool
  | [], _ => true
  | part :: parts, item => part.matchesItem item && allMatch parts item

def fieldsMatch : List (Path × Condition) → Document → Bool
  | [], _ => true
  | (field, condition) :: rest, item =>
      condition.matchesItem ((item.resolve? field).getD .null) && fieldsMatch rest item

end

/-- Pairwise equality of lists of documents. -/
def sameValues : List Document → List Document → Bool :=
  Document.agreeItems Document.sameScalar

mutual

/-- Equality of conditions, with equality of documents at the leaves. -/
def same : Condition → Condition → Bool
  | .equals value, .equals other => value.same other
  | .isIn values, .isIn others => sameValues values others
  | .notIn values, .notIn others => sameValues values others
  | .compares comparison operand, .compares otherComparison other =>
      comparison == otherComparison && operand.same other
  | .all parts, .all others => sameParts parts others
  | .fields conditions, .fields others => sameFields conditions others
  | _, _ => false

def sameParts : List Condition → List Condition → Bool
  | [], [] => true
  | part :: parts, other :: others => part.same other && sameParts parts others
  | _, _ => false

def sameFields : List (Path × Condition) → List (Path × Condition) → Bool
  | [], [] => true
  | (field, condition) :: rest, (otherField, other) :: others =>
      field == otherField && condition.same other && sameFields rest others
  | _, _ => false

end

/-- The operator under which errors in a condition are reported. -/
def operatorName : String :=
  "$pull"

/-- Read one member of an object of operators. -/
def ofOperator (path : Path) (key : String) (operand : Document) :
    Except UpdateError Condition :=
  if key = "$in" ∨ key = "$nin" then
    match operand with
    | .array items => .ok (if key = "$in" then .isIn items else .notIn items)
    | _ => .error (.invalid operatorName path (.needsArray key))
  else
    match Comparison.ofName? key with
    | some comparison => .ok (.compares comparison operand)
    | none => .error (.invalid operatorName path (.unsupportedCondition key))

/-- Join the conditions of one object of operators. -/
def ofParts : List Condition → Condition
  | [.compares .eq value] => .equals value
  | [part] => part
  | parts => .all parts

mutual

/-- Read a condition that stands at a path. -/
def ofDocument (path : Path) : Document → Except UpdateError Condition
  | .object members =>
      if members.isEmpty then .ok (.equals (.object members))
      else if members.all (fun member => Document.isOperatorKey member.1) then
        (members.mapM (fun member => ofOperator path member.1 member.2)).map ofParts
      else if members.any (fun member => Document.isOperatorKey member.1) then
        .error (.invalid operatorName path .mixedCondition)
      else
        (ofFields path members).map .fields
  | operand => .ok (.equals operand)

/-- Read the conditions on the fields of an object. -/
def ofFields (path : Path) :
    List (String × Document) → Except UpdateError (List (Path × Condition))
  | [] => .ok []
  | (key, operand) :: rest => do
      let condition ← ofDocument path operand
      let conditions ← ofFields path rest
      return (Path.parse key, condition) :: conditions

end

mutual

/-- The wire form.  Equality with an object that has members is wrapped, since
the bare object would be read as a condition on its fields. -/
def toDocument : Condition → Document
  | .equals (.object (member :: members)) =>
      .object [("$eq", .object (member :: members))]
  | .equals value => value
  | .isIn values => .object [("$in", .array values)]
  | .notIn values => .object [("$nin", .array values)]
  | .compares comparison operand => .object [(comparison.name, operand)]
  | .all parts => Document.ofPairs (partMembers parts)
  | .fields conditions => Document.ofPairs (fieldMembers conditions)

/-- The members of the wire forms of several conditions, one after another.
Conditions whose wire form is not an object contribute nothing. -/
def partMembers : List Condition → List (String × Document)
  | [] => []
  | part :: parts => (part.toDocument.members?.getD []) ++ partMembers parts

def fieldMembers : List (Path × Condition) → List (String × Document)
  | [] => []
  | (field, condition) :: rest => (field.text, condition.toDocument) :: fieldMembers rest

end

end Condition

end LocalFirst
