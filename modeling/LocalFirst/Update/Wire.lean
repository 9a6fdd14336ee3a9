import LocalFirst.Update.Basic

/-!
# Wire form of updates

On the wire an update is an object from operators to objects from paths to
operands.  An object without operator keys sets its members.  The writer uses
the shortest form of each operand: a single pushed value stands alone unless it
would be read as a modifier, and so does a single value for a set.
-/

namespace LocalFirst

/-- A number without a fractional part. -/
def Document.integer? (document : Document) : Option Int64 :=
  document.number?.bind Number.integer?

/-- Read an integer operand; `what` names it in the error. -/
def readInteger (operator : Operator) (path : Path) (what : String) (operand : Document) :
    Except UpdateError Int64 :=
  match operand.integer? with
  | some value => .ok value
  | none => .error (.invalid operator.name path (.notInteger what))

/-- Whether a document is the number one, or minus one. -/
def unitSign? : Document → Option Bool
  | .int value => if value = 1 then some true else if value = -1 then some false else none
  | .float value => if value == 1.0 then some true else if value == -1.0 then some false else none
  | _ => none

namespace SortDirection

def ofDocument (path : Path) (operand : Document) : Except UpdateError SortDirection :=
  match unitSign? operand with
  | some true => .ok .ascending
  | some false => .ok .descending
  | none => .error (.invalid Operator.push.name path (.sortDirection operand))

def toDocument : SortDirection → Document
  | .ascending => .int 1
  | .descending => .int (-1)

end SortDirection

namespace SortRule

def ofDocument (path : Path) : Document → Except UpdateError SortRule
  | .object members => do
      let order ← members.mapM (fun member => do
        return (Path.parse member.1, ← SortDirection.ofDocument path member.2))
      return .keys order
  | operand => return .items (← SortDirection.ofDocument path operand)

def toDocument : SortRule → Document
  | .items direction => direction.toDocument
  | .keys order => Document.ofPairs (order.map (fun key => (key.1.text, key.2.toDocument)))

end SortRule

namespace Push

/-- Read one modifier of a push. -/
def readModifier (path : Path) (operand : Push) (modifier : String × Document) :
    Except UpdateError Push :=
  let (key, argument) := modifier
  if key = "$each" then .ok operand
  else if key = "$position" then do
    return { operand with position := some (← readInteger .push path key argument) }
  else if key = "$slice" then do
    return { operand with slice := some (← readInteger .push path key argument) }
  else if key = "$sort" then do
    return { operand with sort := some (← SortRule.ofDocument path argument) }
  else .error (.invalid Operator.push.name path (.unknownModifier key))

/-- Read a push: an object with `$each` lists values and modifiers, anything
else is the one value to push. -/
def ofDocument (path : Path) (operand : Document) : Except UpdateError Push :=
  match operand.get? "$each" with
  | none =>
      if operand.hasOperatorKeys then
        .error (.invalid Operator.push.name path .modifiersWithoutEach)
      else .ok ⟨[operand], none, none, none⟩
  | some (.array each) =>
      (operand.members?.getD []).foldlM (readModifier path) ⟨each, none, none, none⟩
  | some _ => .error (.invalid Operator.push.name path .eachNotArray)

/-- The single value of a push without modifiers, if it can stand alone. -/
def plainValue? (operand : Push) : Option Document :=
  match operand with
  | ⟨[value], none, none, none⟩ => if value.hasOperatorKeys then none else some value
  | _ => none

def toDocument (operand : Push) : Document :=
  match operand.plainValue? with
  | some value => value
  | none =>
      .object ([("$each", .array operand.each)] ++
        (operand.position.map (fun place => ("$position", Document.int place))).toList ++
        (operand.slice.map (fun bound => ("$slice", Document.int bound))).toList ++
        (operand.sort.map (fun rule => ("$sort", rule.toDocument))).toList)

end Push

namespace BitStep

def ofMember (path : Path) (member : String × Document) : Except UpdateError BitStep := do
  let mask ← readInteger .bit path member.1 member.2
  match member.1 with
  | "and" => return .and mask
  | "or" => return .or mask
  | "xor" => return .xor mask
  | key => .error (.invalid Operator.bit.name path (.unknownBitOperator key))

def toMember : BitStep → String × Document
  | .and mask => ("and", .int mask)
  | .or mask => ("or", .int mask)
  | .xor mask => ("xor", .int mask)

end BitStep

namespace DateForm

def ofDocument (path : Path) : Document → Except UpdateError DateForm
  | .bool true => .ok .date
  | .object members =>
      match Members.get? "$type" members with
      | some (.string "date") => .ok .date
      | some (.string "timestamp") => .ok .timestamp
      | _ => .error (.invalid Operator.currentDate.name path .dateType)
  | _ => .error (.invalid Operator.currentDate.name path .dateOperand)

def toDocument : DateForm → Document
  | .date => .bool true
  | .timestamp => .object [("$type", .string "timestamp")]

end DateForm

namespace ArrayEnd

def toDocument : ArrayEnd → Document
  | .first => .int (-1)
  | .last => .int 1

end ArrayEnd

namespace Edit

/-- Read a number operand. -/
def readNumber (operator : Operator) (path : Path) (operand : Document) :
    Except UpdateError Number :=
  match operand.number? with
  | some number => .ok number
  | none => .error (.invalid operator.name path (.operandNotNumber operand.kind))

/-- Read the values that join a set: those under `$each`, or the one operand. -/
def readSetValues (path : Path) (operand : Document) : Except UpdateError (List Document) :=
  match operand.get? "$each" with
  | none => .ok [operand]
  | some (.array values) => .ok values
  | some _ => .error (.invalid Operator.addToSet.name path .eachNotArray)

/-- Read the operand of an operator at a path. -/
def ofDocument (operator : Operator) (path : Path) (operand : Document) :
    Except UpdateError Edit :=
  match operator with
  | .set => .ok (.set operand)
  | .unset => .ok .unset
  | .rename =>
      match operand with
      | .string name => .ok (.rename name)
      | _ => .error (.invalid operator.name path .newNameNotString)
  | .inc => (readNumber operator path operand).map .inc
  | .mul => (readNumber operator path operand).map .mul
  | .min => .ok (.min operand)
  | .max => .ok (.max operand)
  | .bit =>
      match operand with
      | .object (member :: members) =>
          ((member :: members).mapM (BitStep.ofMember path)).map .bit
      | _ => .error (.invalid operator.name path .bitOperand)
  | .currentDate => (DateForm.ofDocument path operand).map .currentDate
  | .push => (Push.ofDocument path operand).map .push
  | .addToSet => (readSetValues path operand).map .addToSet
  | .pull => (Condition.ofDocument path operand).map .pull
  | .pop =>
      match unitSign? operand with
      | some true => .ok (.pop .last)
      | some false => .ok (.pop .first)
      | none => .error (.invalid operator.name path .popOperand)

/-- The wire form of the values that join a set. -/
def setValuesDocument (values : List Document) : Document :=
  match values with
  | [value] => if value.hasOperatorKeys then .object [("$each", .array [value])] else value
  | values => .object [("$each", .array values)]

/-- The wire form of the operand. -/
def operandDocument : Edit → Document
  | .set value => value
  | .unset => .string ""
  | .rename name => .string name
  | .inc amount => Document.ofNumber amount
  | .mul factor => Document.ofNumber factor
  | .min value => value
  | .max value => value
  | .bit steps => Document.ofPairs (steps.map BitStep.toMember)
  | .currentDate form => form.toDocument
  | .push operand => operand.toDocument
  | .addToSet values => setValuesDocument values
  | .pull condition => condition.toDocument
  | .pop side => side.toDocument

end Edit

namespace Update

/-- Read the entries of one operator. -/
def readPayload (operator : Operator) : Document → Except UpdateError (List Entry)
  | .object members =>
      members.mapM (fun member => do
        let path := Path.parse member.1
        return ⟨path, ← Edit.ofDocument operator path member.2⟩)
  | payload =>
      .error (.malformed (.payloadNotMapping operator.name payload.kind))

/-- Read one operator with its payload into an update. -/
def readGroup (update : Update) (member : String × Document) : Except UpdateError Update :=
  match Operator.ofName? member.1 with
  | none => .error (.malformed (.unknownOperator member.1))
  | some operator => do
      return ⟨update.entries.insertAll (← readPayload operator member.2)⟩

/-- The update that sets every member of an object. -/
def setMembers (members : List (String × Document)) : Update :=
  members.foldl (fun update member => update.set (Path.parse member.1) member.2) empty

/-- Read the wire form. -/
def ofDocument : Document → Except UpdateError Update
  | .object members =>
      if members.all (fun member => !Document.isOperatorKey member.1) then
        .ok (setMembers members)
      else if members.all (fun member => Document.isOperatorKey member.1) then
        members.foldlM readGroup empty
      else
        .error (.malformed .mixedKeys)
  | document => .error (.malformed (.notMapping document.kind))

/-- The wire form of the entries of one operator. -/
def payloadDocument (entries : List Entry) : Document :=
  Document.ofPairs
    (entries.map (fun entry => (entry.path.text, entry.edit.operandDocument)))

/-- The wire form. -/
def toDocument (update : Update) : Document :=
  .object (update.groups.map (fun group => (group.1.name, payloadDocument group.2)))

end Update

end LocalFirst
