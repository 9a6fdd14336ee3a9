import LocalFirst.Keyed
import LocalFirst.Update.Edit

/-!
# Updates

An update is a finite set of edits, at most one for each operator and path.
Its entries are kept in the order in which they run: by operator, and then by
path.  Updates that were built in different orders are therefore equal as soon
as they hold the same edits, and `Update.merge` is a merge of finite maps in
which the second operand wins.
-/

namespace LocalFirst

/-- Where an edit stands in an update. -/
structure Address where
  operator : Operator
  path : Path
  deriving DecidableEq

namespace Address

instance : Ord Address :=
  ⟨compareLex (compareOn Address.operator) (compareOn Address.path)⟩

instance : Std.TransOrd Address :=
  inferInstanceAs
    (Std.TransCmp (compareLex (compareOn Address.operator) (compareOn Address.path)))

instance : Std.LawfulEqOrd Address where
  eq_of_compare {left right} equal := by
    obtain ⟨operatorsEq, pathsEq⟩ := Ordering.then_eq_eq.1 equal
    cases left
    cases right
    exact congr (congrArg Address.mk (Std.LawfulEqOrd.eq_of_compare operatorsEq))
      (Std.LawfulEqOrd.eq_of_compare pathsEq)

end Address

/-- An edit at a path. -/
structure Entry where
  path : Path
  edit : Edit

def Entry.address (entry : Entry) : Address :=
  ⟨entry.edit.operator, entry.path⟩

theorem Entry.compare_address (entry other : Entry) :
    compare entry.address other.address =
      (compare entry.edit.operator other.edit.operator).then (compare entry.path other.path) :=
  rfl

structure Update where
  entries : Keyed Entry Entry.address

namespace Update

/-- The update that changes nothing. -/
def empty : Update :=
  ⟨Keyed.empty⟩

instance : Inhabited Update :=
  ⟨empty⟩

def isEmpty (update : Update) : Bool :=
  update.entries.isEmpty

/-- Add an edit, in the place of one with the same operator and path. -/
def insert (update : Update) (path : Path) (edit : Edit) : Update :=
  ⟨update.entries.insert ⟨path, edit⟩⟩

/-- The entries of both updates; the second one wins where they meet. -/
def merge (first second : Update) : Update :=
  ⟨first.entries.merge second.entries⟩

def ofEntries (entries : List Entry) : Update :=
  ⟨Keyed.ofList entries⟩

def set (update : Update) (path : Path) (value : Document) : Update :=
  update.insert path (.set value)

def unset (update : Update) (path : Path) : Update :=
  update.insert path .unset

/-- Append one value to an array. -/
def push (update : Update) (path : Path) (value : Document) : Update :=
  update.insert path (.push ⟨[value], none, none, none⟩)

/-- Remove the items of an array that meet a condition. -/
def pullWhere (update : Update) (path : Path) (condition : Condition) : Update :=
  update.insert path (.pull condition)

/-- The edits of one operator, in order of their paths. -/
def entriesOf (update : Update) (operator : Operator) : List Entry :=
  update.entries.toList.filter (fun entry => entry.edit.operator = operator)

/-- The operators that occur, each with its entries. -/
def groups (update : Update) : List (Operator × List Entry) :=
  (Operator.all.map (fun operator => (operator, update.entriesOf operator))).filter
    (fun group => !group.2.isEmpty)

/-- The paths that the update addresses. -/
def paths (update : Update) : List Path :=
  update.entries.toList.map Entry.path

def sameEntries : List Entry → List Entry → Bool
  | [], [] => true
  | entry :: entries, other :: others =>
      entry.path == other.path && entry.edit.same other.edit && sameEntries entries others
  | _, _ => false

/-- Equality of updates, with equality of documents at the leaves. -/
def same (left right : Update) : Bool :=
  sameEntries left.entries.toList right.entries.toList

end Update

end LocalFirst
