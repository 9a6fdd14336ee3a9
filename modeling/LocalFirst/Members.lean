/-!
# Members of an object

An object lists its members in the order in which their keys first appeared.
Writing to a key that is already there keeps its place; removing a member
keeps the order of the others.  The functions here work on plain lists of
pairs, so that the nested document types can store such lists directly.
-/

universe u

namespace LocalFirst

namespace Members

variable {α : Type u}

/-- The value of the first member with this key. -/
def get? (key : String) : List (String × α) → Option α
  | [] => none
  | (name, value) :: rest => if name = key then some value else get? key rest

/-- Whether some member has this key. -/
def has (key : String) (members : List (String × α)) : Bool :=
  (get? key members).isSome

/-- Write a member: in place when the key is present, at the end otherwise. -/
def put (key : String) (value : α) : List (String × α) → List (String × α)
  | [] => [(key, value)]
  | (name, old) :: rest =>
      if name = key then (name, value) :: rest else (name, old) :: put key value rest

/-- Remove the first member with this key. -/
def erase (key : String) : List (String × α) → List (String × α)
  | [] => []
  | (name, value) :: rest => if name = key then rest else (name, value) :: erase key rest

/-- Change the value of the first member with this key. -/
def change (key : String) (edit : α → α) : List (String × α) → List (String × α)
  | [] => []
  | (name, value) :: rest =>
      if name = key then (name, edit value) :: rest else (name, value) :: change key edit rest

/-- Whether the first member that has one of the two keys has the first of them. -/
def precedes (key other : String) : List (String × α) → Bool
  | [] => false
  | (name, _) :: rest =>
      if name = key then true else if name = other then false else precedes key other rest

/-- Write the pairs one after another into an empty object, so that a repeated
key keeps its first place and its last value. -/
def ofPairs (pairs : List (String × α)) : List (String × α) :=
  pairs.foldl (fun members pair => put pair.1 pair.2 members) []

/-- The keys in order. -/
def keys (members : List (String × α)) : List String :=
  members.map Prod.fst

@[simp]
theorem get?_nil (key : String) : get? key ([] : List (String × α)) = none :=
  rfl

theorem get?_put_self (key : String) (value : α) (members : List (String × α)) :
    get? key (put key value members) = some value := by
  induction members with
  | nil => simp [put, get?]
  | cons member rest ih =>
      by_cases same : member.1 = key <;> simp [put, get?, same, ih]

theorem get?_put_of_ne {key other : String} (value : α)
    (members : List (String × α)) (differ : other ≠ key) :
    get? other (put key value members) = get? other members := by
  induction members with
  | nil => simp [put, get?, Ne.symm differ]
  | cons member rest ih =>
      by_cases same : member.1 = key
      · subst same
        simp [put, get?, Ne.symm differ]
      · simp [put, get?, same, ih]

theorem get?_change_self (key : String) (edit : α → α) (members : List (String × α)) :
    get? key (change key edit members) = (get? key members).map edit := by
  induction members with
  | nil => rfl
  | cons member rest ih =>
      by_cases same : member.1 = key <;> simp [change, get?, same, ih]

theorem get?_change_of_ne {key other : String} (edit : α → α)
    (members : List (String × α)) (differ : other ≠ key) :
    get? other (change key edit members) = get? other members := by
  induction members with
  | nil => rfl
  | cons member rest ih =>
      by_cases same : member.1 = key
      · subst same
        simp [change, get?, Ne.symm differ]
      · simp [change, get?, same, ih]

theorem get?_erase_of_ne {key other : String} (members : List (String × α))
    (differ : other ≠ key) :
    get? other (erase key members) = get? other members := by
  induction members with
  | nil => rfl
  | cons member rest ih =>
      by_cases same : member.1 = key
      · subst same
        simp [erase, get?, Ne.symm differ]
      · simp [erase, get?, same, ih]

end Members

end LocalFirst
