import LocalFirst.Proofs.Collections
import LocalFirst.Update.Wire

/-!
# Constructions of updates

An update can be put together from groups of edits in any order.  A group is looked up by its
operator, by binary search in the groups that are there, and takes over the new edits or makes room
for a new group.  Merging two updates follows the laws of finite maps in which the second one wins.
-/

universe u v

namespace LocalFirst

namespace Keyed

variable {α : Type u} {κ : Type v} [Ord κ] [Std.TransOrd κ] [Std.LawfulEqOrd κ] {key : α → κ}

/-- Collections with the same elements are equal. -/
theorem ext_mem {first second : Keyed α key}
    (sameMembers : ∀ element, element ∈ first.toList ↔ element ∈ second.toList) :
    first = second :=
  calc first = ofList second.toList :=
        (ofList_eq_of_mem_iff fun element => (sameMembers element).symm).symm
    _ = second := ofList_eq_of_mem_iff fun _ => .rfl

/-- Under each key, merging keeps what the second collection has, and otherwise what the first one
has. -/
theorem find?_merge (first second : Keyed α key) (wanted : κ) :
    (first.merge second).find? wanted = (second.find? wanted).or (first.find? wanted) := by
  cases found : second.find? wanted with
  | none => exact find?_insertAll_of_ne (find?_eq_none_iff.1 found)
  | some element =>
      have keyEq : key element = wanted := by
        simpa [Std.LawfulEqCmp.compare_eq_iff_eq] using List.find?_some found
      subst keyEq
      refine find?_insertAll_of_mem (find?_eq_some_iff_mem.1 found) fun other member keysEq => ?_
      have otherFound := find?_eq_some_iff_mem.2 member
      rw [keysEq, found] at otherFound
      exact (Option.some.inj otherFound).symm

theorem mem_merge {first second : Keyed α key} {element : α} :
    element ∈ (first.merge second).toList ↔
      element ∈ second.toList ∨ second.find? (key element) = none ∧ element ∈ first.toList := by
  rw [← find?_eq_some_iff_mem, ← find?_eq_some_iff_mem, ← find?_eq_some_iff_mem, find?_merge,
    Option.or_eq_some_iff]

theorem merge_insert (first second : Keyed α key) (element : α) :
    first.merge (second.insert element) = (first.merge second).insert element := by
  refine ext_find? fun wanted => ?_
  rw [find?_merge]
  by_cases here : compare (key element) wanted = .eq
  · rw [← Std.LawfulEqOrd.eq_of_compare here, find?_insert_self, find?_insert_self,
      Option.some_or]
  · rw [find?_insert_of_ne here, find?_insert_of_ne here, find?_merge]

/-- Inserting elements is merging the collection that they make up. -/
theorem merge_ofList (first : Keyed α key) (elements : List α) :
    first.merge (ofList elements) = first.insertAll elements := by
  suffices inserted : ∀ second : Keyed α key, first.merge (second.insertAll elements) =
      (first.merge second).insertAll elements from inserted empty
  intro second
  induction elements generalizing second with
  | nil => rfl
  | cons element rest ih => exact (ih (second.insert element)).trans (by rw [merge_insert]; rfl)

/-- Elements with different keys can be collected in any order. -/
theorem ofList_eq_of_perm {elements others : List α} (permuted : elements.Perm others)
    (nodup : (elements.map key).Nodup) :
    (ofList elements : Keyed α key) = ofList others := by
  have othersNodup : (others.map key).Nodup := (permuted.map key).nodup_iff.1 nodup
  exact ofList_eq_of_mem_iff fun element =>
    permuted.mem_iff.trans (toList_ofList_perm othersNodup).mem_iff.symm

end Keyed

namespace Update

theorem merge_assoc (first second third : Update) :
    (first.merge second).merge third = first.merge (second.merge third) :=
  congrArg Update.mk (Keyed.ext_find? fun address => by
    simp only [merge, Keyed.find?_merge, Option.or_assoc])

theorem empty_merge (update : Update) : empty.merge update = update :=
  congrArg Update.mk (Keyed.ofList_eq_of_mem_iff fun _ => .rfl)

theorem merge_empty (update : Update) : update.merge empty = update :=
  rfl

theorem merge_self (update : Update) : update.merge update = update :=
  congrArg Update.mk (Keyed.ext_find? fun address => by
    rw [Keyed.find?_merge, Option.or_self])

/-- Edits of one operator at different paths. -/
structure Group where
  operator : Operator
  entries : Keyed Entry Entry.address
  ofOperator : ∀ entry ∈ entries.toList, entry.edit.operator = operator

namespace Group

def isEmpty (group : Group) : Bool :=
  group.entries.isEmpty

/-- The group as an update lists it. -/
def listed (group : Group) : Operator × List Entry :=
  (group.operator, group.entries.toList)

/-- The edits of one operator among some entries. -/
def collect (operator : Operator) (entries : List Entry) : Group where
  operator := operator
  entries := Keyed.ofList (entries.filter fun entry => entry.edit.operator = operator)
  ofOperator entry member := by
    rcases Keyed.mem_toList_insertAll member with inEntries | inEmpty
    · simpa using (List.mem_filter.1 inEntries).2
    · cases inEmpty

/-- Take over the edits of another group.  A group of another operator would take the place of this
one. -/
def absorb (group other : Group) : Group :=
  if same : other.operator = group.operator then
    { operator := group.operator
      entries := group.entries.merge other.entries
      ofOperator := fun entry member => by
        rcases Keyed.mem_merge.1 member with inOther | ⟨_, inGroup⟩
        · exact (other.ofOperator entry inOther).trans same
        · exact group.ofOperator entry inGroup }
  else other

end Group

/-- Where a binary search ends: at the place of a group, or at the place where one is missing. -/
inductive Place where
  | found (place : Nat)
  | gap (place : Nat)

/-- Look for the group of an operator between two places, by binary search. -/
def seek (groups : List Group) (wanted : Operator) (low high : Nat) : Place :=
  if low < high then
    let middle := (low + high) / 2
    match groups[middle]? with
    | none => .gap low
    | some group =>
        match compare group.operator wanted with
        | .lt => seek groups wanted (middle + 1) high
        | .eq => .found middle
        | .gt => seek groups wanted low middle
  else .gap low
termination_by high - low

/-- Put a group among others: its edits go to the group of its operator, or it becomes a new one. -/
def put (groups : List Group) (group : Group) : List Group :=
  if group.isEmpty then groups
  else
    match seek groups group.operator 0 groups.length with
    | .found place => groups.modify place (·.absorb group)
    | .gap place => groups.insertIdx place group

def putAll (groups others : List Group) : List Group :=
  others.foldl put groups

/-- Put the group of one operator of the wire form among others. -/
def putMember (groups : List Group) (member : String × Document) :
    Except UpdateError (List Group) :=
  match Operator.ofName? member.1 with
  | none => .error (.malformed (.unknownOperator member.1))
  | some operator => do
      return put groups (.collect operator (← readPayload operator member.2))

/-- Read the wire form into groups. -/
def readGroups : Document → Except UpdateError (List Group)
  | .object members =>
      if members.all (fun member => !Document.isOperatorKey member.1) then
        .ok (members.foldl (fun groups member =>
          put groups (.collect .set [⟨Path.parse member.1, .set member.2⟩])) [])
      else if members.all (fun member => Document.isOperatorKey member.1) then
        members.foldlM putMember []
      else
        .error (.malformed .mixedKeys)
  | document => .error (.malformed (.notMapping document.kind))

/-- The ways in which updates are put together. -/
inductive Construction where
  | nothing
  | editing (before : Construction) (path : Path) (edit : Edit)
  | adding (before : Construction) (group : Group)
  | merging (first second : Construction)
  | collecting (groups : List Group)
  | reading (document : Document)

namespace Construction

/-- The update that is put together. -/
def update : Construction → Except UpdateError Update
  | .nothing => .ok Update.empty
  | .editing before path edit => return (← before.update).insert path edit
  | .adding before group => return (← before.update).merge ⟨group.entries⟩
  | .merging first second => return (← first.update).merge (← second.update)
  | .collecting groups => .ok (ofEntries (groups.flatMap fun group => group.entries.toList))
  | .reading document => ofDocument document

/-- The list of groups that is put together by the same steps. -/
def groups : Construction → Except UpdateError (List Group)
  | .nothing => .ok []
  | .editing before path edit =>
      return put (← before.groups) (.collect edit.operator [⟨path, edit⟩])
  | .adding before group => return put (← before.groups) group
  | .merging first second => return putAll (← first.groups) (← second.groups)
  | .collecting groups => .ok (putAll [] groups)
  | .reading document => readGroups document

end Construction

end Update

end LocalFirst
