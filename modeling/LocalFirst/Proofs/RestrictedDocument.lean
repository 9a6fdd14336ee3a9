import LocalFirst.Proofs.EntityEntries

/-!
# Documents of which members are left out

An edit looks at one member of an object.  It does the same when other members are left out, and
leaves them out of what it gives.
-/

namespace LocalFirst

namespace Members

variable {α : Type} (wanted : String → Bool) (shape : String → α → α)

/-- Leave out members, and change the values of those that stay. -/
def restrict (members : List (String × α)) : List (String × α) :=
  (members.filter fun member => wanted member.1).map fun member =>
    (member.1, shape member.1 member.2)

theorem restrict_cons (member : String × α) (members : List (String × α)) :
    restrict wanted shape (member :: members) =
      if wanted member.1 then (member.1, shape member.1 member.2) :: restrict wanted shape members
      else restrict wanted shape members := by
  cases kept : wanted member.1 <;> simp [restrict, kept]

theorem keys_restrict (members : List (String × α)) :
    keys (restrict wanted shape members) = (keys members).filter wanted := by
  simp [keys, restrict, List.filter_map, Function.comp_def]

theorem get?_restrict (key : String) (members : List (String × α)) :
    get? key (restrict wanted shape members) =
      if wanted key then (get? key members).map (shape key) else none := by
  induction members with
  | nil => simp [restrict]
  | cons member rest ih =>
      rw [restrict_cons]
      by_cases same : member.1 = key
      · subst same
        cases kept : wanted member.1 <;> simp [get?, kept, ih]
      · cases kept : wanted member.1 <;> simp [get?, same, ih]

variable {wanted shape}

theorem put_restrict {key : String} (isWanted : wanted key = true) (value : α)
    (members : List (String × α)) :
    put key (shape key value) (restrict wanted shape members) =
      restrict wanted shape (put key value members) := by
  induction members with
  | nil => simp [restrict, put, isWanted]
  | cons member rest ih =>
      by_cases same : member.1 = key
      · subst same
        simp [restrict_cons, put, isWanted]
      · cases kept : wanted member.1 <;> simp [restrict_cons, put, same, kept, ih]

theorem erase_restrict {key : String} (isWanted : wanted key = true)
    (members : List (String × α)) :
    erase key (restrict wanted shape members) = restrict wanted shape (erase key members) := by
  induction members with
  | nil => rfl
  | cons member rest ih =>
      by_cases same : member.1 = key
      · subst same
        simp [restrict_cons, erase, isWanted]
      · cases kept : wanted member.1 <;> simp [restrict_cons, erase, same, kept, ih]

end Members

namespace Document

/-- Leave out members of an object, and change the values of those that stay. -/
def restrict (wanted : String → Bool) (shape : String → Document → Document) :
    Document → Document
  | .object members => .object (Members.restrict wanted shape members)
  | other => other

variable {wanted : String → Bool} {shape : String → Document → Document} {document : Document}
  {key : String}

theorem isObject_restrict (isObject : document.IsObject) :
    (document.restrict wanted shape).IsObject := by
  obtain ⟨members, rfl⟩ := isObject
  exact ⟨_, rfl⟩

theorem get?_restrict (key : String) : (document.restrict wanted shape).get? key =
    if wanted key then (document.get? key).map (shape key) else none := by
  cases document with
  | object members => exact Members.get?_restrict wanted shape key members
  | _ => simp [restrict, get?]

theorem topKeysDistinct_restrict (distinct : document.TopKeysDistinct) :
    (document.restrict wanted shape).TopKeysDistinct := by
  cases document with
  | object members =>
      rintro _ ⟨⟩
      rw [Members.keys_restrict]
      exact (distinct members rfl).filter wanted
  | _ => exact distinct

theorem put_restrict (isWanted : wanted key = true) (value : Document) :
    (document.restrict wanted shape).put key (shape key value) =
      (document.put key value).restrict wanted shape := by
  cases document with
  | object members => exact congrArg object (Members.put_restrict isWanted value members)
  | _ => rfl

theorem removeChild_restrict (isObject : document.IsObject) (isWanted : wanted key = true) :
    (document.restrict wanted shape).removeChild key =
      (document.removeChild key).restrict wanted shape := by
  obtain ⟨members, rfl⟩ := isObject
  exact congrArg object (Members.erase_restrict isWanted members)

theorem child?_restrict (isObject : document.IsObject) (isWanted : wanted key = true) :
    (document.restrict wanted shape).child? key = (document.child? key).map (shape key) := by
  rw [child?_of_isObject isObject, child?_of_isObject (isObject_restrict isObject),
    get?_restrict, if_pos isWanted]

theorem setChild_restrict (isObject : document.IsObject) (isWanted : wanted key = true)
    (value : Document) :
    (document.restrict wanted shape).setChild key (shape key value) =
      (document.setChild key value).map (restrict wanted shape) := by
  rw [setChild_of_isObject isObject, setChild_of_isObject (isObject_restrict isObject),
    put_restrict isWanted]
  rfl

end Document

theorem Edit.act_restrict {wanted : String → Bool} {shape : String → Document → Document}
    {document : Document} {key : String} (now : Instant) (edit : Edit)
    (isObject : document.IsObject) (isWanted : wanted key = true)
    (unchanged : ∀ value, shape key value = value) :
    edit.act now (document.restrict wanted shape) key =
      (edit.act now document key).map (Document.restrict wanted shape) := by
  have sameChild : (document.restrict wanted shape).child? key = document.child? key := by
    rw [Document.child?_restrict isObject isWanted, funext unchanged, Option.map_id']
  have sameSet : ∀ value, (document.restrict wanted shape).setChild key value =
      (document.setChild key value).map (Document.restrict wanted shape) := by
    intro value
    rw [← Document.setChild_restrict isObject isWanted, unchanged]
  have sameRemoved : (document.restrict wanted shape).removeChild key =
      (document.removeChild key).restrict wanted shape :=
    Document.removeChild_restrict isObject isWanted
  cases edit <;>
    simp only [act, combine, writeIf, runBits, growArray, shrinkArray, sameChild, sameSet,
      sameRemoved]
  case unset | rename => rfl
  all_goals repeat' split
  all_goals rfl

end LocalFirst
