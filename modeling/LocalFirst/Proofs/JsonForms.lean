import LocalFirst.Json.Form
import LocalFirst.Proofs.EntityDocument
import LocalFirst.Proofs.Everywhere

/-!
# Documents and lists through JSON

A document whose floats are finite survives its JSON form, and so do the optional values, lists and
maps that are built from what survives.  JSON has no infinite floats.
-/

namespace LocalFirst

namespace Document

/-- A float is finite. -/
def FiniteFloat : Document → Prop
  | .float value => value.isFinite = true
  | _ => True

/-- Every float in the document is finite. -/
def FloatsFinite (document : Document) : Prop :=
  document.Everywhere FiniteFloat

theorem wireSafe_finiteFloat : WireSafe FiniteFloat where
  scalar document _ notFloat := by
    cases document with
    | float => exact absurd rfl notFloat
    | _ => trivial
  array _ := trivial
  object _ _ := trivial

theorem toJsonItems_eq (items : List Document) : toJsonItems items = items.map toJson := by
  induction items with
  | nil => rfl
  | cons item rest ih => rw [toJsonItems, ih, List.map_cons]

theorem toJsonMembers_eq (members : List (String × Document)) :
    toJsonMembers members = members.map fun member => (member.1, member.2.toJson) := by
  induction members with
  | nil => rfl
  | cons member rest ih => rw [toJsonMembers, ih, List.map_cons]

theorem get?_toJson (document : Document) (key : String) :
    document.toJson.get? key = (document.get? key).map toJson := by
  cases document with
  | float value =>
      rw [toJson]
      split <;> rfl
  | object members =>
      rw [toJson, toJsonMembers_eq, Json.get?, get?_object]
      exact Members.get?_map toJson members key
  | _ => rfl

/-- The document is written as the JSON tree and read from it. -/
structure WrittenAs (document : Document) (tree : Json) : Prop where
  toJson_eq : document.toJson = tree
  ofJson_eq : ofJson tree = document

theorem writtenAs_array {items : List Document} {trees : List Json}
    (written : List.Forall₂ WrittenAs items trees) : (array items).WrittenAs (.array trees) := by
  have itemsWritten : toJsonItems items = trees ∧ ofJsonItems trees = items := by
    induction written with
    | nil => exact ⟨rfl, rfl⟩
    | cons first _ ih =>
        rw [toJsonItems, ofJsonItems, first.toJson_eq, first.ofJson_eq, ih.1, ih.2]
        exact ⟨rfl, rfl⟩
  exact ⟨congrArg Json.array itemsWritten.1, congrArg array itemsWritten.2⟩

/-- An object is written member by member, under the same names. -/
theorem writtenAs_object {members : List (String × Document)} {trees : List (String × Json)}
    (written : List.Forall₂ (fun member tree => member.1 = tree.1 ∧ member.2.WrittenAs tree.2)
      members trees) : (object members).WrittenAs (.object trees) := by
  have membersWritten : toJsonMembers members = trees ∧ ofJsonMembers trees = members := by
    induction written with
    | nil => exact ⟨rfl, rfl⟩
    | cons first _ ih =>
        obtain ⟨sameName, value⟩ := first
        rw [toJsonMembers, ofJsonMembers, value.toJson_eq, value.ofJson_eq, ih.1, ih.2, sameName]
        exact ⟨rfl, sameName ▸ rfl⟩
  exact ⟨congrArg Json.object membersWritten.1, congrArg object membersWritten.2⟩

theorem writtenAs_int (value : Int64) : (int value).WrittenAs (.integer value.toInt) where
  toJson_eq := rfl
  ofJson_eq := by
    have inside : Number.word? value.toInt = some value := by
      rw [Number.word?, if_pos ⟨value.minValue_le_toInt, value.toInt_le⟩, Int64.ofInt_toInt]
    rw [ofJson, inside]

/-- What has no infinite floats is read back from how it is written. -/
theorem FloatsFinite.writtenAs {document : Document} (finite : document.FloatsFinite) :
    document.WrittenAs document.toJson := by
  induction document using Document.induction with
  | scalar document scalar =>
      cases document with
      | int value => exact writtenAs_int value
      | float value =>
          have isFinite : value.isFinite = true := finite
          rw [toJson, if_pos isFinite]
          exact ⟨if_pos isFinite, rfl⟩
      | array => exact absurd rfl scalar.1
      | object => exact absurd rfl scalar.2
      | _ => exact ⟨rfl, rfl⟩
  | array items ih =>
      rw [toJson, toJsonItems_eq]
      refine writtenAs_array (List.forall₂_map_right_iff.2 (List.forall₂_same.2 ?_))
      exact fun item member => ih item member ((everywhere_array.1 finite).2 item member)
  | object members ih =>
      rw [toJson, toJsonMembers_eq]
      refine writtenAs_object (List.forall₂_map_right_iff.2 (List.forall₂_same.2 ?_))
      exact fun member inMembers =>
        ⟨rfl, ih member inMembers ((everywhere_object.1 finite).2 member inMembers)⟩

/-- Besides infinite floats, only null is written as null. -/
theorem FloatsFinite.toJson_ne_null {document : Document} (finite : document.FloatsFinite)
    (notNull : document.isNull = false) : document.toJson ≠ Json.null := by
  cases document with
  | null => cases notNull
  | float value =>
      have isFinite : value.isFinite = true := finite
      rw [toJson, if_pos isFinite]
      exact Json.noConfusion
  | _ => simp [toJson]

end Document

/-- A list that is written item by item is read back when each item is. -/
theorem mapM_map_eq_some {α β : Type} {write : β → α} {read : α → Option β} {values : List β}
    (reads : ∀ value ∈ values, read (write value) = some value) :
    (values.map write).mapM read = some values := by
  induction values with
  | nil => rfl
  | cons value rest ih =>
      obtain ⟨valueReads, restRead⟩ := List.forall_mem_cons.1 reads
      rw [List.map_cons, List.mapM_cons, ih restRead, valueReads]
      rfl

namespace JsonForm

variable {α : Type} [JsonForm α]

/-- The value is read back from its JSON form. -/
def ReadsBack (value : α) : Prop :=
  ofJson? (toJson value) = some value

theorem readsBack_string (text : String) : ReadsBack text :=
  rfl

theorem readsBack_count (count : UInt64) : ReadsBack count := by
  change (if count.toNat < UInt64.size then some (UInt64.ofNat count.toNat) else none) = some count
  rw [if_pos count.toNat_lt, UInt64.ofNat_toNat]

theorem readsBack_list {values : List α} (readsBack : ∀ value ∈ values, ReadsBack value) :
    ReadsBack values :=
  mapM_map_eq_some readsBack

theorem ofJson?_of_ne_null {tree : Json} (notNull : tree ≠ .null) :
    (ofJson? tree : Option (Option α)) = (ofJson? tree : Option α).map some := by
  cases tree with
  | null => exact absurd rfl notNull
  | _ => rfl

/-- Null is kept for the absent value. -/
theorem readsBack_option {value : Option α}
    (readsBack : ∀ present, value = some present →
      ReadsBack present ∧ toJson present ≠ Json.null) : ReadsBack value := by
  cases value with
  | none => rfl
  | some present =>
      obtain ⟨reads, notNull⟩ := readsBack present rfl
      exact (ofJson?_of_ne_null notNull).trans (congrArg (Option.map some) reads)

theorem readsBack_map {map : NameMap α}
    (readsBack : ∀ member ∈ map.toList, ReadsBack member.2) : ReadsBack map := by
  have read : (map.toList.map fun named => (named.1, toJson named.2)).mapM
      (fun member => (ofJson? member.2).map ((member.1, ·) : α → String × α)) =
        some map.toList :=
    mapM_map_eq_some fun named inMap => by
      rw [show ofJson? (toJson named.2) = some named.2 from readsBack named inMap]
      rfl
  exact (congrArg (Option.map Keyed.ofList) read).trans (congrArg some map.ofList_toList)

theorem writtenAs_list {values : List α} {write : α → Document}
    (written : ∀ value ∈ values, (write value).WrittenAs (toJson value)) :
    (Document.array (values.map write)).WrittenAs (toJson values) :=
  Document.writtenAs_array (List.forall₂_map_left_iff.2 (List.forall₂_map_right_iff.2
    (List.forall₂_same.2 written)))

theorem writtenAs_map {map : NameMap α} {write : α → Document}
    (written : ∀ member ∈ map.toList, (write member.2).WrittenAs (toJson member.2)) :
    (Document.object (map.toList.map fun member => (member.1, write member.2))).WrittenAs
      (toJson map) :=
  Document.writtenAs_object (List.forall₂_map_left_iff.2 (List.forall₂_map_right_iff.2
    (List.forall₂_same.2 fun member inMap => ⟨rfl, written member inMap⟩)))

/-- An absent value is written as null. -/
theorem writtenAs_option {value : Option α} {write : α → Document}
    (written : ∀ present, value = some present → (write present).WrittenAs (toJson present)) :
    ((value.map write).getD .null).WrittenAs (toJson value) := by
  cases value with
  | none => exact ⟨rfl, rfl⟩
  | some present => exact written present rfl

end JsonForm

end LocalFirst
