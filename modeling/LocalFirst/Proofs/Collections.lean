import LocalFirst.Keyed
import LocalFirst.Proofs.MemberLists

/-!
# Keyed collections and maps by look-up

Keyed collections keep the order of their keys, and maps are collected from members.  A map looks up
what the members do.
-/

universe u v

namespace LocalFirst

namespace Keyed

variable {α : Type u} {κ : Type v} [Ord κ] [Std.TransOrd κ] {key : α → κ}

theorem mem_toList_insert {element other : α} {collection : Keyed α key}
    (member : other ∈ (collection.insert element).toList) :
    other = element ∨ other ∈ collection.toList :=
  mem_insertInto member

theorem mem_toList_insertAll {elements : List α} {collection : Keyed α key} {element : α}
    (member : element ∈ (collection.insertAll elements).toList) :
    element ∈ elements ∨ element ∈ collection.toList := by
  induction elements generalizing collection with
  | nil => exact .inr member
  | cons first rest ih =>
      rcases ih member with inRest | inInsert
      · exact .inl (List.mem_cons_of_mem _ inRest)
      · rcases mem_toList_insert inInsert with here | there
        · exact .inl (here ▸ List.mem_cons_self)
        · exact .inr there

/-- A collection holds nothing else than what was collected. -/
theorem mem_of_mem_ofList {elements : List α} {element : α}
    (collected : element ∈ (ofList elements : Keyed α key).toList) : element ∈ elements :=
  (mem_toList_insertAll collected).resolve_right List.not_mem_nil

omit [Std.TransOrd κ] in
theorem find?_eq_none_iff {wanted : κ} {collection : Keyed α key} :
    collection.find? wanted = none ↔
      ∀ element ∈ collection.toList, compare (key element) wanted ≠ .eq := by
  simp [find?]

/-- Elements that are inserted later and have other keys do not matter. -/
theorem find?_insertAll_of_ne {elements : List α} {collection : Keyed α key} {wanted : κ}
    (differ : ∀ element ∈ elements, compare (key element) wanted ≠ .eq) :
    (collection.insertAll elements).find? wanted = collection.find? wanted := by
  induction elements generalizing collection with
  | nil => rfl
  | cons first rest ih =>
      obtain ⟨firstDiffers, restDiffer⟩ := List.forall_mem_cons.1 differ
      exact (ih restDiffer).trans (find?_insert_of_ne firstDiffers collection)

/-- When the inserted elements with a key are all the same, that one is looked up. -/
theorem find?_insertAll_of_mem [Std.LawfulEqOrd κ] {elements : List α}
    {collection : Keyed α key} {element : α} (member : element ∈ elements)
    (unique : ∀ other ∈ elements, key other = key element → other = element) :
    (collection.insertAll elements).find? (key element) = some element := by
  induction elements generalizing collection with
  | nil => simp at member
  | cons first rest ih =>
      by_cases inRest : element ∈ rest
      · exact ih inRest (fun other there => unique other (List.mem_cons_of_mem _ there))
      · have here : element = first := (List.mem_cons.1 member).resolve_right inRest
        subst here
        have restSame : ((collection.insert element).insertAll rest).find? (key element) =
            (collection.insert element).find? (key element) := by
          refine find?_insertAll_of_ne fun other there equal => ?_
          refine inRest (unique other (List.mem_cons_of_mem _ there) ?_ ▸ there)
          exact Std.LawfulEqCmp.compare_eq_iff_eq.1 equal
        exact restSame.trans (find?_insert_self element collection)

/-- A collection is determined by its elements, in whatever order they come. -/
theorem ofList_eq_of_mem_iff [Std.LawfulEqOrd κ] {elements : List α} {collection : Keyed α key}
    (sameMembers : ∀ element, element ∈ elements ↔ element ∈ collection.toList) :
    ofList elements = collection := by
  have unique : ∀ element ∈ collection.toList, ∀ other ∈ collection.toList,
      key other = key element → other = element := by
    intro element member other otherMember keysEq
    have found := find?_eq_some_iff_mem.2 otherMember
    rw [keysEq, find?_eq_some_iff_mem.2 member] at found
    exact (Option.some.inj found).symm
  refine ext_find? fun wanted => ?_
  cases found : collection.find? wanted with
  | none =>
      refine (find?_insertAll_of_ne fun element member => ?_).trans (by simp [find?, empty])
      exact find?_eq_none_iff.1 found element ((sameMembers element).1 member)
  | some element =>
      have keyEq : key element = wanted := by
        have := List.find?_some found
        simpa [Std.LawfulEqCmp.compare_eq_iff_eq] using this
      subst keyEq
      have member := find?_eq_some_iff_mem.1 found
      exact find?_insertAll_of_mem ((sameMembers element).2 member)
        (fun other inList => unique element member other ((sameMembers other).1 inList))

/-- Of elements with different keys none is lost when they are collected. -/
theorem toList_ofList_perm [Std.LawfulEqOrd κ] {elements : List α}
    (nodup : (elements.map key).Nodup) :
    (ofList elements : Keyed α key).toList.Perm elements := by
  have sameMembers : ∀ element,
      element ∈ (ofList elements : Keyed α key).toList ↔ element ∈ elements := by
    intro element
    refine ⟨mem_of_mem_ofList, fun member => ?_⟩
    have unique : ∀ other ∈ elements, key other = key element → other = element :=
      fun other otherMember keysEq => List.inj_on_of_nodup_map nodup otherMember member keysEq
    exact find?_eq_some_iff_mem.1 (find?_insertAll_of_mem member unique)
  exact (List.perm_ext_iff_of_nodup (nodup_toList _) (List.Nodup.of_map key nodup)).2 sameMembers

end Keyed

namespace NameMap

variable {α : Type u}

@[simp]
theorem get?_empty (name : String) : get? name (Keyed.empty : NameMap α) = none :=
  rfl

@[simp]
theorem get?_put_self (name : String) (value : α) (map : NameMap α) :
    get? name (put name value map) = some value := by
  have found : Keyed.find? name (Keyed.insert (name, value) map) = some (name, value) :=
    Keyed.find?_insert_self (name, value) map
  simp [get?, put, found]

theorem get?_put_of_ne {name other : String} (differ : other ≠ name) (value : α)
    (map : NameMap α) : get? other (put name value map) = get? other map := by
  have notEqual : compare (name, value).1 other ≠ .eq := by
    simpa [Std.LawfulEqCmp.compare_eq_iff_eq] using Ne.symm differ
  simp [get?, put, Keyed.find?_insert_of_ne notEqual map]

theorem get?_eq (name : String) (map : NameMap α) :
    get? name map = Members.get? name map.toList := by
  obtain ⟨elements, increasing⟩ := map
  simp only [get?, Keyed.find?]
  clear increasing
  induction elements with
  | nil => rfl
  | cons member rest ih =>
      by_cases same : member.1 = name
      · simp [Members.get?, same, Std.ReflCmp.compare_self]
      · have test : (compare member.1 name == .eq) = false := by
          simpa [Std.LawfulEqCmp.compare_eq_iff_eq] using same
        simp [Members.get?, same, test, ih]

theorem nodup_keys (map : NameMap α) : (Members.keys map.toList).Nodup := by
  refine List.pairwise_map.2 (map.increasing.imp fun below same => ?_)
  simp [same, Std.ReflCmp.compare_self] at below

theorem get?_erase_self (name : String) (map : NameMap α) :
    get? name (Keyed.erase name map) = none := by
  rw [get?, Option.map_eq_none_iff, Keyed.find?_eq_none_iff]
  intro member found
  simpa [Keyed.erase, Keyed.filter] using (List.mem_filter.1 found).2

theorem get?_erase_of_ne {name other : String} (differ : other ≠ name) (map : NameMap α) :
    get? other (Keyed.erase name map) = get? other map := by
  obtain ⟨elements, increasing⟩ := map
  simp only [get?_eq, Keyed.erase, Keyed.filter]
  clear increasing
  induction elements with
  | nil => rfl
  | cons member rest ih =>
      by_cases erased : member.1 = name
      · simp [ih, Members.get?, erased, Ne.symm differ]
      · have test : (compare member.1 name != .eq) = true := by
          simpa [Std.LawfulEqCmp.compare_eq_iff_eq] using erased
        simp [test, ih, Members.get?]

/-- Collecting members without repeated keys keeps the look-ups. -/
theorem get?_ofList {members : List (String × α)} (nodup : (Members.keys members).Nodup)
    (name : String) : get? name (Keyed.ofList members) = Members.get? name members := by
  cases found : Members.get? name members with
  | none =>
      rw [Members.get?_eq_none_iff] at found
      rw [get?, Option.map_eq_none_iff]
      refine (Keyed.find?_insertAll_of_ne fun member inMembers equal => found ?_).trans rfl
      rw [Std.LawfulEqCmp.compare_eq_iff_eq] at equal
      exact equal ▸ List.mem_map_of_mem inMembers
  | some value =>
      have member := Members.mem_of_get? found
      have unique : ∀ other ∈ members, other.1 = (name, value).1 → other = (name, value) := by
        rintro ⟨otherName, otherValue⟩ inMembers rfl
        have := Members.get?_of_mem nodup inMembers
        rw [found] at this
        rw [Option.some.inj this]
      have looked : Keyed.find? name (Keyed.ofList members : NameMap α) = some (name, value) :=
        Keyed.find?_insertAll_of_mem member unique
      simp [get?, looked]

/-- A collected map has no other members than those that were collected. -/
theorem mem_of_get?_ofList {members : List (String × α)} {name : String} {value : α}
    (found : get? name (Keyed.ofList members) = some value) : (name, value) ∈ members := by
  rw [get?_eq] at found
  exact Keyed.mem_of_mem_ofList (Members.mem_of_get? found)

theorem get?_map_toList {β : Type u} (map : NameMap α) (write : α → β) (name : String) :
    Members.get? name (map.toList.map (fun member => (member.1, write member.2))) =
      (get? name map).map write := by
  rw [get?_eq, Members.get?_map]

/-- A map is collected again from its members. -/
theorem ofList_toList (map : NameMap α) : (Keyed.ofList map.toList : NameMap α) = map :=
  Keyed.ofList_eq_of_mem_iff fun _ => .rfl

theorem nodup_keys_map_toList {β : Type u} (map : NameMap α) (write : α → β) :
    (Members.keys (map.toList.map (fun member => (member.1, write member.2)))).Nodup := by
  have nodup := nodup_keys map
  simpa [Members.keys, Function.comp_def] using nodup

/-- Maps whose look-ups agree are equal. -/
theorem ext_get? {first second : NameMap α} (agree : ∀ name, get? name first = get? name second) :
    first = second := by
  have found : ∀ (map : NameMap α) (name : String),
      Keyed.find? name map = (get? name map).map fun value => (name, value) := by
    intro map name
    rw [get?, Option.map_map]
    cases found : Keyed.find? name map with
    | none => rfl
    | some member =>
        have sameName : member.1 = name := by
          have := List.find?_some found
          simpa [Std.LawfulEqCmp.compare_eq_iff_eq] using this
        simp [← sameName]
  exact Keyed.ext_find? fun name => by rw [found, found, agree]

theorem get?_filter (test : String × α → Bool) (name : String) (map : NameMap α) :
    get? name (Keyed.filter test map) =
      (get? name map).filter fun value => test (name, value) := by
  rw [get?_eq, get?_eq]
  exact Members.get?_filter test name (nodup_keys map)

theorem isEmpty_eq_false_iff (map : NameMap α) :
    map.isEmpty = false ↔ ∃ name, (get? name map).isSome := by
  simp only [get?_eq, Keyed.isEmpty]
  cases map.toList with
  | nil => simp
  | cons member rest => exact ⟨fun _ => ⟨member.1, by simp [Members.get?]⟩, fun _ => rfl⟩

end NameMap

end LocalFirst
