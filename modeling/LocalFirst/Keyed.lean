/-!
# Keyed collections

A keyed collection holds at most one element per key and lists its elements in
strictly increasing order of their keys.  The list is therefore determined by
what each key looks up (`Keyed.ext_find?`): the order in which elements were
inserted leaves no trace.
-/

universe u v

namespace LocalFirst

/-- A finite collection of elements in strictly increasing order of a key. -/
structure Keyed (α : Type u) {κ : Type v} [Ord κ] (key : α → κ) where
  toList : List α
  increasing : toList.Pairwise (fun left right => compare (key left) (key right) = .lt)

namespace Keyed

variable {α : Type u} {κ : Type v} [Ord κ] {key : α → κ}

/-- Two collections with the same elements are equal. -/
theorem eq_of_toList_eq {first second : Keyed α key}
    (listsEq : first.toList = second.toList) : first = second := by
  cases first
  cases second
  cases listsEq
  rfl

def empty : Keyed α key :=
  ⟨[], List.Pairwise.nil⟩

instance : Inhabited (Keyed α key) :=
  ⟨empty⟩

def isEmpty (collection : Keyed α key) : Bool :=
  collection.toList.isEmpty

/-- The element with this key. -/
def find? (wanted : κ) (collection : Keyed α key) : Option α :=
  collection.toList.find? (fun element => compare (key element) wanted == .eq)

/-- The elements that satisfy a test. -/
def filter (test : α → Bool) (collection : Keyed α key) : Keyed α key :=
  ⟨collection.toList.filter test, collection.increasing.filter test⟩

/-- Remove the element with this key. -/
def erase (unwanted : κ) (collection : Keyed α key) : Keyed α key :=
  collection.filter (fun element => compare (key element) unwanted != .eq)

/-- Put an element into an increasing list, in the place of one with its key. -/
def insertInto (key : α → κ) (element : α) : List α → List α
  | [] => [element]
  | head :: rest =>
      match compare (key element) (key head) with
      | .lt => element :: head :: rest
      | .eq => element :: rest
      | .gt => head :: insertInto key element rest

theorem mem_insertInto {element other : α} {elements : List α}
    (member : other ∈ insertInto key element elements) :
    other = element ∨ other ∈ elements := by
  induction elements with
  | nil => simpa [insertInto] using member
  | cons head rest ih =>
      unfold insertInto at member
      split at member
      · simpa using member
      · rcases List.mem_cons.1 member with here | there
        · exact .inl here
        · exact .inr (List.mem_cons_of_mem _ there)
      · rcases List.mem_cons.1 member with here | there
        · exact .inr (here ▸ List.mem_cons_self)
        · exact (ih there).imp id (List.mem_cons_of_mem _)

theorem pairwise_insertInto [Std.TransOrd κ] {element : α} {elements : List α}
    (increasing : elements.Pairwise
      (fun left right => compare (key left) (key right) = .lt)) :
    (insertInto key element elements).Pairwise
      (fun left right => compare (key left) (key right) = .lt) := by
  induction elements with
  | nil => simp [insertInto]
  | cons head rest ih =>
      have headBelow := (List.pairwise_cons.1 increasing).1
      have restIncreasing := (List.pairwise_cons.1 increasing).2
      unfold insertInto
      split
      next below =>
        refine List.pairwise_cons.2 ⟨fun other member => ?_, increasing⟩
        rcases List.mem_cons.1 member with here | there
        · exact here ▸ below
        · exact Std.TransCmp.lt_trans below (headBelow other there)
      next equal =>
        refine List.pairwise_cons.2 ⟨fun other member => ?_, restIncreasing⟩
        exact Std.TransCmp.lt_of_eq_of_lt equal (headBelow other member)
      next above =>
        refine List.pairwise_cons.2 ⟨fun other member => ?_, ih restIncreasing⟩
        rcases mem_insertInto member with here | there
        · exact here ▸ Std.OrientedCmp.lt_of_gt above
        · exact headBelow other there

/-- Insert an element, in the place of one with the same key. -/
def insert [Std.TransOrd κ] (element : α) (collection : Keyed α key) : Keyed α key :=
  ⟨insertInto key element collection.toList,
    pairwise_insertInto collection.increasing⟩

/-- Insert elements one after another, so that the last one of each key stays. -/
def insertAll [Std.TransOrd κ] (elements : List α) (collection : Keyed α key) :
    Keyed α key :=
  elements.foldl (fun collected element => collected.insert element) collection

def ofList [Std.TransOrd κ] (elements : List α) : Keyed α key :=
  empty.insertAll elements

/-- The elements of both collections; the second one wins where keys meet. -/
def merge [Std.TransOrd κ] (first second : Keyed α key) : Keyed α key :=
  first.insertAll second.toList

theorem find?_insertInto_self [Std.TransOrd κ] (element : α) (elements : List α) :
    (insertInto key element elements).find?
      (fun other => compare (key other) (key element) == .eq) = some element := by
  induction elements with
  | nil => simp [insertInto, Std.ReflCmp.compare_self]
  | cons head rest ih =>
      unfold insertInto
      split
      · simp [Std.ReflCmp.compare_self]
      · simp [Std.ReflCmp.compare_self]
      next above =>
        have below : compare (key head) (key element) = .lt :=
          Std.OrientedCmp.lt_of_gt above
        simp [below, ih]

theorem find?_insertInto_of_ne [Std.TransOrd κ] {element : α} {wanted : κ}
    (differ : compare (key element) wanted ≠ .eq) (elements : List α) :
    (insertInto key element elements).find?
        (fun other => compare (key other) wanted == .eq) =
      elements.find? (fun other => compare (key other) wanted == .eq) := by
  induction elements with
  | nil => simp [insertInto, differ]
  | cons head rest ih =>
      unfold insertInto
      split
      · simp [List.find?_cons, differ]
      next equal =>
        have headDiffers : compare (key head) wanted ≠ .eq := fun headEqual =>
          differ (Std.TransCmp.eq_trans equal headEqual)
        simp [differ, headDiffers]
      · simp [List.find?_cons, ih]

@[simp]
theorem find?_insert_self [Std.TransOrd κ] (element : α) (collection : Keyed α key) :
    (collection.insert element).find? (key element) = some element :=
  find?_insertInto_self element collection.toList

theorem find?_insert_of_ne [Std.TransOrd κ] {element : α} {wanted : κ}
    (differ : compare (key element) wanted ≠ .eq) (collection : Keyed α key) :
    (collection.insert element).find? wanted = collection.find? wanted :=
  find?_insertInto_of_ne differ collection.toList

theorem find?_eq_some_iff_mem [Std.TransOrd κ] {collection : Keyed α key} {element : α} :
    collection.find? (key element) = some element ↔ element ∈ collection.toList := by
  obtain ⟨elements, increasing⟩ := collection
  unfold find?
  induction elements with
  | nil => simp
  | cons head rest ih =>
      have headBelow := (List.pairwise_cons.1 increasing).1
      have restIff := ih (List.pairwise_cons.1 increasing).2
      by_cases equal : compare (key head) (key element) = .eq
      · simp only [List.find?_cons, equal, beq_self_eq_true, Option.some.injEq,
          List.mem_cons]
        refine ⟨fun headEq => .inl headEq.symm, fun member => ?_⟩
        rcases member with here | there
        · exact here.symm
        · exact absurd equal (by simp [headBelow element there])
      · have headNe : element ≠ head := by
          rintro rfl
          exact equal Std.ReflCmp.compare_self
        have test : (compare (key head) (key element) == .eq) = false := by
          simp [equal]
        simp only [List.find?_cons, List.mem_cons, headNe, false_or, test]
        exact restIff

theorem nodup_toList [Std.TransOrd κ] (collection : Keyed α key) : collection.toList.Nodup := by
  refine collection.increasing.imp ?_
  rintro left right below rfl
  simp [Std.ReflCmp.compare_self] at below

/-- Collections whose look-ups agree are equal. -/
theorem ext_find? [Std.TransOrd κ] {first second : Keyed α key}
    (agree : ∀ wanted, first.find? wanted = second.find? wanted) : first = second := by
  have sameMembers : ∀ element, element ∈ first.toList ↔ element ∈ second.toList := by
    intro element
    rw [← find?_eq_some_iff_mem, ← find?_eq_some_iff_mem, agree]
  apply eq_of_toList_eq
  have permuted : first.toList.Perm second.toList :=
    (List.perm_ext_iff_of_nodup first.nodup_toList second.nodup_toList).2 sameMembers
  refine permuted.eq_of_pairwise (fun left right _ _ below above => ?_)
    first.increasing second.increasing
  have := Std.TransCmp.lt_trans below above
  simp [Std.ReflCmp.compare_self] at this

end Keyed

/-- A map from names, listed in the order of the names. -/
abbrev NameMap (α : Type u) :=
  Keyed (String × α) Prod.fst

namespace NameMap

variable {α : Type u}

def get? (name : String) (map : NameMap α) : Option α :=
  (Keyed.find? name map).map Prod.snd

def put (name : String) (value : α) (map : NameMap α) : NameMap α :=
  Keyed.insert (name, value) map

end NameMap

end LocalFirst
