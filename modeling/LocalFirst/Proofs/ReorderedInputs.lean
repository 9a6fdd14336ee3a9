import LocalFirst.Proofs.Equality
import LocalFirst.Proofs.Reordered
import LocalFirst.Proofs.Replay

/-!
# Reading and writing reordered documents

In two documents that differ in the order of members only, a segment names corresponding values, and
what is written or removed at it leaves them differing in nothing else.  Conditions that ask for no
order are met by both or by neither.
-/

namespace LocalFirst

section Places

variable {α β γ δ : Type} {related : α → β → Prop} {following : γ → δ → Prop} {items : List α}
  {others : List β}

theorem rel_getElem? (alike : List.Forall₂ related items others) (place : Nat) :
    Option.Rel related items[place]? others[place]? := by
  induction alike generalizing place with
  | nil => exact .none
  | cons first _ ih =>
      cases place with
      | zero => exact .some first
      | succ place => simpa using ih place

theorem forall₂_set {item : α} {other : β} (alike : List.Forall₂ related items others)
    (itemsRelated : related item other) (place : Nat) :
    List.Forall₂ related (items.set place item) (others.set place other) := by
  induction alike generalizing place with
  | nil => exact .nil
  | cons first rest ih =>
      cases place with
      | zero => exact .cons itemsRelated rest
      | succ place => exact .cons first (ih place)

theorem any_eq_of_forall₂ {keep : α → Bool} {otherKeep : β → Bool}
    (alike : List.Forall₂ related items others)
    (same : ∀ item other, related item other → keep item = otherKeep other) :
    items.any keep = others.any otherKeep := by
  induction alike with
  | nil => rfl
  | cons first _ ih => rw [List.any_cons, List.any_cons, same _ _ first, ih]

theorem rel_iff {slot : Option α} {otherSlot : Option β} : Option.Rel related slot otherSlot ↔
    (slot = none ∧ otherSlot = none) ∨
      ∃ value other, slot = some value ∧ otherSlot = some other ∧ related value other := by
  constructor
  · rintro (_ | alike)
    · exact .inr ⟨_, _, rfl, rfl, ‹_›⟩
    · exact .inl ⟨rfl, rfl⟩
  · rintro (⟨rfl, rfl⟩ | ⟨_, _, rfl, rfl, alike⟩)
    · exact .none
    · exact .some alike

theorem rel_bind {slot : Option α} {otherSlot : Option β} {next : α → Option γ}
    {otherNext : β → Option δ} (slots : Option.Rel related slot otherSlot)
    (goesOn : ∀ value other, related value other →
      Option.Rel following (next value) (otherNext other)) :
    Option.Rel following (slot.bind next) (otherSlot.bind otherNext) := by
  cases slots with
  | none => exact .none
  | some alike => exact goesOn _ _ alike

theorem rel_getD {slot : Option α} {otherSlot : Option β} {value : α} {other : β}
    (slots : Option.Rel related slot otherSlot) (alike : related value other) :
    related (slot.getD value) (otherSlot.getD other) := by
  cases slots with
  | none => exact alike
  | some found => exact found

end Places

namespace Document

variable {first second value other : Document}

theorem reordered_null : Reordered .null .null :=
  .scalar (by simp [IsScalar, kind]) (by simp [NotFloat, kind])

theorem reordered_int (value : Int64) : Reordered (.int value) (.int value) :=
  .scalar (by simp [IsScalar, kind]) (by simp [NotFloat, kind])

theorem reordered_string (text : String) : Reordered (.string text) (.string text) :=
  .scalar (by simp [IsScalar, kind]) (by simp [NotFloat, kind])

theorem reordered_emptyArray : Reordered (.array []) (.array []) :=
  reordered_array_iff.2 .nil

theorem reordered_emptyObject : Reordered emptyObject emptyObject :=
  .object (fun _ => rfl) (by simp [Members.valuesOf])

namespace Reordered

/-- What a segment names is the same up to the order of members. -/
theorem child? (alike : Reordered first second) (key : String) :
    Option.Rel Reordered (first.child? key) (second.child? key) := by
  rcases alike.shape with ⟨isScalar, _, rfl⟩ | ⟨items, others, rfl, rfl, itemsAlike⟩ |
    ⟨members, others, rfl, rfl, related⟩
  · cases second with
    | array => exact absurd rfl isScalar.1
    | object => exact absurd rfl isScalar.2
    | _ => exact .none
  · rw [Document.child?, Document.child?]
    cases Path.index? key with
    | none => exact .none
    | some index => exact rel_getElem? itemsAlike index
  · rw [Document.child?, Document.child?]
    exact rel_iff.2 (related.get? key)

theorem below? (alike : Reordered first second) (segments : List String) :
    Option.Rel Reordered (first.below? segments) (second.below? segments) := by
  induction segments generalizing first second with
  | nil => exact .some alike
  | cons segment rest ih => exact rel_bind (alike.child? segment) fun _ _ => ih

theorem setChild (alike : Reordered first second) (key : String)
    (valuesAlike : Reordered value other) :
    Except.Corresponds Reordered (first.setChild key value) (second.setChild key other) := by
  rcases alike.shape with ⟨isScalar, _, rfl⟩ | ⟨items, others, rfl, rfl, itemsAlike⟩ |
    ⟨members, others, rfl, rfl, related⟩
  · cases second with
    | array => exact absurd rfl isScalar.1
    | object => exact absurd rfl isScalar.2
    | _ => rfl
  · rw [Document.setChild, Document.setChild]
    cases Path.index? key with
    | none => rfl
    | some index =>
        dsimp only
        rw [itemsAlike.length_eq]
        split
        · refine reordered_array_iff.2 (forall₂_set ?_ valuesAlike index)
          rw [itemsAlike.length_eq]
          exact List.rel_append itemsAlike (List.forall₂_same.2 fun padding inPadding =>
            List.eq_of_mem_replicate inPadding ▸ reordered_null)
        · rfl
  · exact reordered_object_iff.2 (related.put valuesAlike)

theorem removeChild (alike : Reordered first second) (key : String) :
    Reordered (first.removeChild key) (second.removeChild key) := by
  rcases alike.shape with ⟨isScalar, _, rfl⟩ | ⟨items, others, rfl, rfl, itemsAlike⟩ |
    ⟨members, others, rfl, rfl, related⟩
  · cases second with
    | array => exact absurd rfl isScalar.1
    | object => exact absurd rfl isScalar.2
    | _ => exact alike
  · rw [Document.removeChild, Document.removeChild]
    cases Path.index? key with
    | none => exact alike
    | some index => exact reordered_array_iff.2 (forall₂_set itemsAlike reordered_null index)
  · exact reordered_object_iff.2 (related.erase key)

/-- Acts that do not see the order of members change the whole document so. -/
theorem updateParent {create : Bool} {act otherAct : Document → String → Except EntryFault Document}
    (acts : ∀ node otherNode key, Reordered node otherNode →
      Except.Corresponds Reordered (act node key) (otherAct otherNode key))
    {segments : List String} (alike : Reordered first second) :
    Except.Corresponds Reordered (first.updateParent create act segments)
      (second.updateParent create otherAct segments) := by
  induction segments generalizing first second with
  | nil => rfl
  | cons segment rest ih =>
      cases rest with
      | nil => exact acts first second segment alike
      | cons next rest =>
          rw [Document.updateParent, Document.updateParent]
          rcases rel_iff.1 (alike.child? segment) with
            ⟨missing, otherMissing⟩ | ⟨child, otherChild, found, otherFound, childAlike⟩
          · simp only [missing, otherMissing]
            split
            · refine (alike.setChild segment reordered_emptyObject).bind
                fun grown otherGrown grownAlike => ?_
              rcases rel_iff.1 (grownAlike.child? segment) with
                ⟨missing, otherMissing⟩ | ⟨child, otherChild, found, otherFound, childAlike⟩
              · simp only [missing, otherMissing]
                rfl
              · simp only [found, otherFound]
                exact (ih childAlike).bind fun _ _ => grownAlike.setChild segment
            · exact alike
          · simp only [found, otherFound]
            exact (ih childAlike).bind fun _ _ => alike.setChild segment

theorem atParent {create : Bool} {act otherAct : Document → String → Except EntryFault Document}
    (acts : ∀ node otherNode key, Reordered node otherNode →
      Except.Corresponds Reordered (act node key) (otherAct otherNode key))
    {path : Path} (alike : Reordered first second) :
    Except.Corresponds Reordered (first.atParent create act path)
      (second.atParent create otherAct path) := by
  rw [Document.atParent, Document.atParent]
  cases path.fault? with
  | some fault => rfl
  | none => exact alike.updateParent acts

end Reordered

end Document

open Document (Reordered)

namespace Condition

/-- The condition itself does not ask for an order. -/
def AsksNoOrder : Condition → Prop
  | .compares comparison _ => comparison = .eq ∨ comparison = .ne
  | _ => True

/-- No comparison in the condition looks at the order of documents. -/
def RangeFree (condition : Condition) : Prop :=
  condition.Throughout AsksNoOrder

mutual

/-- Conditions with the same outline and the same documents up to the order of members are met by
the same items up to the order of members. -/
theorem matchesItem_eq {condition other : Condition} {item second : Document}
    (rangeFree : condition.RangeFree) (outlines : condition.outline = other.outline)
    (alike : List.Forall₂ Reordered condition.documents other.documents)
    (items : Reordered item second) :
    condition.matchesItem item = other.matchesItem second := by
  match condition with
  | .equals value =>
      cases other <;> simp only [outline, reduceCtorEq] at outlines
      exact items.equivalent_eq (List.forall₂_cons.1 alike).1
  | .isIn values =>
      cases other <;> simp only [outline, reduceCtorEq] at outlines
      exact any_eq_of_forall₂ alike fun _ _ => items.equivalent_eq
  | .notIn values =>
      cases other <;> simp only [outline, reduceCtorEq] at outlines
      exact congrArg Bool.not (any_eq_of_forall₂ alike fun _ _ => items.equivalent_eq)
  | .compares comparison operand =>
      cases other <;> simp only [outline, reduceCtorEq, compares.injEq] at outlines
      obtain ⟨rfl, -⟩ := outlines
      have same := items.equivalent_eq (List.forall₂_cons.1 alike).1
      rcases rangeFree with rfl | rfl
      · exact same
      · exact congrArg Bool.not same
  | .all parts =>
      cases other <;> simp only [outline, reduceCtorEq, all.injEq] at outlines
      exact allMatch_eq rangeFree.2 outlines alike items
  | .fields conditions =>
      cases other <;> simp only [outline, reduceCtorEq, fields.injEq] at outlines
      rw [matchesItem_fields, matchesItem_fields, items.kind_eq,
        fieldsMatch_eq rangeFree.2 outlines alike items]

theorem allMatch_eq {parts others : List Condition} {item second : Document}
    (rangeFree : PartsThroughout AsksNoOrder parts)
    (outlines : partsOutline parts = partsOutline others)
    (alike : List.Forall₂ Reordered (partsDocuments parts) (partsDocuments others))
    (items : Reordered item second) : allMatch parts item = allMatch others second := by
  match parts, others with
  | [], [] => rfl
  | [], _ :: _ | _ :: _, [] => simp [partsOutline] at outlines
  | part :: rest, other :: others =>
      simp only [partsOutline, List.cons.injEq] at outlines
      obtain ⟨partAlike, restAlike⟩ :=
        (forall₂_append_iff (length_documents_of_outline_eq outlines.1)).1 alike
      rw [allMatch, allMatch, matchesItem_eq rangeFree.1 outlines.1 partAlike items,
        allMatch_eq rangeFree.2 outlines.2 restAlike items]

theorem fieldsMatch_eq {conditions others : List (Path × Condition)} {item second : Document}
    (rangeFree : FieldsThroughout AsksNoOrder conditions)
    (outlines : fieldsOutline conditions = fieldsOutline others)
    (alike : List.Forall₂ Reordered (fieldsDocuments conditions) (fieldsDocuments others))
    (items : Reordered item second) :
    fieldsMatch conditions item = fieldsMatch others second := by
  match conditions, others with
  | [], [] => rfl
  | [], _ :: _ | _ :: _, [] => simp [fieldsOutline] at outlines
  | (field, condition) :: rest, (otherField, other) :: others =>
      simp only [fieldsOutline, List.cons.injEq, Prod.mk.injEq] at outlines
      obtain ⟨⟨rfl, conditionOutlines⟩, restOutlines⟩ := outlines
      obtain ⟨conditionAlike, restAlike⟩ :=
        (forall₂_append_iff (length_documents_of_outline_eq conditionOutlines)).1 alike
      have values := rel_getD (items.below? field.segments) Document.reordered_null
      rw [fieldsMatch, fieldsMatch, Document.resolve?, Document.resolve?,
        matchesItem_eq rangeFree.1 conditionOutlines conditionAlike values,
        fieldsMatch_eq rangeFree.2 restOutlines restAlike items]

end

end Condition

variable {items others values otherValues : List Document}

/-- Without a sort, a push does not look at what it puts together. -/
theorem Push.run_alike {operand other : Push} (unsorted : operand.sort = none)
    (outlines : operand.outline = other.outline)
    (each : List.Forall₂ Reordered operand.each other.each)
    (alike : List.Forall₂ Reordered items others) :
    List.Forall₂ Reordered (operand.run items) (other.run others) := by
  obtain ⟨_, position, slice, sort⟩ := operand
  obtain ⟨_, otherPosition, otherSlice, otherSort⟩ := other
  simp only [outline, mk.injEq] at outlines
  obtain ⟨_, rfl, rfl, rfl⟩ := outlines
  obtain rfl : sort = none := unsorted
  have inserted := List.rel_append
    (List.rel_append (List.forall₂_take (place position items.length) alike) each)
    (List.forall₂_drop (place position items.length) alike)
  simp only [run, cut]
  rw [← alike.length_eq]
  cases slice with
  | none => exact inserted
  | some bound =>
      dsimp only
      rw [← inserted.length_eq]
      split
      · exact List.forall₂_take _ inserted
      · exact List.forall₂_drop _ inserted

theorem joinSet_alike (each : List.Forall₂ Reordered values otherValues)
    (alike : List.Forall₂ Reordered items others) :
    List.Forall₂ Reordered (joinSet items values) (joinSet others otherValues) := by
  refine List.rel_foldl ?_ alike each
  intro collected otherCollected collectedAlike value other valueAlike
  have there := any_eq_of_forall₂ collectedAlike fun _ _ itemAlike =>
    itemAlike.equivalent_eq valueAlike
  dsimp only
  rw [there]
  split
  · exact collectedAlike
  · exact List.rel_append collectedAlike (.cons valueAlike .nil)

theorem ArrayEnd.removeFrom_alike (side : ArrayEnd) (alike : List.Forall₂ Reordered items others) :
    List.Forall₂ Reordered (side.removeFrom items) (side.removeFrom others) := by
  cases side with
  | first => exact List.forall₂_drop 1 alike
  | last =>
      rw [removeFrom, removeFrom, List.dropLast_eq_take, List.dropLast_eq_take, alike.length_eq]
      exact List.forall₂_take _ alike

end LocalFirst
