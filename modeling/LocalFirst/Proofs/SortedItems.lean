import LocalFirst.Proofs.DocumentOrder

/-!
# Items sorted by a rule

Sorting is more than a permutation only because the comparison by which it goes is a total preorder;
keys that decide one after another, each in its own direction, make one again.
-/

universe u v

namespace LocalFirst

section Sorting

variable {α : Type u} {β : Type v}

theorem transCmp_on (cmp : β → β → Ordering) [Std.TransCmp cmp] (view : α → β) :
    Std.TransCmp fun left right => cmp (view left) (view right) where
  eq_swap := Std.OrientedCmp.eq_swap
  isLE_trans := Std.TransCmp.isLE_trans

theorem transCmp_direct (direction : SortDirection) (cmp : α → α → Ordering)
    [trans : Std.TransCmp cmp] :
    Std.TransCmp fun left right => direction.direct (cmp left right) := by
  cases direction with
  | ascending => exact trans
  | descending =>
      have exchanged : (fun left right => SortDirection.descending.direct (cmp left right)) =
          fun left right => cmp right left :=
        funext fun left => funext fun right => Std.OrientedCmp.eq_swap.symm
      rw [exchanged]
      exact Std.TransCmp.opposite

variable (cmp : α → α → Ordering) [Std.TransCmp cmp]

theorem isLE_total (left right : α) : ((cmp left right).isLE || (cmp right left).isLE) = true := by
  have swapped : cmp right left = (cmp left right).swap := Std.OrientedCmp.eq_swap
  rw [swapped]
  cases cmp left right <;> rfl

theorem pairwise_mergeSort_isLE (items : List α) :
    (items.mergeSort fun left right => (cmp left right).isLE).Pairwise
      fun left right => (cmp left right).isLE = true :=
  List.pairwise_mergeSort (fun _ _ _ => Std.TransCmp.isLE_trans) (isLE_total cmp) items

/-- Sorting leaves the items that tie with one in their order. -/
theorem filter_mergeSort_isLE (items : List α) (item : α) :
    (items.mergeSort fun left right => (cmp left right).isLE).filter (cmp item · == .eq) =
      items.filter (cmp item · == .eq) := by
  let sorted := items.mergeSort fun left right => (cmp left right).isLE
  let tied := items.filter (cmp item · == .eq)
  have inOrder : tied.Pairwise fun left right => (cmp left right).isLE = true := by
    refine List.pairwise_of_forall_mem_list fun left leftMember right rightMember => ?_
    have leftTies : cmp item left = .eq := by simpa using (List.mem_filter.1 leftMember).2
    have rightTies : cmp item right = .eq := by simpa using (List.mem_filter.1 rightMember).2
    rw [← Std.TransCmp.congr_left leftTies, rightTies]
    rfl
  have listed : tied.Sublist sorted :=
    List.sublist_mergeSort (fun _ _ _ => Std.TransCmp.isLE_trans) (isLE_total cmp) inOrder
      List.filter_sublist
  have within : tied.Sublist (sorted.filter (cmp item · == .eq)) := by
    have filtered := listed.filter (cmp item · == .eq)
    simpa only [tied, List.filter_filter, Bool.and_self] using filtered
  have permuted : sorted.Perm items := List.mergeSort_perm items _
  exact (within.eq_of_length (permuted.filter _).length_eq.symm).symm

end Sorting

namespace SortRule

/-- What a key finds in an item; a missing one counts as null. -/
def valueAt (key : Path) (item : Document) : Document :=
  (item.resolve? key).getD .null

/-- How a key puts two items. -/
def order (key : Path × SortDirection) (left right : Document) : Ordering :=
  key.2.direct ((valueAt key.1 left).compare (valueAt key.1 right))

/-- The first key on which two items do not tie, if there is one, puts the left one first. -/
def KeysInOrder : List (Path × SortDirection) → Document → Document → Prop
  | [], _, _ => True
  | key :: rest, left, right =>
      order key left right = .lt ∨ (order key left right = .eq ∧ KeysInOrder rest left right)

/-- Two items may follow each other. -/
def InOrder : SortRule → Document → Document → Prop
  | .items direction, left, right => direction.direct (left.compare right) ≠ .gt
  | .keys listed, left, right => KeysInOrder listed left right

/-- Two items tie as a whole, or on every key. -/
def ties : SortRule → Document → Document → Bool
  | .items _, left, right => left.compare right == .eq
  | .keys listed, left, right =>
      listed.all fun key => (valueAt key.1 left).compare (valueAt key.1 right) == .eq

/-- The same items, in order, and those that tie as they were. -/
structure Sorts (rule : SortRule) (items sorted : List Document) : Prop where
  perm : items.Perm sorted
  inOrder : sorted.Pairwise rule.InOrder
  stable : ∀ item ∈ items, sorted.filter (rule.ties item) = items.filter (rule.ties item)

theorem foldl_order (left right : Document) (listed : List (Path × SortDirection))
    (decided : Ordering) :
    listed.foldl (fun decided key => decided.then (order key left right)) decided =
      decided.then ((SortRule.keys listed).compare left right) := by
  change _ =
    decided.then (listed.foldl (fun decided key => decided.then (order key left right)) .eq)
  induction listed generalizing decided with
  | nil => simp
  | cons key rest ih =>
      rw [List.foldl_cons, List.foldl_cons, ih, ih (Ordering.eq.then _), Ordering.then_assoc]
      rfl

theorem compare_keys_cons (key : Path × SortDirection) (rest : List (Path × SortDirection))
    (left right : Document) : (SortRule.keys (key :: rest)).compare left right =
      (order key left right).then ((SortRule.keys rest).compare left right) :=
  foldl_order left right rest (order key left right)

theorem direct_eq_eq_iff (direction : SortDirection) (outcome : Ordering) :
    direction.direct outcome = .eq ↔ outcome = .eq := by
  cases direction <;> simp [SortDirection.direct]

theorem inOrder_iff (rule : SortRule) (left right : Document) :
    rule.InOrder left right ↔ (rule.compare left right).isLE = true := by
  cases rule with
  | items direction => exact Ordering.ne_gt_iff_isLE
  | keys listed =>
      rw [InOrder]
      induction listed with
      | nil => exact iff_of_true trivial rfl
      | cons key rest ih =>
          rw [KeysInOrder, ih, compare_keys_cons]
          cases order key left right <;> simp

theorem ties_eq (rule : SortRule) (left right : Document) :
    rule.ties left right = (rule.compare left right == .eq) := by
  rw [Bool.eq_iff_iff]
  cases rule with
  | items direction => simp [ties, compare, direct_eq_eq_iff]
  | keys listed =>
      induction listed with
      | nil => exact iff_of_true rfl rfl
      | cons key rest ih =>
          simp only [ties, List.all_cons, Bool.and_eq_true, beq_iff_eq, compare_keys_cons,
            Ordering.then_eq_eq, order, direct_eq_eq_iff] at ih ⊢
          rw [ih]

theorem floatFree_valueAt (key : Path) {item : Document} (free : item.FloatFree) :
    (valueAt key item).FloatFree := by
  unfold valueAt
  cases found : item.resolve? key with
  | none => simp [Document.FloatFree, Document.Everywhere, Document.NotFloat, Document.kind]
  | some value => exact Document.Everywhere.below? free found

/-- An item without floats. -/
abbrev Item :=
  { item : Document // item.FloatFree }

def compareItems (rule : SortRule) (left right : Item) : Ordering :=
  rule.compare left.1 right.1

/-- On items without floats, a rule compares by a total preorder. -/
instance (rule : SortRule) : Std.TransCmp rule.compareItems := by
  let documents (left right : Item) : Ordering := left.1.compare right.1
  let itemAt (key : Path) (item : Item) : Item := ⟨valueAt key item.1, floatFree_valueAt key item.2⟩
  cases rule with
  | items direction => exact transCmp_direct direction documents
  | keys listed =>
      induction listed with
      | nil => exact { eq_swap := rfl, isLE_trans := fun _ _ => rfl }
      | cons key rest ih =>
          let first (left right : Item) : Ordering := order key left.1 right.1
          have values := transCmp_on documents (itemAt key.1)
          have preorder : Std.TransCmp first := transCmp_direct key.2 _
          have decides : (SortRule.keys (key :: rest)).compareItems =
              compareLex first (SortRule.keys rest).compareItems :=
            funext fun left => funext fun right => compare_keys_cons key rest left.1 right.1
          rw [decides]
          exact inferInstance

theorem sort_eq (rule : SortRule) {items : List Document} (free : ∀ item ∈ items, item.FloatFree) :
    rule.sort items = ((items.attachWith _ free).mergeSort fun left right =>
      (rule.compareItems left right).isLE).map Subtype.val := by
  have mapped := List.map_mergeSort (f := Subtype.val) (l := items.attachWith _ free)
    (r := fun left right => (rule.compareItems left right).isLE)
    (s := fun left right => (rule.compare left right).isLE) fun _ _ _ _ => rfl
  rw [mapped, List.attachWith_map_subtype_val, sort]

/-- A rule sorts items without floats. -/
theorem sorts_sort (rule : SortRule) {items : List Document}
    (free : ∀ item ∈ items, item.FloatFree) : rule.Sorts items (rule.sort items) where
  perm := (List.mergeSort_perm items _).symm
  inOrder := by
    rw [sort_eq rule free, List.pairwise_map]
    simp only [inOrder_iff]
    exact pairwise_mergeSort_isLE rule.compareItems _
  stable item member := by
    have kept := filter_mergeSort_isLE rule.compareItems (items.attachWith _ free)
      ⟨item, free item member⟩
    have mapped := congrArg (List.map Subtype.val) kept
    have tied : (fun other : Item => rule.compareItems ⟨item, free item member⟩ other == .eq) =
        rule.ties item ∘ Subtype.val :=
      funext fun other => (ties_eq rule item other.1).symm
    rwa [tied, ← List.filter_map, ← List.filter_map, ← sort_eq,
      List.attachWith_map_subtype_val] at mapped

end SortRule

end LocalFirst
