import LocalFirst.Proofs.Everywhere

/-!
# The order of documents

As long as no floats are involved, the order of documents is a total preorder: two documents compare
the other way round when they are exchanged, and comparisons can be chained.  Members and items
decide one after another, so that it is the chaining of whole outcomes that is carried through a
tree: not only that a document is not above another one, but also which step makes the difference.
Members are walked as they are listed, so that only a document equal to the letter compares equal.
-/

universe u

namespace LocalFirst

/-- The third outcome is what the first two amount to: if neither of them is above, it is below as
soon as one of them is, and equal otherwise. -/
def Chains (first second both : Ordering) : Prop :=
  first.isLE = true → second.isLE = true → both = first.then second

theorem chains_compare {κ : Type u} [Ord κ] [Std.TransOrd κ] (left middle right : κ) :
    Chains (compare left middle) (compare middle right) (compare left right) := by
  intro firstLE secondLE
  cases first : compare left middle with
  | lt => exact Std.TransCmp.lt_of_lt_of_isLE first secondLE
  | eq => exact Std.TransCmp.congr_left first
  | gt => simp [first] at firstLE

/-- Where two outcomes are decided one after the other, the second ones have to chain only if the
first ones leave everything open. -/
theorem Chains.then {first second both nextFirst nextSecond nextBoth : Ordering}
    (chains : Chains first second both)
    (nextChains : first = .eq → second = .eq → Chains nextFirst nextSecond nextBoth) :
    Chains (first.then nextFirst) (second.then nextSecond) (both.then nextBoth) := by
  intro firstLE secondLE
  have bothEq := chains (Ordering.isLE_left_of_isLE_then firstLE)
    (Ordering.isLE_left_of_isLE_then secondLE)
  cases first with
  | lt => simp [bothEq]
  | eq =>
      cases second with
      | lt => cases nextFirst <;> simp_all
      | eq => simpa [bothEq] using nextChains rfl rfl firstLE secondLE
      | gt => simp at secondLE
  | gt => simp at firstLE

section Lists

variable {α : Type u} {cmp : α → α → Ordering} {first second third : List α}

theorem compareLex_swap
    (swaps : ∀ left ∈ first, ∀ right ∈ second, cmp right left = (cmp left right).swap) :
    second.compareLex cmp first = (first.compareLex cmp second).swap := by
  induction first generalizing second with
  | nil => cases second <;> rfl
  | cons left lefts ih =>
      cases second with
      | nil => rfl
      | cons right rights =>
          have restSwap := ih fun later member other otherMember =>
            swaps later (List.mem_cons_of_mem _ member) other (List.mem_cons_of_mem _ otherMember)
          rw [List.compareLex_cons_cons, List.compareLex_cons_cons, Ordering.swap_then, restSwap,
            swaps left List.mem_cons_self right List.mem_cons_self]

theorem chains_compareLex
    (chains : ∀ left ∈ first, ∀ middle ∈ second, ∀ right ∈ third,
      Chains (cmp left middle) (cmp middle right) (cmp left right)) :
    Chains (first.compareLex cmp second) (second.compareLex cmp third)
      (first.compareLex cmp third) := by
  induction first generalizing second third with
  | nil => cases second <;> cases third <;> simp [Chains, List.compareLex]
  | cons left lefts ih =>
      cases second with
      | nil => simp [Chains, List.compareLex]
      | cons middle middles =>
          cases third with
          | nil => simp [Chains, List.compareLex]
          | cons right rights =>
              simp only [List.compareLex_cons_cons]
              refine (chains left List.mem_cons_self middle List.mem_cons_self right
                List.mem_cons_self).then fun _ _ => ih ?_
              exact fun later member other otherMember last lastMember =>
                chains later (List.mem_cons_of_mem _ member) other
                  (List.mem_cons_of_mem _ otherMember) last (List.mem_cons_of_mem _ lastMember)

theorem eq_of_compareLex
    (lawful : ∀ left ∈ first, ∀ right ∈ second, cmp left right = .eq → left = right)
    (equal : first.compareLex cmp second = .eq) : first = second := by
  induction first generalizing second with
  | nil => cases second <;> simp_all [List.compareLex]
  | cons left lefts ih =>
      cases second with
      | nil => simp [List.compareLex] at equal
      | cons right rights =>
          rw [List.compareLex_cons_cons, Ordering.then_eq_eq] at equal
          have firstEq := lawful left List.mem_cons_self right List.mem_cons_self equal.1
          have restEq := ih (fun later member other otherMember =>
            lawful later (List.mem_cons_of_mem _ member) other (List.mem_cons_of_mem _ otherMember))
            equal.2
          rw [firstEq, restEq]

end Lists

namespace Document

/-- The document is no float. -/
def NotFloat (document : Document) : Prop :=
  document.kind ≠ .float

/-- There is no float in the document. -/
def FloatFree (document : Document) : Prop :=
  document.Everywhere NotFloat

variable {left middle right : Document}

theorem FloatFree.kind_ne (free : left.FloatFree) : left.kind ≠ .float := by
  cases left with
  | float => exact absurd rfl free
  | _ => simp [kind]

theorem FloatFree.notNaN (free : left.FloatFree) : left.Everywhere NotNaN :=
  free.imp fun document notFloat => by
    cases document with
    | float => exact absurd rfl notFloat
    | _ => trivial

theorem floatFree_array {items : List Document} :
    (array items).FloatFree ↔ ∀ item ∈ items, item.FloatFree := by
  rw [FloatFree, everywhere_array]
  exact and_iff_right (by simp [NotFloat, kind])

theorem floatFree_object {members : List (String × Document)} :
    (object members).FloatFree ↔ ∀ member ∈ members, member.2.FloatFree := by
  rw [FloatFree, everywhere_object]
  exact and_iff_right (by simp [NotFloat, kind])

/-- The brackets decide first. -/
theorem compare_eq_then (left right : Document) :
    left.compare right =
      (Ord.compare left.kind.bracket right.kind.bracket).then (left.compare right) := by
  cases left <;> cases right <;> rfl

/-- Where there are no floats, documents in one bracket are of one kind. -/
theorem kind_eq_of_bracket (leftFree : left.FloatFree) (rightFree : right.FloatFree)
    (same : Ord.compare left.kind.bracket right.kind.bracket = .eq) : left.kind = right.kind := by
  have leftNot := leftFree.kind_ne
  have rightNot := rightFree.kind_ne
  rw [Std.LawfulEqOrd.compare_eq_iff_eq] at same
  generalize left.kind = leftKind at *
  generalize right.kind = rightKind at *
  cases leftKind <;> cases rightKind <;> simp_all [Kind.bracket]

/-- The order of two members. -/
def compareMember (member other : String × Document) : Ordering :=
  (Ord.compare member.1 other.1).then (member.2.compare other.2)

theorem compareItems_eq (items others : List Document) :
    compareItems items others = items.compareLex compare others := by
  induction items generalizing others with
  | nil => cases others <;> rfl
  | cons item rest ih =>
      cases others with
      | nil => rfl
      | cons other others => rw [compareItems, List.compareLex_cons_cons, ih]

theorem compareMembers_eq (members others : List (String × Document)) :
    compareMembers members others = members.compareLex compareMember others := by
  induction members generalizing others with
  | nil => cases others <;> rfl
  | cons member rest ih =>
      cases others with
      | nil => rfl
      | cons other others => rw [compareMembers, List.compareLex_cons_cons, ih, compareMember]

/-- In different brackets, these decide; in one bracket, both documents are of one kind. -/
theorem compare_swap_of_kind (leftFree : left.FloatFree) (rightFree : right.FloatFree)
    (sameKind : left.kind = right.kind → right.compare left = (left.compare right).swap) :
    right.compare left = (left.compare right).swap := by
  rw [compare_eq_then right, compare_eq_then left, Ordering.swap_then,
    Std.OrientedOrd.eq_swap (a := right.kind.bracket)]
  cases brackets : Ord.compare left.kind.bracket right.kind.bracket with
  | eq => simp [sameKind (kind_eq_of_bracket leftFree rightFree brackets)]
  | lt | gt => rfl

/-- Exchanged documents compare the other way round. -/
theorem compare_swap (leftFree : left.FloatFree) (rightFree : right.FloatFree) :
    right.compare left = (left.compare right).swap := by
  induction left using Document.induction generalizing right with
  | scalar document scalar =>
      refine compare_swap_of_kind leftFree rightFree fun sameKind => ?_
      have notFloat := leftFree.kind_ne
      cases document <;> cases right <;> simp_all [kind, IsScalar]
      case null => rfl
      case bool | string => exact Std.OrientedOrd.eq_swap
      case int => exact Std.OrientedOrd.eq_swap (α := Int)
  | array items ih =>
      refine compare_swap_of_kind leftFree rightFree fun sameKind => ?_
      cases right <;> simp only [kind, reduceCtorEq] at sameKind
      case array others =>
        rw [compare, compare, compareItems_eq, compareItems_eq]
        refine compareLex_swap fun item member other otherMember => ?_
        exact ih item member (floatFree_array.1 leftFree item member)
          (floatFree_array.1 rightFree other otherMember)
  | object members ih =>
      refine compare_swap_of_kind leftFree rightFree fun sameKind => ?_
      cases right <;> simp only [kind, reduceCtorEq] at sameKind
      case object others =>
        rw [compare, compare, compareMembers_eq, compareMembers_eq]
        refine compareLex_swap fun member inMembers other inOthers => ?_
        rw [compareMember, compareMember, Ordering.swap_then,
          Std.OrientedOrd.eq_swap (a := other.1), ih member inMembers
            (floatFree_object.1 leftFree member inMembers)
            (floatFree_object.1 rightFree other inOthers)]

/-- Between different brackets, these decide; otherwise all three documents are of one kind. -/
theorem chains_of_kind (leftFree : left.FloatFree) (middleFree : middle.FloatFree)
    (rightFree : right.FloatFree)
    (sameKind : left.kind = middle.kind → middle.kind = right.kind →
      Chains (left.compare middle) (middle.compare right) (left.compare right)) :
    Chains (left.compare middle) (middle.compare right) (left.compare right) := by
  rw [compare_eq_then left middle, compare_eq_then middle right, compare_eq_then left right]
  exact (chains_compare _ _ _).then fun leftSame middleSame =>
    sameKind (kind_eq_of_bracket leftFree middleFree leftSame)
      (kind_eq_of_bracket middleFree rightFree middleSame)

/-- Comparisons of documents can be chained. -/
theorem chains_compare_documents (leftFree : left.FloatFree) (middleFree : middle.FloatFree)
    (rightFree : right.FloatFree) :
    Chains (left.compare middle) (middle.compare right) (left.compare right) := by
  induction left using Document.induction generalizing middle right with
  | scalar document scalar =>
      refine chains_of_kind leftFree middleFree rightFree fun sameKind middleSame => ?_
      have notFloat := leftFree.kind_ne
      cases document <;> cases middle <;> cases right <;> simp_all [kind, IsScalar]
      case null => simp [Chains, compare, kind]
      case bool | string => exact chains_compare _ _ _
      case int => exact chains_compare (κ := Int) _ _ _
  | array items ih =>
      refine chains_of_kind leftFree middleFree rightFree fun sameKind middleSame => ?_
      cases middle <;> cases right <;> simp only [kind, reduceCtorEq] at sameKind middleSame
      case array others lasts =>
        simp only [compare, compareItems_eq]
        refine chains_compareLex fun item member other inOthers last inLasts => ?_
        exact ih item member (floatFree_array.1 leftFree item member)
          (floatFree_array.1 middleFree other inOthers) (floatFree_array.1 rightFree last inLasts)
  | object members ih =>
      refine chains_of_kind leftFree middleFree rightFree fun sameKind middleSame => ?_
      cases middle <;> cases right <;> simp only [kind, reduceCtorEq] at sameKind middleSame
      case object others lasts =>
        simp only [compare, compareMembers_eq]
        refine chains_compareLex fun member inMembers other inOthers last inLasts => ?_
        refine (chains_compare member.1 other.1 last.1).then fun _ _ => ?_
        exact ih member inMembers (floatFree_object.1 leftFree member inMembers)
          (floatFree_object.1 middleFree other inOthers)
          (floatFree_object.1 rightFree last inLasts)

/-- On documents without floats, the order is a total preorder. -/
instance : Std.TransCmp fun left right : { document : Document // document.FloatFree } =>
    left.1.compare right.1 where
  eq_swap {left right} := compare_swap right.2 left.2
  isLE_trans {left middle right} leftLE middleLE := by
    rw [chains_compare_documents left.2 middle.2 right.2 leftLE middleLE]
    exact Ordering.isLE_then_iff_and.2 ⟨leftLE, .inr middleLE⟩

/-- Documents that compare equal are of one kind. -/
theorem kind_eq_of_compare (leftFree : left.FloatFree) (rightFree : right.FloatFree)
    (equal : left.compare right = .eq) : left.kind = right.kind := by
  rw [compare_eq_then, Ordering.then_eq_eq] at equal
  exact kind_eq_of_bracket leftFree rightFree equal.1

/-- Documents that compare equal are equal to the letter, down to the order of members. -/
theorem eq_of_compare (leftFree : left.FloatFree) (rightFree : right.FloatFree)
    (equal : left.compare right = .eq) : left = right := by
  have sameKind := kind_eq_of_compare leftFree rightFree equal
  induction left using Document.induction generalizing right with
  | scalar document scalar =>
      have notFloat := leftFree.kind_ne
      cases document <;> cases right <;> simp_all [kind, IsScalar]
      case bool | string => exact Std.LawfulEqOrd.eq_of_compare equal
      case int => exact Int64.toInt_inj.1 (Std.LawfulEqOrd.eq_of_compare (α := Int) equal)
  | array items ih =>
      cases right <;> simp only [kind, reduceCtorEq] at sameKind
      case array others =>
        rw [compare, compareItems_eq] at equal
        refine congrArg array (eq_of_compareLex (fun item member other inOthers same => ?_) equal)
        have itemFree := floatFree_array.1 leftFree item member
        have otherFree := floatFree_array.1 rightFree other inOthers
        exact ih item member itemFree otherFree same (kind_eq_of_compare itemFree otherFree same)
  | object members ih =>
      cases right <;> simp only [kind, reduceCtorEq] at sameKind
      case object others =>
        rw [compare, compareMembers_eq] at equal
        refine congrArg object (eq_of_compareLex (fun member inMembers other inOthers same => ?_)
          equal)
        rw [compareMember, Ordering.then_eq_eq] at same
        have valueFree := floatFree_object.1 leftFree member inMembers
        have otherFree := floatFree_object.1 rightFree other inOthers
        exact Prod.ext (Std.LawfulEqOrd.eq_of_compare same.1) (ih member inMembers valueFree
          otherFree same.2 (kind_eq_of_compare valueFree otherFree same.2))

theorem compare_eq_iff (leftFree : left.FloatFree) (rightFree : right.FloatFree) :
    left.compare right = .eq ↔ left = right := by
  refine ⟨eq_of_compare leftFree rightFree, ?_⟩
  rintro rfl
  have swapped := compare_swap leftFree leftFree
  cases same : left.compare left <;> simp [same] at swapped ⊢

/-- Exchanged documents compare the other way round, a row of steps that do not descend does not
descend, and ascends when one of the steps does, and documents that compare equal stand in the same
place among all others. -/
theorem compare_preorder (leftFree : left.FloatFree) (middleFree : middle.FloatFree)
    (rightFree : right.FloatFree) :
    middle.compare left = (left.compare middle).swap ∧
      (left.compare middle ≠ .gt → middle.compare right ≠ .gt →
        left.compare right ≠ .gt ∧
          (left.compare middle = .lt ∨ middle.compare right = .lt → left.compare right = .lt)) ∧
      (left.compare middle = .eq →
        left.compare right = middle.compare right ∧ right.compare left = right.compare middle) := by
  refine ⟨compare_swap leftFree middleFree, fun firstStep secondStep => ?_, fun equal => ?_⟩
  · have chained := chains_compare_documents leftFree middleFree rightFree
      (Ordering.isLE_iff_ne_gt.2 firstStep) (Ordering.isLE_iff_ne_gt.2 secondStep)
    rw [chained]
    cases first : left.compare middle <;> cases second : middle.compare right <;> simp_all
  · obtain rfl := (compare_eq_iff leftFree middleFree).1 equal
    exact ⟨rfl, rfl⟩

/-- A list in an object. -/
def listing : Document :=
  .object [("tags", .array [.string "a", .null])]

/-- Its second item is of a higher bracket. -/
def risenListing : Document :=
  .object [("tags", .array [.string "a", .array [.int 1]])]

/-- Behind the list there is one member more. -/
def longerListing : Document :=
  .object [("tags", .array [.string "a", .array [.int 1]]), ("size", .int 2)]

theorem compare_preorder_listings :
    (listing.FloatFree ∧ risenListing.FloatFree ∧ longerListing.FloatFree) ∧
      listing.compare risenListing = .lt ∧ risenListing.compare longerListing = .lt ∧
      listing.compare longerListing = .lt ∧ risenListing.compare listing = .gt := by
  have free : listing.FloatFree ∧ risenListing.FloatFree ∧ longerListing.FloatFree := by
    simp [listing, risenListing, longerListing, FloatFree, Everywhere, ItemsEverywhere,
      MembersEverywhere, NotFloat, kind]
  have firstStep : listing.compare risenListing = .lt := by decide +kernel
  have secondStep : risenListing.compare longerListing = .lt := by decide +kernel
  obtain ⟨swaps, chains, _⟩ := compare_preorder free.1 free.2.1 free.2.2
  obtain ⟨_, ascends⟩ := chains (by simp [firstStep]) (by simp [secondStep])
  exact ⟨free, firstStep, secondStep, ascends (.inl firstStep), by rw [swaps, firstStep]; rfl⟩

end Document

end LocalFirst
