import LocalFirst.Proofs.DocumentEquality
import LocalFirst.Proofs.DocumentOrder

/-!
# Range conditions beside equality

Equality of documents looks members up by their keys, and the order of documents walks them as they
are listed.  Without floats, the order ends at documents that are equal to the letter.  A range
condition that includes its bound therefore adds just the bound itself to the one that does not,
and not what is equal to the bound with its members in another order: such an item lies above or
below the bound.
-/

namespace LocalFirst

namespace Document

variable {first second : Document}

theorem equivalentScalar_eq_same (leftNot : first.kind ≠ .float) (rightNot : second.kind ≠ .float) :
    equivalentScalar first second = sameScalar first second := by
  cases first <;> cases second <;>
    simp_all [equivalentScalar, sameScalar, number?, kind, Number.compare]
  exact Int64.toInt_inj

/-- Without floats, equivalent documents are equal. -/
theorem equivalent_eq_same (free : first.FloatFree) (otherFree : second.FloatFree) :
    first.equivalent second = first.same second := by
  unfold Document.equivalent Document.same
  induction first using Document.induction generalizing second with
  | scalar document scalar =>
      rw [agree_scalar_left scalar, agree_scalar_left scalar,
        equivalentScalar_eq_same free.kind_ne otherFree.kind_ne]
  | array items ih =>
      cases second with
      | array others =>
          rw [Bool.eq_iff_iff, agree, agree, agreeItems_iff, agreeItems_iff,
            forall₂_iff_getElem?, forall₂_iff_getElem?]
          refine and_congr_right fun _ => forall_congr' fun place => forall₂_congr fun item other =>
            forall₂_congr fun found otherFound => ?_
          have member := List.mem_of_getElem? found
          rw [ih item member (floatFree_array.1 free item member)
            (floatFree_array.1 otherFree other (List.mem_of_getElem? otherFound))]
      | _ => exact equivalentScalar_eq_same free.kind_ne otherFree.kind_ne
  | object members ih =>
      cases second with
      | object others =>
          rw [Bool.eq_iff_iff, agree, agree, Bool.and_eq_true, Bool.and_eq_true,
            agreeMembers_eq_true_iff, agreeMembers_eq_true_iff]
          refine and_congr_right fun _ => forall₂_congr fun member inMembers =>
            exists_congr fun value => and_congr_right fun found => ?_
          rw [ih member inMembers (floatFree_object.1 free member inMembers)
            (floatFree_object.1 otherFree _ (Members.mem_of_get? found))]
      | _ => exact equivalentScalar_eq_same free.kind_ne otherFree.kind_ne

theorem sameBracket_of_kind_eq (kinds : first.kind = second.kind) :
    first.sameBracket second = true := by
  simp [sameBracket, kinds]

end Document

namespace Comparison

variable {element operand : Document}

/-- The range without its bound. -/
def withoutBound : Comparison → Comparison
  | .gte => .gt
  | .lte => .lt
  | comparison => comparison

/-- A range that includes its bound adds the bound, to the letter. -/
theorem holds_iff_withoutBound {comparison : Comparison}
    (inclusive : comparison = .gte ∨ comparison = .lte) (free : element.FloatFree)
    (operandFree : operand.FloatFree) :
    comparison.holds element operand = true ↔
      comparison.withoutBound.holds element operand = true ∨ element = operand := by
  rw [← Document.compare_eq_iff free operandFree]
  cases order : element.compare operand with
  | eq =>
      have kinds := Document.kind_eq_of_compare free operandFree order
      rcases inclusive with rfl | rfl <;>
        simp [holds, order, Document.sameBracket_of_kind_eq kinds]
  | lt | gt => rcases inclusive with rfl | rfl <;> simp [holds, withoutBound, order]

/-- Within a bracket, what is not equal to the letter lies above or below. -/
theorem holds_gt_or_lt_iff (free : element.FloatFree) (operandFree : operand.FloatFree) :
    gt.holds element operand = true ∨ lt.holds element operand = true ↔
      element.sameBracket operand = true ∧ element ≠ operand := by
  rw [ne_eq, ← Document.compare_eq_iff free operandFree]
  cases order : element.compare operand <;> simp [holds, order]

end Comparison

namespace Condition

theorem matchesItem_ofParts_compares (comparison : Comparison) (operand item : Document) :
    (ofParts [.compares comparison operand]).matchesItem item = comparison.holds item operand := by
  cases comparison <;> rfl

/-- At an item, the conditions of the comparisons go along with equality: a range that includes its
bound adds what equals the bound, and what equals the bound lies neither above nor below it. -/
def RangesAgree (reads : Comparison → Condition) (item : Document) : Prop :=
  ((reads .gte).matchesItem item = true ↔
      (reads .gt).matchesItem item = true ∨ (reads .eq).matchesItem item = true) ∧
    ((reads .lte).matchesItem item = true ↔
      (reads .lt).matchesItem item = true ∨ (reads .eq).matchesItem item = true) ∧
    ¬ ((reads .eq).matchesItem item = true ∧
      ((reads .gt).matchesItem item = true ∨ (reads .lt).matchesItem item = true))

/-- Every comparison with an operand can be read.  A range that includes its bound adds the operand
to the letter, so that the comparisons go along with equality at just the items that do not equal
the operand in another order of members. -/
theorem ranges_beside_equality {element operand : Document} (path : Path)
    (distinct : element.KeysDistinct) (free : element.FloatFree)
    (operandFree : operand.FloatFree) :
    ∃ reads : Comparison → Condition,
      (∀ comparison, ofDocument path (.object [(comparison.name, operand)]) =
        .ok (reads comparison)) ∧
      ((reads .gte).matchesItem element = true ↔
        (reads .gt).matchesItem element = true ∨ element = operand) ∧
      ((reads .lte).matchesItem element = true ↔
        (reads .lt).matchesItem element = true ∨ element = operand) ∧
      (RangesAgree reads element ↔ (element.same operand = true → element = operand)) := by
  have gteIff : Comparison.gte.holds element operand = true ↔
      Comparison.gt.holds element operand = true ∨ element = operand :=
    Comparison.holds_iff_withoutBound (.inl rfl) free operandFree
  have lteIff : Comparison.lte.holds element operand = true ↔
      Comparison.lt.holds element operand = true ∨ element = operand :=
    Comparison.holds_iff_withoutBound (.inr rfl) free operandFree
  have strictIff := Comparison.holds_gt_or_lt_iff free operandFree
  have eqIff : Comparison.eq.holds element operand = element.same operand :=
    Document.equivalent_eq_same free operandFree
  refine ⟨fun comparison => ofParts [.compares comparison operand], fun comparison =>
    ofDocument_comparison path comparison operand, ?_⟩
  simp only [RangesAgree, matchesItem_ofParts_compares]
  refine ⟨gteIff, lteIff, ?_⟩
  rw [gteIff, lteIff, strictIff, eqIff]
  by_cases letter : element = operand
  · subst letter
    simp [Document.same_refl distinct free.notNaN]
  · -- What equals the operand is of its kind, and so it lies above or below.
    have bracket : element.same operand = true → element.sameBracket operand = true :=
      fun same => Document.sameBracket_of_kind_eq (Document.kind_eq_of_same same)
    refine ⟨fun agree same => absurd ⟨same, bracket same, letter⟩ agree.2.2, fun differ => ?_⟩
    have notSame : ¬ element.same operand = true := fun same => letter (differ same)
    simp [letter, notSame]

/-- Two measures and a unit. -/
def measured : Document :=
  .object [("size", .object [("height", .int 1), ("width", .int 2)]), ("unit", .string "cm")]

/-- The same, with the width before the height. -/
def turned : Document :=
  .object [("size", .object [("width", .int 2), ("height", .int 1)]), ("unit", .string "cm")]

theorem floatFree_measured : measured.FloatFree ∧ turned.FloatFree := by
  simp [measured, turned, Document.FloatFree, Document.Everywhere, Document.MembersEverywhere,
    Document.NotFloat, Document.kind]

theorem keysDistinct_measured : measured.KeysDistinct := by
  simp [measured, Document.KeysDistinct, Document.MemberKeysDistinct]

theorem ranges_beside_equality_turned :
    (measured.KeysDistinct ∧ measured.FloatFree ∧ turned.FloatFree) ∧
      ∃ reads : Comparison → Condition,
        (∀ comparison, ofDocument ⟨["items"]⟩ (.object [(comparison.name, turned)]) =
          .ok (reads comparison)) ∧
        ((reads .lte).matchesItem measured = true ↔ (reads .lt).matchesItem measured = true) ∧
        ¬ RangesAgree reads measured := by
  have differ : measured ≠ turned := by simp [measured, turned]
  have same : measured.same turned = true := by decide +kernel
  obtain ⟨reads, readsAll, _, lteIff, agreeIff⟩ := ranges_beside_equality ⟨["items"]⟩
    keysDistinct_measured floatFree_measured.1 floatFree_measured.2
  refine ⟨⟨keysDistinct_measured, floatFree_measured⟩, reads, readsAll, ?_, ?_⟩
  · simpa [differ] using lteIff
  · exact fun agree => differ (agreeIff.1 agree same)

/-- An item that equals the bound lies below it, and the range that includes the bound misses
it. -/
theorem equal_and_below_of_turned :
    (measured.KeysDistinct ∧ measured.FloatFree ∧ turned.FloatFree) ∧
      ∃ equal atLeast below : Condition,
        ofDocument ⟨["items"]⟩ (.object [("$eq", turned)]) = .ok equal ∧
        ofDocument ⟨["items"]⟩ (.object [("$gte", turned)]) = .ok atLeast ∧
        ofDocument ⟨["items"]⟩ (.object [("$lt", turned)]) = .ok below ∧
        equal.matchesItem measured = true ∧ below.matchesItem measured = true ∧
        atLeast.matchesItem measured = false :=
  ⟨⟨keysDistinct_measured, floatFree_measured⟩, _, _, _, ofDocument_comparison _ .eq turned,
    ofDocument_comparison _ .gte turned, ofDocument_comparison _ .lt turned, by decide +kernel,
    by decide +kernel, by decide +kernel⟩

end Condition

end LocalFirst
