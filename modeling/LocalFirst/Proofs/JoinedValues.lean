import LocalFirst.Proofs.RangeConditions
import LocalFirst.Proofs.Reordered

/-!
# Values that join a list

Values join a list one after another, each one unless something that is equivalent to it is there
already.  Equivalence is reflexive and symmetric on all documents, but transitive only as long as
integers do not meet floats.
-/

universe u

namespace LocalFirst

namespace Document

variable {document left right : Document}

theorem equivalentScalar_symm (equivalent : equivalentScalar left right = true) :
    equivalentScalar right left = true := by
  unfold equivalentScalar at equivalent ⊢
  cases leftNumber : left.number? <;> cases rightNumber : right.number? <;>
    simp only [leftNumber, rightNumber] at equivalent ⊢
  case some.some =>
    exact beq_iff_eq.2 (Number.compare_eq_symm (beq_iff_eq.1 equivalent))
  all_goals exact scalarRule_sameScalar.symm _ _ equivalent

theorem symmetricRule_equivalentScalar : SymmetricRule equivalentScalar where
  isScalar _ _ := isScalar_of_equivalentScalar
  symm _ _ := equivalentScalar_symm

theorem equivalent_symm (distinct : left.KeysDistinct) (equivalent : left.equivalent right = true) :
    right.equivalent left = true :=
  agree_symm symmetricRule_equivalentScalar distinct equivalent

/-- Where no key repeats, a document is equivalent to itself; even not-a-number is. -/
theorem equivalent_refl (distinct : document.KeysDistinct) :
    document.equivalent document = true := by
  refine agree_refl symmetricRule_equivalentScalar distinct
    ((keysDistinct_iff_everywhere.1 distinct).imp fun scalar _ isScalar => ?_)
  cases scalar with
  | array => exact absurd rfl isScalar.1
  | object => exact absurd rfl isScalar.2
  | int | float => exact beq_iff_eq.2 (Number.compare_self _)
  | _ => simp [equivalentScalar, number?, sameScalar]

/-- Neither document is equivalent to the other. -/
def Unlike (left right : Document) : Prop :=
  left.equivalent right = false ∧ right.equivalent left = false

theorem unlike_of_not_equivalent (distinct : right.KeysDistinct)
    (differ : ¬ left.equivalent right = true) : left.Unlike right :=
  ⟨Bool.eq_false_iff.2 differ,
    Bool.eq_false_iff.2 fun equivalent => differ (equivalent_symm distinct equivalent)⟩

/-- Without floats, documents that one and the same document is equivalent to are alike. -/
theorem equivalent_of_common (distinct : document.KeysDistinct) (free : document.FloatFree)
    (leftFree : left.FloatFree) (rightFree : right.FloatFree)
    (toLeft : document.equivalent left = true) (toRight : document.equivalent right = true) :
    left.equivalent right = true := by
  rw [equivalent_eq_same free leftFree] at toLeft
  rw [equivalent_eq_same free rightFree] at toRight
  rw [equivalent_eq_same leftFree rightFree]
  exact same_trans (same_symm distinct toLeft) toRight

/-- Every document of a list is there in an equivalent form. -/
def CoveredBy (documents others : List Document) : Prop :=
  ∀ document ∈ documents, ∃ other ∈ others, other.equivalent document = true

end Document

/-- What the values add to some items: a part of the values in their order, each of them unlike the
items and unlike what has been added before it, so that nothing is missing. -/
structure Joins (items values added : List Document) : Prop where
  sublist : added.Sublist values
  unlikeItems : ∀ item ∈ items, ∀ value ∈ added, item.Unlike value
  unlike : added.Pairwise Document.Unlike
  covered : Document.CoveredBy values (items ++ added)

theorem joinSet_cons (items rest : List Document) (value : Document) :
    joinSet items (value :: rest) =
      joinSet (if items.any (·.equivalent value) then items else items ++ [value]) rest :=
  rfl

/-- Whatever the items are, the values join them. -/
theorem exists_joins (items : List Document) {values : List Document}
    (distinct : ∀ value ∈ values, value.KeysDistinct) :
    ∃ added, joinSet items values = items ++ added ∧ Joins items values added := by
  induction values generalizing items with
  | nil =>
      exact ⟨[], by simp [joinSet], .refl [], by simp, .nil, by simp [Document.CoveredBy]⟩
  | cons value rest ih =>
      obtain ⟨valueDistinct, restDistinct⟩ := List.forall_mem_cons.1 distinct
      rw [joinSet_cons]
      by_cases present : items.any (·.equivalent value) = true
      · obtain ⟨added, joined, joins⟩ := ih items restDistinct
        obtain ⟨item, inItems, equivalent⟩ := List.any_eq_true.1 present
        rw [if_pos present]
        exact ⟨added, joined, joins.sublist.cons value, joins.unlikeItems, joins.unlike,
          List.forall_mem_cons.2
            ⟨⟨item, List.mem_append_left _ inItems, equivalent⟩, joins.covered⟩⟩
      · -- The value stands between the items and what the others add.
        obtain ⟨added, joined, joins⟩ := ih (items ++ [value]) restDistinct
        have unlikeItem : ∀ item ∈ items, item.Unlike value := fun item inItems =>
          Document.unlike_of_not_equivalent valueDistinct fun equivalent =>
            present (List.any_eq_true.2 ⟨item, inItems, equivalent⟩)
        have unlikeAdded : ∀ other ∈ added, value.Unlike other :=
          joins.unlikeItems value (by simp)
        have covered := joins.covered
        rw [if_neg present, joined]
        simp only [List.append_assoc, List.singleton_append] at covered ⊢
        refine ⟨value :: added, rfl, joins.sublist.cons_cons value, fun item inItems =>
          List.forall_mem_cons.2 ⟨unlikeItem item inItems,
            joins.unlikeItems item (List.mem_append_left _ inItems)⟩,
          .cons unlikeAdded joins.unlike, List.forall_mem_cons.2 ⟨?_, covered⟩⟩
        exact ⟨value, by simp, Document.equivalent_refl valueDistinct⟩

/-- Where all values are there already, nothing is added. -/
theorem joinSet_of_coveredBy {items values : List Document}
    (covered : Document.CoveredBy values items) : joinSet items values = items := by
  induction values with
  | nil => rfl
  | cons value rest ih =>
      obtain ⟨present, restCovered⟩ := List.forall_mem_cons.1 covered
      rw [joinSet_cons, if_pos (List.any_eq_true.2 present)]
      exact ih restCovered

namespace Joins

variable {items values added : List Document}

/-- If no two items were alike, no two are afterwards. -/
theorem pairwise_unlike (joins : Joins items values added)
    (itemsUnlike : items.Pairwise Document.Unlike) : (items ++ added).Pairwise Document.Unlike :=
  List.pairwise_append.2 ⟨itemsUnlike, joins.unlike, joins.unlikeItems⟩

variable {others more : List Document}

/-- What some values add is covered by what the same values add in another order. -/
theorem coveredBy (joins : Joins items values added) (otherJoins : Joins items others more)
    (within : ∀ value ∈ values, value ∈ others) (distinct : ∀ item ∈ items, item.KeysDistinct) :
    Document.CoveredBy (items ++ added) (items ++ more) := by
  intro value member
  rcases List.mem_append.1 member with inItems | inAdded
  · exact ⟨value, List.mem_append_left _ inItems, Document.equivalent_refl (distinct value inItems)⟩
  · exact otherJoins.covered value (within value (joins.sublist.subset inAdded))

end Joins

/-- If each item of a list has a partner and no two share one, the partners can be lined up. -/
theorem exists_subperm_forall₂ {α : Type u} {related : α → α → Prop} {items others : List α}
    (apart : items.Pairwise fun item later =>
      ∀ other ∈ others, related other item → ¬ related other later)
    (partner : ∀ item ∈ items, ∃ other ∈ others, related other item) :
    ∃ matched, matched.Subperm others ∧ List.Forall₂ related matched items := by
  induction items generalizing others with
  | nil => exact ⟨[], List.nil_subperm, .nil⟩
  | cons item rest ih =>
      obtain ⟨itemApart, restApart⟩ := List.pairwise_cons.1 apart
      obtain ⟨⟨other, inOthers, isPartner⟩, restPartner⟩ := List.forall_mem_cons.1 partner
      obtain ⟨before, after, rfl⟩ := List.append_of_mem inOthers
      -- The partner of the first item is nobody else's.
      have subset : ∀ left ∈ before ++ after, left ∈ before ++ other :: after := by
        intro left member
        rcases List.mem_append.1 member with inBefore | inAfter
        · exact List.mem_append_left _ inBefore
        · exact List.mem_append_right _ (List.mem_cons_of_mem _ inAfter)
      obtain ⟨matched, subperm, alike⟩ := ih
        (restApart.imp fun unshared left member => unshared left (subset left member))
        fun later inRest => by
          obtain ⟨left, member, related⟩ := restPartner later inRest
          have notFirst : left ≠ other := by
            rintro rfl
            exact itemApart later inRest left inOthers isPartner related
          refine ⟨left, ?_, related⟩
          simpa [notFirst] using member
      have front : (other :: (before ++ after)).Subperm (before ++ other :: after) :=
        List.perm_middle.symm.subperm
      exact ⟨other :: matched, ((List.subperm_cons other).2 subperm).trans front,
        .cons isPartner alike⟩

namespace Joins

variable {items values added others more : List Document}

/-- Without floats, what some values add has its counterparts in what they add in another order. -/
theorem exists_matched (joins : Joins items values added) (otherJoins : Joins items others more)
    (permuted : values.Perm others) (distinct : ∀ value ∈ values, value.KeysDistinct)
    (free : ∀ value ∈ values, value.FloatFree) :
    ∃ matched, matched.Subperm more ∧
      List.Forall₂ (fun other value => other.equivalent value = true) matched added := by
  have inValues : ∀ other ∈ more, other ∈ values := fun other member =>
    permuted.mem_iff.2 (otherJoins.sublist.subset member)
  refine exists_subperm_forall₂ (joins.unlike.imp_of_mem ?_) fun value member => ?_
  · intro value later inAdded laterInAdded unlike other inMore equivalent toLater
    have alike := Document.equivalent_of_common (distinct other (inValues other inMore))
      (free other (inValues other inMore)) (free value (joins.sublist.subset inAdded))
      (free later (joins.sublist.subset laterInAdded)) equivalent toLater
    exact Bool.false_ne_true (unlike.1.symm.trans alike)
  · obtain ⟨other, inOther, equivalent⟩ :=
      otherJoins.covered value (permuted.mem_iff.1 (joins.sublist.subset member))
    rcases List.mem_append.1 inOther with inItems | inMore
    · exact absurd equivalent (Bool.eq_false_iff.1 (joins.unlikeItems other inItems value member).1)
    · exact ⟨other, inMore, equivalent⟩

/-- Without floats, the same values in another order add as many, each in an equivalent form. -/
theorem exists_perm (joins : Joins items values added) (otherJoins : Joins items others more)
    (permuted : values.Perm others) (distinct : ∀ value ∈ values, value.KeysDistinct)
    (free : ∀ value ∈ values, value.FloatFree) :
    ∃ matched, matched.Perm more ∧
      List.Forall₂ (fun other value => other.equivalent value = true) matched added := by
  obtain ⟨matched, subperm, alike⟩ := joins.exists_matched otherJoins permuted distinct free
  obtain ⟨back, backSubperm, backAlike⟩ := otherJoins.exists_matched joins permuted.symm
    (fun value member => distinct value (permuted.mem_iff.2 member))
    fun value member => free value (permuted.mem_iff.2 member)
  have enough : more.length ≤ matched.length :=
    calc more.length = back.length := backAlike.length_eq.symm
      _ ≤ added.length := backSubperm.length_le
      _ = matched.length := alike.length_eq.symm
  exact ⟨matched, subperm.perm_of_length_le enough, alike⟩

end Joins

end LocalFirst
