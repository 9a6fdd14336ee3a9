import LocalFirst.Proofs.DocumentEquality
import LocalFirst.Proofs.DocumentOrder

/-!
# Documents in another order of members

Equality of documents looks members up by their keys.  Here the same relation is described by the
shape of the documents: the same scalars, arrays item by item, and objects that have the same
values under each key, at every depth.  On documents without floats and without repeated keys this
is equality.  Unlike equality, it asks nothing of the keys for its laws, and whatever looks at
members by their keys only cannot tell such documents apart, beginning with agreement itself.
-/

namespace LocalFirst

namespace Document

/-- Equality up to the order of members, at every depth, of documents without floats.  Values that
share a key keep their order. -/
inductive Reordered : Document → Document → Prop
  | scalar {document : Document} (isScalar : document.IsScalar) (notFloat : document.NotFloat) :
      Reordered document document
  | array {items others : List Document} (lengths : items.length = others.length)
      (alike : ∀ (place : Nat) (item other : Document), items[place]? = some item →
        others[place]? = some other → Reordered item other) :
      Reordered (.array items) (.array others)
  | object {members others : List (String × Document)}
      (counts : ∀ key,
        (Members.valuesOf key members).length = (Members.valuesOf key others).length)
      (values : ∀ (key : String) (place : Nat) (left right : Document),
        (Members.valuesOf key members)[place]? = some left →
        (Members.valuesOf key others)[place]? = some right → Reordered left right) :
      Reordered (.object members) (.object others)

variable {first second left right : Document} {scalars : Document → Document → Bool}

theorem reordered_array_iff {items others : List Document} :
    Reordered (.array items) (.array others) ↔ List.Forall₂ Reordered items others := by
  rw [forall₂_iff_getElem?]
  refine ⟨fun alike => ?_, fun ⟨lengths, alike⟩ => .array lengths alike⟩
  cases alike with
  | scalar isScalar => exact absurd rfl isScalar.1
  | array lengths alike => exact ⟨lengths, alike⟩

theorem reordered_object_iff {members others : List (String × Document)} :
    Reordered (.object members) (.object others) ↔
      Members.Related (fun _ => Reordered) members others := by
  refine ⟨fun alike => ?_, fun related =>
    .object (fun key => (related key).1) fun key => (related key).2⟩
  cases alike with
  | scalar isScalar => exact absurd rfl isScalar.2
  | object counts values => exact fun key => ⟨counts key, values key⟩

/-- The shapes of documents that differ in the order of members only. -/
theorem Reordered.shape (alike : Reordered first second) :
    (first.IsScalar ∧ first.NotFloat ∧ second = first) ∨
      (∃ items others, first = .array items ∧ second = .array others ∧
        List.Forall₂ Reordered items others) ∨
      ∃ members others, first = .object members ∧ second = .object others ∧
        Members.Related (fun _ => Reordered) members others := by
  cases alike with
  | scalar isScalar notFloat => exact .inl ⟨isScalar, notFloat, rfl⟩
  | array lengths alike =>
      exact .inr (.inl ⟨_, _, rfl, rfl, forall₂_iff_getElem?.2 ⟨lengths, alike⟩⟩)
  | object counts values =>
      exact .inr (.inr ⟨_, _, rfl, rfl, fun key => ⟨counts key, values key⟩⟩)

theorem Reordered.eq_of_isScalar (alike : Reordered first second) (isScalar : first.IsScalar) :
    second = first := by
  cases alike with
  | scalar => rfl
  | array => exact absurd rfl isScalar.1
  | object => exact absurd rfl isScalar.2

theorem Reordered.kind_eq (alike : Reordered first second) : second.kind = first.kind := by
  cases alike <;> rfl

theorem Reordered.symm (alike : Reordered first second) : Reordered second first := by
  induction alike with
  | scalar isScalar notFloat => exact .scalar isScalar notFloat
  | array lengths _ ih =>
      exact .array lengths.symm fun place item other found otherFound =>
        ih place other item otherFound found
  | object counts _ ih =>
      exact .object (fun key => (counts key).symm)
        fun key place left right found otherFound => ih key place right left otherFound found

/-- Documents that agree do so in any order of members. -/
theorem Reordered.agree
    (isScalar : ∀ left right, scalars left right = true → left.IsScalar ∧ right.IsScalar)
    (alike : Reordered first second) (otherAlike : Reordered left right)
    (agrees : Document.agree scalars first left = true) :
    Document.agree scalars second right = true := by
  induction alike generalizing left right with
  | scalar firstScalar =>
      rw [agree_scalar_left firstScalar] at agrees ⊢
      rwa [otherAlike.eq_of_isScalar (isScalar _ _ agrees).2]
  | array lengths _ ih =>
      cases otherAlike with
      | scalar leftScalar =>
          rw [agree_scalar_right leftScalar] at agrees
          exact absurd rfl (isScalar _ _ agrees).1.1
      | object => exact absurd rfl (isScalar _ _ (by simpa [Document.agree] using agrees)).1.1
      | array otherLengths otherAlike =>
          rw [Document.agree, agreeItems_iff, forall₂_iff_getElem?] at agrees ⊢
          refine ⟨lengths.symm.trans (agrees.1.trans otherLengths), ?_⟩
          intro place item other found otherFound
          obtain ⟨before, beforeFound⟩ := exists_getElem?_of_length_eq lengths found
          obtain ⟨value, valueFound⟩ := exists_getElem?_of_length_eq otherLengths otherFound
          exact ih place before item beforeFound found
            (otherAlike place value other valueFound otherFound)
            (agrees.2 place before value beforeFound valueFound)
  | @object members others counts _ ih =>
      cases otherAlike with
      | scalar leftScalar =>
          rw [agree_scalar_right leftScalar] at agrees
          exact absurd rfl (isScalar _ _ agrees).1.2
      | array => exact absurd rfl (isScalar _ _ (by simpa [Document.agree] using agrees)).1.2
      | @object mine yours otherCounts otherValues =>
          have related : Members.Related (fun _ => Reordered) mine yours :=
            fun key => ⟨otherCounts key, otherValues key⟩
          have aligned : Members.Related (fun _ _ _ => True) members others :=
            fun key => ⟨counts key, fun _ _ _ _ _ => trivial⟩
          rw [Document.agree, Bool.and_eq_true, beq_iff_eq, agreeMembers_eq_true_iff] at agrees ⊢
          refine ⟨aligned.length.symm.trans (agrees.1.trans related.length),
            fun member inOthers => ?_⟩
          -- The value under this key at the same place on the left agrees with one on the right.
          obtain ⟨place, found⟩ := List.mem_iff_getElem?.1 (Members.mem_valuesOf_iff.2 inOthers)
          obtain ⟨before, beforeFound⟩ := exists_getElem?_of_length_eq (counts member.1) found
          obtain ⟨value, known, agreesWith⟩ :=
            agrees.2 _ (Members.mem_valuesOf_iff.1 (List.mem_of_getElem? beforeFound))
          rcases related.get? member.1 with ⟨missing, _⟩ | ⟨_, other, here, there, otherAlike⟩
          · cases missing.symm.trans known
          · cases here.symm.trans known
            exact ⟨other, there,
              ih member.1 place before member.2 beforeFound found otherAlike agreesWith⟩

theorem isScalar_of_equivalentScalar (equivalent : equivalentScalar left right = true) :
    left.IsScalar ∧ right.IsScalar := by
  cases left <;> cases right <;>
    simp_all [equivalentScalar, number?, sameScalar, IsScalar, kind]

/-- Equivalence does not see the order of members. -/
theorem Reordered.equivalent_eq (alike : Reordered first second)
    (otherAlike : Reordered left right) : first.equivalent left = second.equivalent right :=
  Bool.eq_iff_iff.2 ⟨alike.agree (fun _ _ => isScalar_of_equivalentScalar) otherAlike,
    alike.symm.agree (fun _ _ => isScalar_of_equivalentScalar) otherAlike.symm⟩

/-- Where no key repeats, documents that differ in the order of members only are equal. -/
theorem Reordered.same (alike : Reordered first second) (distinct : first.KeysDistinct) :
    first.same second = true := by
  unfold Document.same
  induction alike with
  | @scalar document isScalar notFloat =>
      rw [agree_scalar_left isScalar]
      cases document <;> simp_all [sameScalar, IsScalar, NotFloat, kind]
  | array lengths _ ih =>
      rw [Document.agree, agreeItems_iff, forall₂_iff_getElem?]
      refine ⟨lengths, fun place item other found otherFound => ?_⟩
      exact ih place item other found otherFound
        (keysDistinct_array.1 distinct item (List.mem_of_getElem? found))
  | @object members others counts _ ih =>
      obtain ⟨nodup, valuesDistinct⟩ := keysDistinct_object.1 distinct
      have related : Members.Related (fun _ value other => value.KeysDistinct →
          Document.agree sameScalar value other = true) members others :=
        fun key => ⟨counts key, ih key⟩
      rw [Document.agree, Bool.and_eq_true, beq_iff_eq, agreeMembers_eq_true_iff]
      refine ⟨related.length, fun member inMembers => ?_⟩
      have known := Members.get?_of_mem nodup inMembers
      rcases related.get? member.1 with ⟨missing, _⟩ | ⟨_, other, here, there, agrees⟩
      · cases missing.symm.trans known
      · cases here.symm.trans known
        exact ⟨other, there, agrees (valuesDistinct member inMembers)⟩

/-- Without floats, equality is equality up to the order of members. -/
theorem reordered_of_same (distinct : first.KeysDistinct) (free : first.FloatFree)
    (same : first.same second = true) : Reordered first second := by
  unfold Document.same at same
  induction first using Document.induction generalizing second with
  | scalar document isScalar =>
      rw [agree_scalar_left isScalar] at same
      have sameDocument : second = document := by
        have notFloat := free.kind_ne
        cases document <;> cases second <;> simp_all [sameScalar, kind]
      rw [sameDocument]
      exact .scalar isScalar free.kind_ne
  | array items ih =>
      obtain ⟨others, rfl, alike⟩ :=
        (agree_array_left scalarRule_sameScalar.toSymmetricRule).1 same
      obtain ⟨lengths, agree⟩ := forall₂_iff_getElem?.1 alike
      refine .array lengths fun place item other found otherFound => ?_
      have member := List.mem_of_getElem? found
      exact ih item member (keysDistinct_array.1 distinct item member)
        (floatFree_array.1 free item member) (agree place item other found otherFound)
  | object members ih =>
      obtain ⟨others, rfl, lengths, agree⟩ :=
        (agree_object_left scalarRule_sameScalar.toSymmetricRule).1 same
      obtain ⟨nodup, valuesDistinct⟩ := keysDistinct_object.1 distinct
      have permuted := keys_perm nodup lengths fun key inKeys => by
        obtain ⟨member, inMembers, rfl⟩ := List.mem_map.1 inKeys
        obtain ⟨value, found, _⟩ := agree member inMembers
        exact List.mem_map.2 ⟨_, Members.mem_of_get? found, rfl⟩
      refine .object (fun key => ?_) fun key place left right found otherFound => ?_
      · rw [← Members.count_keys, ← Members.count_keys, permuted.count_eq]
      · have inMembers := Members.mem_valuesOf_iff.1 (List.mem_of_getElem? found)
        have inOthers := Members.mem_valuesOf_iff.1 (List.mem_of_getElem? otherFound)
        obtain ⟨value, known, agrees⟩ := agree _ inMembers
        rw [Members.get?_of_mem (permuted.nodup nodup) inOthers, Option.some.injEq] at known
        exact ih _ inMembers (valuesDistinct _ inMembers) (floatFree_object.1 free _ inMembers)
          (known ▸ agrees)

end Document

end LocalFirst
