import LocalFirst.Proofs.Everywhere
import LocalFirst.Proofs.MemberOrder
import Mathlib.Data.List.Perm.Subperm

/-!
# Laws of equality for documents

Equality of documents looks up the members on the left among those on the right.  It is transitive
as it stands, symmetric where no key repeats, and reflexive where no float is not-a-number either.
-/

namespace LocalFirst

section Forall₂

variable {α : Type} {related : α → α → Prop} {items others lasts : List α}

theorem forall₂_symm (symm : ∀ item ∈ items, ∀ other, related item other → related other item)
    (alike : List.Forall₂ related items others) : List.Forall₂ related others items := by
  induction alike with
  | nil => exact .nil
  | cons first _ ih =>
      obtain ⟨firstSymm, restSymm⟩ := List.forall_mem_cons.1 symm
      exact .cons (firstSymm _ first) (ih restSymm)

theorem forall₂_trans
    (trans : ∀ item ∈ items, ∀ other last, related item other → related other last →
      related item last)
    (alike : List.Forall₂ related items others) (following : List.Forall₂ related others lasts) :
    List.Forall₂ related items lasts := by
  induction alike generalizing lasts with
  | nil =>
      cases following
      exact .nil
  | cons first _ ih =>
      obtain ⟨firstTrans, restTrans⟩ := List.forall_mem_cons.1 trans
      cases following with
      | cons follows rest => exact .cons (firstTrans _ _ first follows) (ih restTrans rest)

/-- Parts of equal length can be compared one by one. -/
theorem forall₂_append_iff {moreItems moreOthers : List α}
    (lengths : items.length = others.length) :
    List.Forall₂ related (items ++ moreItems) (others ++ moreOthers) ↔
      List.Forall₂ related items others ∧ List.Forall₂ related moreItems moreOthers := by
  induction items generalizing others with
  | nil =>
      obtain rfl := List.length_eq_zero_iff.1 lengths.symm
      simp
  | cons item rest ih =>
      obtain ⟨other, restOthers, rfl⟩ := List.exists_cons_of_length_eq_add_one lengths.symm
      simp only [List.cons_append, List.forall₂_cons,
        ih (Nat.succ.inj (by simpa using lengths)), and_assoc]

theorem forall₂_iff_getElem? :
    List.Forall₂ related items others ↔ items.length = others.length ∧
      ∀ (place : Nat) (item other : α), items[place]? = some item → others[place]? = some other →
        related item other := by
  simp only [List.forall₂_iff_get, List.getElem?_eq_some_iff, List.get_eq_getElem]
  refine and_congr_right fun _ => ⟨?_, fun alike place within otherWithin =>
    alike place _ _ ⟨within, rfl⟩ ⟨otherWithin, rfl⟩⟩
  rintro alike place _ _ ⟨within, rfl⟩ ⟨otherWithin, rfl⟩
  exact alike place within otherWithin

/-- In a list of the same length, there is an item at the same place. -/
theorem exists_getElem?_of_length_eq {place : Nat} {other : α}
    (lengths : items.length = others.length) (found : others[place]? = some other) :
    ∃ item, items[place]? = some item := by
  have within := (List.getElem?_eq_some_iff.1 found).1
  exact ⟨_, List.getElem?_eq_getElem (lengths ▸ within)⟩

end Forall₂

namespace Number

open Float.Model (UnpackedFloat)

/-- What a number denotes, by sign, mantissa and exponent: one zero for both signs, and nothing for
not-a-number. -/
def denotes? : UnpackedFloat → Option (Option UnpackedFloat.Sign × Option (Nat × Int))
  | .notANumber => none
  | .zero _ => some (none, none)
  | .infinity sign => some (some sign, none)
  | .finite sign mantissa exponent _ => some (some sign, some (mantissa, exponent))

theorem isNaN_eq_false_iff (value : UnpackedFloat) :
    value.isNaN = false ↔ (denotes? value).isSome = true := by
  cases value with
  | notANumber =>
      exact ⟨fun isNumber => absurd isNumber.symm Bool.false_ne_true,
        fun isNumber => absurd isNumber Bool.false_ne_true⟩
  | _ => exact ⟨fun _ => rfl, fun _ => rfl⟩

theorem unpacked_beq_iff (left right : UnpackedFloat) :
    left.beq right = true ↔
      (denotes? left).isSome = true ∧ denotes? left = denotes? right := by
  have ordered : ∀ (sign : UnpackedFloat.Sign) (mantissa other : Nat) (exponent second : Int)
      (order : Ordering), (order = .eq ↔ exponent = second ∧ mantissa = other) →
        ((some order == some .eq) = true ↔ true = true ∧
          some (some sign, some (mantissa, exponent)) = some (some sign, some (other, second))) := by
    intro sign mantissa other exponent second order same
    simp [same, and_comm]
  -- Only two finite numbers of one sign are compared any further, by exponent and then mantissa.
  rcases left with sign | _ | sign | ⟨sign, mantissa, exponent, positive⟩ <;>
    rcases right with other | _ | other | ⟨other, otherMantissa, otherExponent, otherPositive⟩ <;>
    (try cases sign) <;> (try cases other) <;>
    first
      | exact ⟨fun _ => ⟨rfl, rfl⟩, fun _ => rfl⟩
      | exact ⟨fun equal => absurd equal Bool.false_ne_true,
          fun equal => absurd equal.1 Bool.false_ne_true⟩
      | exact ⟨fun equal => absurd equal Bool.false_ne_true, fun equal => by cases equal.2⟩
      | exact ordered _ _ _ _ _ _ (by simp [Ordering.then_eq_eq])

/-- Floats are equal when they are numbers that denote the same. -/
theorem float_beq_iff (left right : Float) :
    (left == right) = true ↔ left.isNaN = false ∧
      denotes? left.toModel.unpack = denotes? right.toModel.unpack := by
  have number : left.isNaN = false ↔ (denotes? left.toModel.unpack).isSome = true :=
    isNaN_eq_false_iff left.toModel.unpack
  rw [number]
  exact unpacked_beq_iff left.toModel.unpack right.toModel.unpack

theorem float_beq_symm {left right : Float} (equal : (left == right) = true) :
    (right == left) = true := by
  obtain ⟨number, same⟩ := (unpacked_beq_iff left.toModel.unpack right.toModel.unpack).1 equal
  exact (unpacked_beq_iff right.toModel.unpack left.toModel.unpack).2 ⟨same ▸ number, same.symm⟩

/-- Equal floats do not lie below each other. -/
theorem not_lt_of_beq {left right : Float} (equal : (left == right) = true) : ¬ left < right := by
  intro below
  have compared : left.toModel.unpack.compare right.toModel.unpack = some .eq :=
    beq_iff_eq.1 (show (_ == _) = true from equal)
  have lower : left.toModel.unpack.compare right.toModel.unpack = some .lt :=
    beq_iff_eq.1 (of_decide_eq_true below)
  cases compared.symm.trans lower

/-- Unless both are integers, numbers compare equal when neither is a number or when their values as
floats are equal. -/
theorem compare_eq_eq_iff {left right : Number}
    (floats : ∀ first second, left = .int first → right ≠ .int second) :
    left.compare right = .eq ↔ (left.toFloat.isNaN = true ∧ right.toFloat.isNaN = true) ∨
      (left.toFloat == right.toFloat) = true := by
  have compared : left.compare right =
      if left.toFloat.isNaN then (if right.toFloat.isNaN then .eq else .lt)
      else if right.toFloat.isNaN then .gt
      else if left.toFloat < right.toFloat then .lt
      else if left.toFloat == right.toFloat then .eq else .gt := by
    cases left <;> cases right
    case int.int first second => exact absurd rfl (floats first second rfl)
    all_goals
      simp only [compare]
      split <;> simp only [*, if_true, if_false, Bool.false_eq_true]
  have numbers : (left.toFloat == right.toFloat) = true →
      left.toFloat.isNaN = false ∧ right.toFloat.isNaN = false := fun equal =>
    ⟨((float_beq_iff _ _).1 equal).1, ((float_beq_iff _ _).1 (float_beq_symm equal)).1⟩
  rw [compared]
  cases leftNaN : left.toFloat.isNaN <;> cases rightNaN : right.toFloat.isNaN
  case true.true => simp
  case true.false => simpa using fun equal => leftNaN.symm.trans (numbers equal).1
  case false.true => simpa using fun equal => rightNaN.symm.trans (numbers equal).2
  case false.false =>
    by_cases equal : (left.toFloat == right.toFloat) = true
    · simp [equal, not_lt_of_beq equal]
    · simp [equal, ite_eq_iff]

theorem compare_self (number : Number) : number.compare number = .eq := by
  cases number with
  | int value => exact (Std.ReflCmp.compare_self : Ord.compare value.toInt value.toInt = .eq)
  | float value =>
      refine (compare_eq_eq_iff (by simp)).2 ?_
      cases number : value.isNaN with
      | true => exact .inl ⟨number, number⟩
      | false => exact .inr ((float_beq_iff value value).2 ⟨number, rfl⟩)

theorem compare_eq_symm {left right : Number} (equal : left.compare right = .eq) :
    right.compare left = .eq := by
  by_cases floats : ∀ first second, left = .int first → right ≠ .int second
  · rw [compare_eq_eq_iff floats] at equal
    rw [compare_eq_eq_iff fun first second isInt other => floats second first other isInt]
    exact equal.imp And.symm float_beq_symm
  · simp only [not_forall, not_not] at floats
    obtain ⟨first, second, rfl, rfl⟩ := floats
    have sameValue : first.toInt = second.toInt := Std.LawfulEqOrd.eq_of_compare equal
    obtain rfl := Int64.toInt_inj.1 sameValue
    exact compare_self (.int first)

end Number

namespace Document

/-- A rule for scalars that is symmetric. -/
structure SymmetricRule (scalars : Document → Document → Bool) : Prop where
  isScalar : ∀ left right, scalars left right = true → left.IsScalar ∧ right.IsScalar
  symm : ∀ left right, scalars left right = true → scalars right left = true

/-- A rule for scalars that is symmetric and transitive. -/
structure ScalarRule (scalars : Document → Document → Bool) : Prop extends
    SymmetricRule scalars where
  trans : ∀ first second third, scalars first second = true → scalars second third = true →
    scalars first third = true

theorem scalarRule_sameScalar : ScalarRule sameScalar where
  isScalar left right same := by
    cases left <;> cases right <;> simp [sameScalar, IsScalar, kind] at same ⊢
  symm left right same := by
    cases left <;> cases right <;> simp only [sameScalar, Bool.false_eq_true] at same ⊢
    case bool | int | string => exact beq_iff_eq.2 (beq_iff_eq.1 same).symm
    case float => exact Number.float_beq_symm same
  trans first second third same following := by
    cases first <;> cases second <;> simp only [sameScalar, Bool.false_eq_true] at same <;>
      cases third <;> simp only [sameScalar, Bool.false_eq_true] at following ⊢
    case bool | int | string =>
      exact beq_iff_eq.2 ((beq_iff_eq.1 same).trans (beq_iff_eq.1 following))
    case float =>
      rw [Number.float_beq_iff] at same following ⊢
      exact ⟨same.1, same.2.trans following.2⟩

variable {scalars : Document → Document → Bool} {document other : Document}

theorem agree_scalar_left (scalar : document.IsScalar) :
    agree scalars document other = scalars document other := by
  cases document with
  | array => exact absurd rfl scalar.1
  | object => exact absurd rfl scalar.2
  | _ => simp [agree]

theorem agree_scalar_right (scalar : other.IsScalar) :
    agree scalars document other = scalars document other := by
  cases other with
  | array => exact absurd rfl scalar.1
  | object => exact absurd rfl scalar.2
  | _ => cases document <;> simp [agree]

theorem agreeItems_iff {items others : List Document} :
    agreeItems scalars items others = true ↔
      List.Forall₂ (fun item other => agree scalars item other = true) items others := by
  induction items generalizing others with
  | nil => cases others <;> simp [agreeItems]
  | cons item rest ih => cases others <;> simp [agreeItems, ih]

theorem agree_array_left (rule : SymmetricRule scalars) {items : List Document} :
    agree scalars (.array items) other = true ↔ ∃ others, other = .array others ∧
      List.Forall₂ (fun item other => agree scalars item other = true) items others := by
  cases other with
  | array others => simp [agree, agreeItems_iff]
  | _ =>
      simp only [agree, reduceCtorEq, false_and, exists_false, iff_false]
      exact fun agrees => (rule.isScalar _ _ agrees).1.1 rfl

theorem agree_object_left (rule : SymmetricRule scalars) {members : List (String × Document)} :
    agree scalars (.object members) other = true ↔ ∃ others, other = .object others ∧
      members.length = others.length ∧ ∀ member ∈ members, ∃ value,
        Members.get? member.1 others = some value ∧ agree scalars member.2 value = true := by
  cases other with
  | object others => simp [agree, agreeMembers_eq_true_iff]
  | _ =>
      simp only [agree, reduceCtorEq, false_and, exists_false, iff_false]
      exact fun agrees => (rule.isScalar _ _ agrees).1.2 rfl

/-- As many members, with all keys among distinct ones, have the same keys. -/
theorem keys_perm {members others : List (String × Document)}
    (nodup : (Members.keys members).Nodup) (lengths : members.length = others.length)
    (within : ∀ key ∈ Members.keys members, key ∈ Members.keys others) :
    (Members.keys members).Perm (Members.keys others) :=
  (List.subperm_of_subset nodup within).perm_of_length_le (by simp [Members.keys, lengths])

/-- Agreement can be turned around where no key repeats on the left. -/
theorem agree_symm (rule : SymmetricRule scalars) (distinct : document.KeysDistinct)
    (agrees : agree scalars document other = true) : agree scalars other document = true := by
  induction document using Document.induction generalizing other with
  | scalar document scalar =>
      rw [agree_scalar_left scalar] at agrees
      rw [agree_scalar_right scalar]
      exact rule.symm _ _ agrees
  | array items ih =>
      obtain ⟨others, rfl, itemsAgree⟩ := (agree_array_left rule).1 agrees
      rw [keysDistinct_array] at distinct
      exact (agree_array_left rule).2 ⟨items, rfl, forall₂_symm
        (fun item member _ => ih item member (distinct item member)) itemsAgree⟩
  | object members ih =>
      obtain ⟨others, rfl, lengths, valuesAgree⟩ := (agree_object_left rule).1 agrees
      obtain ⟨nodup, valuesDistinct⟩ := keysDistinct_object.1 distinct
      have permuted : (Members.keys members).Perm (Members.keys others) := by
        refine keys_perm nodup lengths fun key inKeys => ?_
        obtain ⟨member, inMembers, rfl⟩ := List.mem_map.1 inKeys
        obtain ⟨value, found, _⟩ := valuesAgree member inMembers
        exact List.mem_map.2 ⟨_, Members.mem_of_get? found, rfl⟩
      -- A pair on the right is looked up by its key, and this key is one on the left.
      refine (agree_object_left rule).2 ⟨members, rfl, lengths.symm, fun pair inOthers => ?_⟩
      obtain ⟨member, inMembers, sameKey⟩ :=
        List.mem_map.1 (permuted.symm.subset (List.mem_map_of_mem inOthers))
      obtain ⟨value, found, agreesWith⟩ := valuesAgree member inMembers
      have known : Members.get? pair.1 others = some pair.2 :=
        Members.get?_of_mem (permuted.nodup nodup) inOthers
      rw [sameKey, known] at found
      obtain rfl := Option.some.inj found
      exact ⟨member.2, sameKey ▸ Members.get?_of_mem nodup inMembers,
        ih member inMembers (valuesDistinct member inMembers) agreesWith⟩

/-- Agreement passes from one document to the next, whatever the keys. -/
theorem agree_trans (rule : ScalarRule scalars) {last : Document}
    (first : agree scalars document other = true) (second : agree scalars other last = true) :
    agree scalars document last = true := by
  induction document using Document.induction generalizing other last with
  | scalar document scalar =>
      rw [agree_scalar_left scalar] at first ⊢
      rw [agree_scalar_left (rule.isScalar _ _ first).2] at second
      exact rule.trans _ _ _ first second
  | array items ih =>
      obtain ⟨others, rfl, itemsAgree⟩ := (agree_array_left rule.toSymmetricRule).1 first
      obtain ⟨lasts, rfl, itemsFollow⟩ := (agree_array_left rule.toSymmetricRule).1 second
      exact (agree_array_left rule.toSymmetricRule).2 ⟨lasts, rfl, forall₂_trans
        (fun item member _ _ => ih item member) itemsAgree itemsFollow⟩
  | object members ih =>
      obtain ⟨others, rfl, lengths, agrees⟩ := (agree_object_left rule.toSymmetricRule).1 first
      obtain ⟨lasts, rfl, lastLengths, follow⟩ := (agree_object_left rule.toSymmetricRule).1 second
      refine (agree_object_left rule.toSymmetricRule).2 ⟨lasts, rfl, lengths.trans lastLengths,
        fun member inMembers => ?_⟩
      obtain ⟨value, found, valueAgrees⟩ := agrees member inMembers
      obtain ⟨lastValue, lastFound, valueFollows⟩ := follow _ (Members.mem_of_get? found)
      exact ⟨lastValue, lastFound, ih member inMembers valueAgrees valueFollows⟩

/-- A document agrees with itself where no key repeats and each scalar agrees with itself. -/
theorem agree_refl (rule : SymmetricRule scalars) (distinct : document.KeysDistinct)
    (reflexive : document.Everywhere fun scalar => scalar.IsScalar → scalars scalar scalar = true) :
    agree scalars document document = true := by
  induction document using Document.induction with
  | scalar document scalar =>
      rw [agree_scalar_left scalar]
      exact (everywhere_of_isScalar scalar).1 reflexive scalar
  | array items ih =>
      refine (agree_array_left rule).2 ⟨items, rfl, List.forall₂_same.2 fun item member => ?_⟩
      exact ih item member (keysDistinct_array.1 distinct item member)
        ((everywhere_array.1 reflexive).2 item member)
  | object members ih =>
      obtain ⟨nodup, valuesDistinct⟩ := keysDistinct_object.1 distinct
      refine (agree_object_left rule).2 ⟨members, rfl, rfl, fun member inMembers => ?_⟩
      exact ⟨member.2, Members.get?_of_mem nodup inMembers, ih member inMembers
        (valuesDistinct member inMembers) ((everywhere_object.1 reflexive).2 member inMembers)⟩

theorem kind_eq_of_same (same : document.same other = true) : document.kind = other.kind := by
  cases document <;> cases other <;> simp_all [Document.same, agree, sameScalar, kind]

theorem same_symm (distinct : document.KeysDistinct) (same : document.same other = true) :
    other.same document = true :=
  agree_symm scalarRule_sameScalar.toSymmetricRule distinct same

theorem same_trans {last : Document} (first : document.same other = true)
    (second : other.same last = true) : document.same last = true :=
  agree_trans scalarRule_sameScalar first second

/-- Where no key repeats and no float is not-a-number, a document equals itself. -/
theorem same_refl (distinct : document.KeysDistinct) (numbers : document.Everywhere NotNaN) :
    document.same document = true := by
  refine agree_refl scalarRule_sameScalar.toSymmetricRule distinct
    (numbers.imp fun scalar number isScalar => ?_)
  cases scalar with
  | float value => exact (Number.float_beq_iff value value).2 ⟨number, rfl⟩
  | array => exact absurd rfl isScalar.1
  | object => exact absurd rfl isScalar.2
  | _ => simp [sameScalar]

end Document

end LocalFirst
