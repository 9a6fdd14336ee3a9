import LocalFirst.Document.Agreement
import LocalFirst.Document.Path
import LocalFirst.Proofs.MemberLists

/-!
# Documents up to the order of members

Two ways to the same document may list the members of an object in different orders.  Here two
documents are compared up to this order, in the objects at given places only: everywhere else they
are equal to the letter.  Such documents cannot be told apart by the equality of documents, and a
change to a slot keeps them alike.
-/

namespace LocalFirst

namespace Members

variable {α : Type}

/-- The values of all members with a key, in order. -/
def valuesOf (key : String) (members : List (String × α)) : List α :=
  (members.filter fun member => member.1 = key).map Prod.snd

theorem mem_valuesOf_iff {key : String} {value : α} {members : List (String × α)} :
    value ∈ valuesOf key members ↔ (key, value) ∈ members := by
  simp [valuesOf]

theorem valuesOf_cons (key : String) (member : String × α) (members : List (String × α)) :
    valuesOf key (member :: members) =
      if member.1 = key then member.2 :: valuesOf key members else valuesOf key members := by
  by_cases same : member.1 = key <;> simp [valuesOf, same]

theorem getElem?_valuesOf_zero (key : String) (members : List (String × α)) :
    (valuesOf key members)[0]? = get? key members := by
  induction members with
  | nil => rfl
  | cons member rest ih =>
      rw [valuesOf_cons]
      by_cases same : member.1 = key
      · simp [same, get?]
      · simpa [same, get?] using ih

theorem valuesOf_put (key other : String) (value : α) (members : List (String × α)) :
    valuesOf other (put key value members) =
      if other = key then value :: (valuesOf key members).tail else valuesOf other members := by
  induction members with
  | nil => by_cases same : other = key <;> simp [put, valuesOf, same, eq_comm]
  | cons member rest ih =>
      by_cases here : member.1 = key
      · by_cases same : other = key
        · subst same
          simp [put, here, valuesOf_cons]
        · have differ : ¬ key = other := Ne.symm same
          simp [put, here, valuesOf_cons, same, differ]
      · rw [put, if_neg here, valuesOf_cons, ih]
        by_cases same : other = key
        · subst same
          simp [here, valuesOf_cons]
        · simp [same, valuesOf_cons]

theorem valuesOf_erase (key other : String) (members : List (String × α)) :
    valuesOf other (erase key members) =
      if other = key then (valuesOf key members).tail else valuesOf other members := by
  induction members with
  | nil => simp [erase, valuesOf]
  | cons member rest ih =>
      by_cases here : member.1 = key
      · by_cases same : other = key
        · subst same
          simp [erase, here, valuesOf_cons]
        · have differ : ¬ key = other := Ne.symm same
          simp [erase, here, valuesOf_cons, same, differ]
      · rw [erase, if_neg here, valuesOf_cons, ih]
        by_cases same : other = key
        · subst same
          simp [here, valuesOf_cons]
        · simp [same, valuesOf_cons]

theorem count_keys (key : String) (members : List (String × α)) :
    (keys members).count key = (valuesOf key members).length := by
  induction members with
  | nil => rfl
  | cons member rest ih =>
      rw [keys_cons, valuesOf_cons]
      by_cases same : member.1 = key <;> simp [same, ih]

/-- Under each key, the members have as many values as the others, and these are related one by
one. -/
def Related (related : String → α → α → Prop) (members others : List (String × α)) : Prop :=
  ∀ key, (valuesOf key members).length = (valuesOf key others).length ∧
    ∀ (place : Nat) (left right : α), (valuesOf key members)[place]? = some left →
      (valuesOf key others)[place]? = some right → related key left right

variable {related : String → α → α → Prop} {members others : List (String × α)}

theorem Related.of_valuesOf (refl : ∀ key value, related key value value)
    (same : ∀ key, valuesOf key members = valuesOf key others) :
    Related related members others := by
  intro key
  rw [same key]
  refine ⟨rfl, fun place left right found otherFound => ?_⟩
  cases found.symm.trans otherFound
  exact refl key left

theorem Related.length (alike : Related related members others) :
    members.length = others.length := by
  have permuted : (keys members).Perm (keys others) := by
    rw [List.perm_iff_count]
    intro key
    rw [count_keys, count_keys]
    exact (alike key).1
  simpa [keys] using permuted.length_eq

/-- The values that are looked up are related. -/
theorem Related.get? (alike : Related related members others) (key : String) :
    (get? key members = none ∧ get? key others = none) ∨
      ∃ left right, get? key members = some left ∧ get? key others = some right ∧
        related key left right := by
  obtain ⟨lengths, values⟩ := alike key
  rw [← getElem?_valuesOf_zero, ← getElem?_valuesOf_zero]
  cases found : (valuesOf key members)[0]? with
  | none =>
      left
      rw [List.getElem?_eq_none_iff] at found ⊢
      exact ⟨rfl, by omega⟩
  | some left =>
      right
      have within : 0 < (valuesOf key others).length := by
        rw [← lengths]
        exact (List.getElem?_eq_some_iff.1 found).1
      exact ⟨left, _, rfl, List.getElem?_eq_getElem within,
        values 0 _ _ found (List.getElem?_eq_getElem within)⟩

theorem Related.put (alike : Related related members others) {key : String} {value second : α}
    (valuesRelated : related key value second) :
    Related related (put key value members) (Members.put key second others) := by
  intro other
  rw [valuesOf_put, valuesOf_put]
  by_cases same : other = key
  · subst same
    obtain ⟨lengths, values⟩ := alike other
    rw [if_pos rfl, if_pos rfl]
    refine ⟨by simp [lengths], fun place left right found otherFound => ?_⟩
    cases place with
    | zero =>
        cases found
        cases otherFound
        exact valuesRelated
    | succ place =>
        rw [List.getElem?_cons_succ, List.getElem?_tail] at found otherFound
        exact values _ _ _ found otherFound
  · rw [if_neg same, if_neg same]
    exact alike other

theorem Related.erase (alike : Related related members others) (key : String) :
    Related related (erase key members) (Members.erase key others) := by
  intro other
  rw [valuesOf_erase, valuesOf_erase]
  by_cases same : other = key
  · subst same
    obtain ⟨lengths, values⟩ := alike other
    rw [if_pos rfl, if_pos rfl]
    refine ⟨by simp [lengths], fun place left right found otherFound => ?_⟩
    rw [List.getElem?_tail] at found otherFound
    exact values _ _ _ found otherFound
  · rw [if_neg same, if_neg same]
    exact alike other

end Members

namespace Document

/-- Equality up to the order of members in the objects at the places that are free.  Values that
share a key keep their order. -/
inductive Rearranged : (List String → Prop) → Document → Document → Prop
  | refl {free : List String → Prop} (document : Document) : Rearranged free document document
  | object {free : List String → Prop} {members others : List (String × Document)}
      (isFree : free [])
      (counts : ∀ key,
        (Members.valuesOf key members).length = (Members.valuesOf key others).length)
      (values : ∀ (key : String) (place : Nat) (left right : Document),
        (Members.valuesOf key members)[place]? = some left →
        (Members.valuesOf key others)[place]? = some right →
        Rearranged (fun places => free (key :: places)) left right) :
      Rearranged free (.object members) (.object others)

/-- The free places behind a segment. -/
def freeBehind (free : List String → Prop) (key : String) (place : List String) : Prop :=
  free (key :: place)

namespace Rearranged

variable {free : List String → Prop} {first second third : Document}

theorem of_related {members others : List (String × Document)} (isFree : free [])
    (alike : Members.Related (fun key => Rearranged (freeBehind free key)) members others) :
    Rearranged free (.object members) (.object others) :=
  .object isFree (fun key => (alike key).1) fun key => (alike key).2

/-- Documents that are equal up to the order of members are equal, or are objects with members that
are. -/
theorem cases_object (alike : Rearranged free first second) :
    first = second ∨ ∃ members others, first = .object members ∧ second = .object others ∧
      free [] ∧ Members.Related (fun key => Rearranged (freeBehind free key)) members others := by
  cases alike with
  | refl => exact .inl rfl
  | object isFree counts values =>
      exact .inr ⟨_, _, rfl, rfl, isFree, fun key => ⟨counts key, values key⟩⟩

theorem eq_of_not_free (alike : Rearranged free first second) (notFree : ¬ free []) :
    first = second := by
  rcases alike.cases_object with same | ⟨_, _, _, _, isFree, _⟩
  · exact same
  · exact absurd isFree notFree

theorem symm (alike : Rearranged free first second) : Rearranged free second first := by
  induction alike with
  | refl document => exact .refl document
  | object isFree counts values ih =>
      exact .object isFree (fun key => (counts key).symm)
        fun key place left right found otherFound => ih key place right left otherFound found

theorem trans (alike : Rearranged free first second) (goesOn : Rearranged free second third) :
    Rearranged free first third := by
  induction alike generalizing third with
  | refl => exact goesOn
  | @object free members others isFree counts values ih =>
      rcases goesOn.cases_object with rfl | ⟨_, lasts, ⟨⟩, rfl, _, related⟩
      · exact .object isFree counts values
      · refine .object isFree (fun key => (counts key).trans (related key).1) ?_
        intro key place left right found lastFound
        have within : place < (Members.valuesOf key others).length := by
          rw [← counts key]
          exact (List.getElem?_eq_some_iff.1 found).1
        have between := List.getElem?_eq_getElem within
        exact ih key place left _ found between ((related key).2 place _ right between lastFound)

theorem kind_eq (alike : Rearranged free first second) : second.kind = first.kind := by
  cases alike <;> rfl

/-- What a segment names is equal up to the order of members behind it. -/
theorem child? (alike : Rearranged free first second) (key : String) :
    (first.child? key = none ∧ second.child? key = none) ∨
      ∃ left right, first.child? key = some left ∧ second.child? key = some right ∧
        Rearranged (freeBehind free key) left right := by
  rcases alike.cases_object with rfl | ⟨members, others, rfl, rfl, _, related⟩
  · cases found : first.child? key with
    | none => exact .inl ⟨rfl, rfl⟩
    | some child => exact .inr ⟨child, child, rfl, rfl, .refl child⟩
  · exact related.get? key

/-- At a place that is not free, nothing is rearranged. -/
theorem below?_eq {segments : List String} (alike : Rearranged free first second)
    (closed : ∀ place more, free (place ++ more) → free place) (notFree : ¬ free segments) :
    first.below? segments = second.below? segments := by
  induction segments generalizing free first second with
  | nil => rw [alike.eq_of_not_free notFree]
  | cons key rest ih =>
      rw [below?, below?]
      rcases alike.child? key with ⟨missing, otherMissing⟩ | ⟨_, _, there, otherThere, behind⟩
      · rw [missing, otherMissing]
      · rw [there, otherThere]
        exact ih behind (fun place => closed (key :: place)) notFree

end Rearranged

theorem agreeMembers_eq_true_iff {scalars : Document → Document → Bool}
    {members others : List (String × Document)} :
    agreeMembers scalars members others = true ↔ ∀ member ∈ members, ∃ other,
      Members.get? member.1 others = some other ∧ agree scalars member.2 other = true := by
  induction members with
  | nil => simp [agreeMembers]
  | cons member rest ih =>
      obtain ⟨key, value⟩ := member
      rw [agreeMembers, Bool.and_eq_true, ih, List.forall_mem_cons]
      cases Members.get? key others <;> simp

theorem Rearranged.same_of_same {free : List String → Prop} {first second other : Document}
    (alike : Rearranged free first second) (same : other.same first = true) :
    other.same second = true := by
  induction alike generalizing other with
  | refl => exact same
  | @object free members others isFree counts values ih =>
      cases other with
      | object mine =>
          unfold Document.same at same ⊢
          rw [agree, Bool.and_eq_true, beq_iff_eq, agreeMembers_eq_true_iff] at same ⊢
          have related : Members.Related
              (fun _ left right => ∀ other : Document, other.same left = true →
                other.same right = true) members others :=
            fun key => ⟨counts key, fun place left right found otherFound other =>
              ih key place left right found otherFound⟩
          refine ⟨same.1.trans related.length, fun member mineMember => ?_⟩
          obtain ⟨left, found, agrees⟩ := same.2 member mineMember
          rcases related.get? member.1 with ⟨none, _⟩ | ⟨left, right, leftFound, rightFound, keeps⟩
          · cases none.symm.trans found
          · cases leftFound.symm.trans found
            exact ⟨right, rightFound, keeps member.2 agrees⟩
      | _ => simp [Document.same, agree, sameScalar] at same

/-- The equality of documents does not tell documents apart that are equal up to the order of
members. -/
theorem Rearranged.same_eq {free : List String → Prop} {first second : Document}
    (alike : Rearranged free first second) (other : Document) :
    other.same first = other.same second := by
  rw [Bool.eq_iff_iff]
  exact ⟨alike.same_of_same, alike.symm.same_of_same⟩

end Document

end LocalFirst
