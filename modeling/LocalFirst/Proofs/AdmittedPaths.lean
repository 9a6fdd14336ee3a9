import LocalFirst.Proofs.Lens

/-!
# Paths that can be created

To set a field is to walk down its path and to create what is missing on the way.  Only what is
already there can stand in the way: each document on the path has to admit the next segment, which
objects always do, arrays do up to a distance behind their end, and scalars never do.
-/

namespace LocalFirst

/-- A segment is an item number: decimal digits behind one plus sign at most, whose number fits an
unsigned 64-bit word. -/
def Path.Numbers (segment : String) (index : Nat) : Prop :=
  ∃ digits, (segment.toList = digits ∨ segment.toList = '+' :: digits) ∧ digits ≠ [] ∧
    (∀ digit ∈ digits, digit.isDigit = true) ∧ Nat.ofDigitChars 10 digits 0 = index ∧
    index < UInt64.size

/-- The segment without a plus sign in front. -/
def Path.unsigned (segment : String) : List Char :=
  match segment.toList with
  | '+' :: digits => digits
  | digits => digits

/-- Only one plus sign can stand in front of the digits, as it is none of them. -/
theorem Path.numbers_iff {segment : String} {index : Nat} : Numbers segment index ↔
    unsigned segment ≠ [] ∧ (∀ digit ∈ unsigned segment, digit.isDigit = true) ∧
      Nat.ofDigitChars 10 (unsigned segment) 0 = index ∧ index < UInt64.size := by
  unfold Numbers unsigned
  split
  next digits signed =>
    rw [signed]
    refine ⟨?_, fun numbers => ⟨digits, .inr rfl, numbers⟩⟩
    rintro ⟨others, rfl | same, numbers⟩
    · exact absurd (numbers.2.1 '+' List.mem_cons_self) (by decide)
    · obtain rfl := (List.cons.inj same).2
      exact numbers
  next notSigned =>
    refine ⟨?_, fun numbers => ⟨segment.toList, .inl rfl, numbers⟩⟩
    rintro ⟨digits, rfl | signed, numbers⟩
    · exact numbers
    · exact absurd signed (notSigned digits)

/-- The reader of item numbers reads these and nothing else. -/
theorem Path.index?_eq_some_iff {segment : String} {index : Nat} :
    index? segment = some index ↔ Numbers segment index := by
  have reads : index? segment =
      if (unsigned segment).isEmpty ∨ ¬ (unsigned segment).all Char.isDigit then none
      else if Nat.ofDigitChars 10 (unsigned segment) 0 < UInt64.size then
        some (Nat.ofDigitChars 10 (unsigned segment) 0)
      else none := rfl
  rw [numbers_iff, reads]
  split
  next unfit =>
    simp only [reduceCtorEq, false_iff]
    rintro ⟨nonempty, allDigits, _⟩
    rcases unfit with empty | notAll
    · exact nonempty (List.isEmpty_iff.1 empty)
    · exact notAll (List.all_eq_true.2 allDigits)
  next fit =>
    rw [not_or, not_not, List.isEmpty_iff, List.all_eq_true] at fit
    split
    next small =>
      rw [Option.some.injEq]
      exact ⟨fun same => ⟨fit.1, fit.2, same, same ▸ small⟩, fun numbers => numbers.2.2.1⟩
    next large =>
      simp only [reduceCtorEq, false_iff]
      rintro ⟨_, _, same, small⟩
      exact large (same ▸ small)

namespace Document

variable {node value : Document} {key : String}

/-- A slot can be written under the segment: the document is an object, or an array that has the
item or ends within ten thousand places before it. -/
def Admits : Document → String → Prop
  | .object _, _ => True
  | .array items, segment => ∃ index, Path.Numbers segment index ∧ index < items.length + 10000
  | _, _ => False

theorem exists_setChild_iff : (∃ result, node.setChild key value = .ok result) ↔
    node.Admits key := by
  simp only [setChild_eq_ok_iff, Path.index?_eq_some_iff]
  cases node with
  | object members => simp [Admits]
  | array items =>
      refine ⟨?_, ?_⟩
      · rintro ⟨_, ⟨_, ⟨⟩, _⟩ | ⟨_, index, ⟨⟩, numbers, near, _⟩⟩
        exact ⟨index, numbers, near⟩
      · rintro ⟨index, numbers, near⟩
        exact ⟨_, .inr ⟨items, index, rfl, numbers, near, rfl⟩⟩
  | _ => simp [Admits]

/-- What has a child under a segment admits it. -/
theorem admits_of_child? (present : node.child? key = some value) : node.Admits key :=
  exists_setChild_iff.1 ⟨node, setChild_of_child? present⟩

/-- The segments lead on from each document that is there. -/
def AdmitsAll (node : Document) (segments : List String) : Prop :=
  ∀ parents key rest reached, segments = parents ++ key :: rest →
    node.below? parents = some reached → reached.Admits key

/-- Only the first segment leaves the document itself. -/
theorem admitsAll_cons {rest : List String} : node.AdmitsAll (key :: rest) ↔
    node.Admits key ∧ ∀ child, node.child? key = some child → child.AdmitsAll rest := by
  constructor
  · intro admits
    refine ⟨admits [] key rest node rfl rfl, fun child found parents next behind reached split
      below => ?_⟩
    refine admits (key :: parents) next behind reached (by rw [split]; rfl) ?_
    rw [below?, found]
    exact below
  · rintro ⟨here, behind⟩ parents next last reached split below
    cases parents with
    | nil =>
        cases split
        cases below
        exact here
    | cons parent parents =>
        cases split
        obtain ⟨child, found, childBelow⟩ := Option.bind_eq_some_iff.1 below
        exact behind child found parents next last reached rfl childBelow

/-- An object without members stands in no way. -/
theorem admitsAll_emptyObject (segments : List String) : emptyObject.AdmitsAll segments := by
  cases segments with
  | nil =>
      intro parents key rest _ split
      simp at split
  | cons key rest => exact admitsAll_cons.2 ⟨trivial, fun _ found => by cases found⟩

/-- A value can be written at the end of the segments exactly when these lead on from each document
that is there. -/
theorem exists_write_iff {segments : List String} :
    (∃ result, node.write value segments = .ok result) ↔
      segments ≠ [] ∧ node.AdmitsAll segments := by
  induction segments generalizing node with
  | nil =>
      refine ⟨?_, fun both => absurd rfl both.1⟩
      rintro ⟨_, ⟨⟩⟩
  | cons key rest ih =>
      cases rest with
      | nil =>
          refine exists_setChild_iff.trans ?_
          rw [admitsAll_cons]
          refine ⟨fun admits => ⟨by simp, admits, fun child _ parents _ _ _ split => ?_⟩,
            fun both => both.2.1⟩
          simp at split
      | cons next rest =>
          -- the missing child is written into as an object without members
          have behind : (∃ updated, ((node.child? key).getD emptyObject).write value
              (next :: rest) = .ok updated) ↔
              ∀ child, node.child? key = some child → child.AdmitsAll (next :: rest) := by
            rw [ih]
            cases node.child? key with
            | none => simp [admitsAll_emptyObject]
            | some child => simp
          rw [admitsAll_cons, ← behind]
          simp only [write_cons_eq_ok_iff]
          constructor
          · rintro ⟨result, updated, updatedOk, written⟩
            exact ⟨by simp, exists_setChild_iff.1 ⟨result, written⟩, updated, updatedOk⟩
          · rintro ⟨_, admits, updated, updatedOk⟩
            obtain ⟨result, written⟩ := exists_setChild_iff.2 admits
            exact ⟨result, updated, updatedOk, written⟩

/-- Where the path ends to resolve, one document decides. -/
theorem admitsAll_of_missing {parents rest : List String} {reached : Document}
    (found : node.below? parents = some reached) (admits : reached.Admits key)
    (missing : reached.child? key = none) : node.AdmitsAll (parents ++ key :: rest) := by
  induction parents generalizing node with
  | nil =>
      cases found
      exact admitsAll_cons.2 ⟨admits, fun child present => by simp [missing] at present⟩
  | cons parent parents ih =>
      obtain ⟨child, childFound, below⟩ := Option.bind_eq_some_iff.1 found
      refine admitsAll_cons.2 ⟨admits_of_child? childFound, fun other present => ?_⟩
      obtain rfl := Option.some.inj (childFound.symm.trans present)
      exact ih below

end Document

end LocalFirst
