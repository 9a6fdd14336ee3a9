import LocalFirst.Proofs.MemberLists
import LocalFirst.Update.Apply

/-!
# Slots

A segment names one slot of a document: a member of an object or an item of an
array.  An edit looks at one slot and at the kind of the document that holds it,
decides what becomes of the slot, and leaves all other slots alone.  What holds of
changes to slots therefore holds of every edit, whatever its operator.
-/

namespace LocalFirst

/-- Two segments meet when they may name the same slot: they are the same text, or read as the
same array index. -/
def Path.Meets (segment other : String) : Prop :=
  segment = other ∨ ((index? segment).isSome = true ∧ index? segment = index? other)

instance (segment other : String) : Decidable (Path.Meets segment other) :=
  inferInstanceAs (Decidable (_ ∨ _))

theorem Path.Meets.symm {segment other : String} (meets : Meets segment other) :
    Meets other segment := by
  rcases meets with rfl | ⟨reads, same⟩
  · exact .inl rfl
  · exact .inr ⟨same ▸ reads, same.symm⟩

namespace Document

variable {node result value : Document} {key other : String}

theorem length_writeItem (items : List Document) (index : Nat) (value : Document) :
    (writeItem items index value).length = max items.length (index + 1) := by
  rw [writeItem, List.length_set, List.length_append, List.length_replicate]
  omega

theorem getElem?_writeItem_self (items : List Document) (index : Nat) (value : Document) :
    (writeItem items index value)[index]? = some value := by
  have long := length_writeItem items index value
  rw [writeItem, List.length_set] at long
  rw [writeItem, List.getElem?_set_self (by omega)]

theorem getElem?_writeItem_of_ne {items : List Document} {index place : Nat} (value : Document)
    (differ : index ≠ place) (within : place < items.length) :
    (writeItem items index value)[place]? = items[place]? := by
  rw [writeItem, List.getElem?_set_ne differ, List.getElem?_append_left within]

theorem writeItem_writeItem (items : List Document) (index : Nat) (value second : Document) :
    writeItem (writeItem items index value) index second = writeItem items index second := by
  have long := length_writeItem items index value
  rw [writeItem, Nat.sub_eq_zero_of_le (by omega), List.replicate_zero, List.append_nil,
    writeItem, List.set_set, writeItem]

/-- A slot can be written in an object, and in an array whose end is not too far away. -/
theorem setChild_eq_ok_iff : node.setChild key value = .ok result ↔
    (∃ members, node = .object members ∧ result = .object (Members.put key value members)) ∨
    (∃ items index, node = .array items ∧ Path.index? key = some index ∧
      index < items.length + maxPadding ∧ result = .array (writeItem items index value)) := by
  cases node with
  | object members => simp [setChild, eq_comm]
  | array items =>
      cases reads : Path.index? key with
      | none => simp [setChild, reads]
      | some index =>
          by_cases near : index < items.length + maxPadding
          · simp only [setChild, reads]
            rw [if_pos (Nat.succ_le_of_lt near)]
            simp [near, eq_comm]
          · simp only [setChild, reads]
            rw [if_neg (mt Nat.lt_of_succ_le near)]
            simp [near]
  | _ => simp [setChild]

theorem kind_setChild (written : node.setChild key value = .ok result) :
    result.kind = node.kind := by
  rcases setChild_eq_ok_iff.1 written with ⟨_, rfl, rfl⟩ | ⟨_, _, rfl, _, _, rfl⟩ <;> rfl

/-- Whether a slot can be written does not depend on the value. -/
theorem exists_setChild (written : node.setChild key value = .ok result) (second : Document) :
    ∃ result, node.setChild key second = .ok result := by
  rcases setChild_eq_ok_iff.1 written with ⟨members, rfl, _⟩ | ⟨items, index, rfl, reads, near, _⟩
  · exact ⟨_, setChild_eq_ok_iff.2 (.inl ⟨members, rfl, rfl⟩)⟩
  · exact ⟨_, setChild_eq_ok_iff.2 (.inr ⟨items, index, rfl, reads, near, rfl⟩)⟩

theorem child?_setChild_self (written : node.setChild key value = .ok result) :
    result.child? key = some value := by
  rcases setChild_eq_ok_iff.1 written with ⟨_, rfl, rfl⟩ | ⟨items, index, rfl, reads, _, rfl⟩
  · exact Members.get?_put_self key value _
  · rw [child?, reads]
    exact getElem?_writeItem_self items index value

/-- Of two writes to one slot, the second one counts. -/
theorem setChild_setChild (written : node.setChild key value = .ok result) (second : Document) :
    result.setChild key second = node.setChild key second := by
  rcases setChild_eq_ok_iff.1 written with ⟨_, rfl, rfl⟩ | ⟨items, index, rfl, reads, near, rfl⟩
  · rw [setChild, setChild, Members.put_put]
  · have long := length_writeItem items index value
    simp only [setChild, reads, writeItem_writeItem]
    rw [if_pos (Nat.succ_le_of_lt near), if_pos (by omega)]

/-- A write to one slot leaves a slot alone that is there, or that is no array index, unless both
are the same slot. -/
theorem child?_of_setChild (written : node.setChild key value = .ok result)
    (visible : (node.child? other).isSome = true ∨ Path.index? other = none) :
    (Path.Meets key other ∧ node.child? other = node.child? key ∧
      result.child? other = some value) ∨ result.child? other = node.child? other := by
  have self := child?_setChild_self written
  rcases setChild_eq_ok_iff.1 written with ⟨members, rfl, rfl⟩ | ⟨items, index, rfl, reads, _, rfl⟩
  · by_cases same : other = key
    · subst same
      exact .inl ⟨.inl rfl, rfl, self⟩
    · exact .inr (Members.get?_put_of_ne value members same)
  · cases otherReads : Path.index? other with
    | none => exact .inr (by rw [child?, child?, otherReads]; rfl)
    | some place =>
        by_cases same : index = place
        · have sameIndex : Path.index? key = Path.index? other := by rw [reads, otherReads, same]
          refine .inl ⟨.inr ⟨by rw [reads]; rfl, sameIndex⟩, ?_, ?_⟩
          · rw [child?, child?, sameIndex]
          · rw [← self, child?, child?, sameIndex]
        · have there : (items[place]?).isSome = true := by
            rcases visible with there | plain
            · rwa [child?, otherReads] at there
            · cases otherReads.symm.trans plain
          have within : place < items.length := by simpa using there
          simp only [child?, otherReads, Option.bind_some]
          exact .inr (getElem?_writeItem_of_ne value same within)

theorem kind_removeChild (node : Document) (key : String) :
    (node.removeChild key).kind = node.kind := by
  unfold removeChild
  repeat' split
  all_goals rfl

/-- To remove a slot leaves all others alone. -/
theorem child?_removeChild (apart : ¬ Path.Meets key other) :
    (node.removeChild key).child? other = node.child? other := by
  have differ : other ≠ key := fun same => apart (.inl same.symm)
  cases node with
  | object members => exact Members.get?_erase_of_ne members differ
  | array items =>
      cases reads : Path.index? key with
      | none => simp [removeChild, reads]
      | some index =>
          have indexDiffers : Path.index? other ≠ some index := fun same =>
            apart (.inr ⟨by rw [reads]; rfl, by rw [reads, same]⟩)
          cases otherReads : Path.index? other with
          | none => simp [removeChild, child?, reads, otherReads]
          | some place =>
              have placeDiffers : index ≠ place := by
                rintro rfl
                exact indexDiffers otherReads
              simp only [removeChild, child?, reads, otherReads, Option.bind_some]
              exact List.getElem?_set_ne placeDiffers
  | _ => rfl

end Document

/-- What becomes of a slot. -/
inductive Change where
  | keep
  | write (value : Document)
  | remove

namespace Change

/-- Carry out a change. -/
def run (change : Change) (node : Document) (key : String) : Except EntryFault Document :=
  match change with
  | .keep => .ok node
  | .write value => node.setChild key value
  | .remove => .ok (node.removeChild key)

theorem kind_run {change : Change} {node result : Document} {key : String}
    (ran : change.run node key = .ok result) : result.kind = node.kind := by
  cases change with
  | keep =>
      cases ran
      rfl
  | write value => exact Document.kind_setChild ran
  | remove =>
      cases ran
      exact Document.kind_removeChild node key

/-- A change to one slot leaves the others alone that are there, or that are no array index. -/
theorem child?_run {change : Change} {node result : Document} {key other : String}
    (apart : ¬ Path.Meets key other)
    (visible : (node.child? other).isSome = true ∨ Path.index? other = none)
    (ran : change.run node key = .ok result) : result.child? other = node.child? other := by
  cases change with
  | keep =>
      cases ran
      rfl
  | write value =>
      rcases Document.child?_of_setChild ran visible with ⟨meets, _⟩ | same
      · exact absurd meets apart
      · exact same
  | remove =>
      cases ran
      exact Document.child?_removeChild apart

end Change

/-- What the action does to a document is a change of one slot, and depends only on the kind of the
document and on what is in the slot. -/
def Slotwise (act : Document → String → Except EntryFault Document) : Prop :=
  ∃ decision : Kind → Option Document → Option Change, ∀ node key result,
    act node key = .ok result ↔
      ∃ change, decision node.kind (node.child? key) = some change ∧
        change.run node key = .ok result

/-- An action that succeeds where a change is decided on and can be carried out. -/
theorem slotwise_of_iff {act : Document → String → Except EntryFault Document}
    (decision : Kind → Option Document → Except EntryFault Change)
    (act_iff : ∀ node key result, act node key = .ok result ↔
      ∃ change, decision node.kind (node.child? key) = .ok change ∧
        change.run node key = .ok result) : Slotwise act := by
  refine ⟨fun kind slot => (decision kind slot).toOption, fun node key result => ?_⟩
  rw [act_iff]
  dsimp only
  generalize decision node.kind (node.child? key) = decided
  cases decided <;> simp [Except.toOption]

/-- An action that decides on a change and carries it out. -/
theorem slotwise_of_eq {act : Document → String → Except EntryFault Document}
    (decision : Kind → Option Document → Except EntryFault Change)
    (act_eq : ∀ node key, act node key =
      decision node.kind (node.child? key) >>= fun change => change.run node key) :
    Slotwise act :=
  slotwise_of_iff decision fun node key _ => by rw [act_eq, Except.bind_eq_ok]

theorem slotwise_setChild (value : Document) :
    Slotwise fun node key => node.setChild key value :=
  slotwise_of_eq (fun _ _ => .ok (.write value)) fun _ _ => rfl

/-- To take a member out of an object looks at the kind of the document, as it refuses arrays. -/
theorem slotwise_renameSource : Slotwise Entry.renameSource := by
  apply slotwise_of_eq fun kind _ =>
    if kind = .array then .error .renamesItem else .ok .remove
  intro node key
  cases node <;> rfl

namespace Edit

/-- What becomes of a number under an operation. -/
def decideNumber (op : Number → Option Number) (current : Document) :
    Except EntryFault Change :=
  match current.number? with
  | none => .error (.unsuitable current.kind)
  | some number =>
      match op number with
      | none => .error .integerOverflow
      | some result => .ok (.write (.ofNumber result))

/-- What becomes of an array. -/
def decideArray (act : List Document → List Document) : Document → Except EntryFault Change
  | .array items => .ok (.write (.array (act items)))
  | other => .error (.notAnArray other.kind)

/-- What becomes of an integer under bitwise steps. -/
def decideBits (steps : List BitStep) : Document → Except EntryFault Change
  | .int value => .ok (.write (.int (steps.foldl (fun n step => step.run n) value)))
  | other => .error (.unsuitable other.kind)

/-- Keep a value unless a new one compares with it as wanted. -/
def decideIf (wanted : Ordering) (value current : Document) : Except EntryFault Change :=
  .ok (if value.compare current = wanted then .write value else .keep)

/-- What an edit decides for its slot, which may be missing. -/
def decision (now : Instant) : Edit → Option Document → Except EntryFault Change
  | .set value, _ => .ok (.write value)
  | .unset, _ | .rename _, _ => .ok .remove
  | .inc amount, none => .ok (.write (.ofNumber amount))
  | .inc amount, some current => decideNumber (·.add? amount) current
  | .mul factor, none => .ok (.write (.ofNumber factor.zeroLike))
  | .mul factor, some current => decideNumber (·.mul? factor) current
  | .min value, none | .max value, none => .ok (.write value)
  | .min value, some current => decideIf .lt value current
  | .max value, some current => decideIf .gt value current
  | .bit steps, slot => decideBits steps (slot.getD (.int 0))
  | .currentDate form, _ => .ok (.write (stamp now form))
  | .push operand, slot => decideArray operand.run (slot.getD (.array []))
  | .addToSet values, slot => decideArray (joinSet · values) (slot.getD (.array []))
  | .pull _, none | .pop _, none => .ok .keep
  | .pull condition, some current =>
      decideArray (fun items => items.filter (fun item => !condition.matchesItem item)) current
  | .pop side, some current => decideArray side.removeFrom current

theorem combine_eq (start : Number) (op : Number → Option Number) (node : Document)
    (key : String) : combine start op node key =
      match node.child? key with
      | none => (Change.write (.ofNumber start)).run node key
      | some current => decideNumber op current >>= fun change => change.run node key := by
  unfold combine decideNumber
  cases node.child? key with
  | none => rfl
  | some current =>
      dsimp only
      cases current.number? with
      | none => rfl
      | some number =>
          dsimp only
          cases op number <;> rfl

theorem writeIf_eq (wanted : Ordering) (value node : Document) (key : String) :
    writeIf wanted value node key =
      match node.child? key with
      | none => (Change.write value).run node key
      | some current => decideIf wanted value current >>= fun change => change.run node key := by
  unfold writeIf decideIf
  cases node.child? key with
  | none => rfl
  | some current => dsimp only; split <;> rfl

theorem growArray_eq (act : List Document → List Document) (node : Document) (key : String) :
    growArray act node key = decideArray act ((node.child? key).getD (.array [])) >>=
      fun change => change.run node key := by
  unfold growArray
  rcases node.child? key with _ | (_ | _ | _ | _ | _ | _ | _) <;> rfl

theorem shrinkArray_eq (act : List Document → List Document) (node : Document) (key : String) :
    shrinkArray act node key =
      match node.child? key with
      | none => Change.keep.run node key
      | some current => decideArray act current >>= fun change => change.run node key := by
  unfold shrinkArray
  rcases node.child? key with _ | (_ | _ | _ | _ | _ | _ | _) <;> rfl

theorem runBits_eq (steps : List BitStep) (node : Document) (key : String) :
    runBits steps node key = decideBits steps ((node.child? key).getD (.int 0)) >>=
      fun change => change.run node key := by
  unfold runBits
  rcases node.child? key with _ | (_ | _ | _ | _ | _ | _ | _) <;> rfl

/-- An edit carries out what it decides for its slot. -/
theorem act_eq (now : Instant) (edit : Edit) (node : Document) (key : String) :
    edit.act now node key =
      edit.decision now (node.child? key) >>= fun change => change.run node key := by
  cases edit with
  | set | unset | rename | currentDate => rfl
  | inc | mul => rw [act, combine_eq]; cases node.child? key <;> rfl
  | min | max => rw [act, writeIf_eq]; cases node.child? key <;> rfl
  | bit steps => exact runBits_eq steps node key
  | push operand => exact growArray_eq operand.run node key
  | addToSet values => exact growArray_eq (joinSet · values) node key
  | pull | pop => rw [act, shrinkArray_eq]; cases node.child? key <;> rfl

theorem slotwise_act (now : Instant) (edit : Edit) : Slotwise (edit.act now) :=
  slotwise_of_eq (fun _ slot => edit.decision now slot) (edit.act_eq now)

end Edit

end LocalFirst
