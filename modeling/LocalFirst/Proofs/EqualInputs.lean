import LocalFirst.Proofs.DistinctKeys
import LocalFirst.Proofs.ReorderedInputs

/-!
# Equal inputs give equal results

Equality of documents does not see the order of members, while edits find, write, move and remove
members in lists.  Here two runs are followed side by side, from documents and edits that differ in
the order of members only.  What a segment names, what an edit decides for a slot, what is written
and what fails is then the same in both up to this order, at every step and so for the whole update.
The order of documents does see the order of members, and so the edits and comparisons that ask for
it are left out.
-/

namespace LocalFirst

open Document (Reordered)

/-- Changes that write the same documents up to the order of members. -/
inductive Change.Alike : Change → Change → Prop
  | keep : Alike .keep .keep
  | write {value other : Document} (alike : Reordered value other) :
      Alike (.write value) (.write other)
  | remove : Alike .remove .remove

theorem Change.Alike.run {change other : Change} {node second : Document} {key : String}
    (changes : Change.Alike change other) (alike : Reordered node second) :
    Except.Corresponds Reordered (change.run node key) (other.run second key) := by
  cases changes with
  | keep => exact alike
  | write values => exact alike.setChild key values
  | remove => exact alike.removeChild key

theorem exists_int_of_reordered {number other : Number}
    (alike : Reordered (.ofNumber number) (.ofNumber other)) :
    ∃ value, number = .int value ∧ other = .int value := by
  cases number <;> cases other <;> cases alike
  case int => exact ⟨_, rfl, rfl⟩
  case float notFloat => exact absurd rfl notFloat

namespace Edit

/-- The edit looks at the order of documents nowhere. -/
def OrderFree : Edit → Prop
  | .min _ | .max _ => False
  | .push operand => operand.sort = none
  | .pull condition => condition.RangeFree
  | _ => True

/-- The edits differ in the order of members of their documents only. -/
def Alike (edit other : Edit) : Prop :=
  edit.outline = other.outline ∧ List.Forall₂ Reordered edit.documents other.documents

theorem Alike.operator_eq {edit other : Edit} (edits : Edit.Alike edit other) :
    edit.operator = other.operator := by
  have outlineOperator : ∀ edit : Edit, edit.outline.operator = edit.operator :=
    fun edit => by cases edit <;> rfl
  rw [← outlineOperator edit, edits.1, outlineOperator]

theorem Alike.creates_eq {edit other : Edit} (edits : Edit.Alike edit other) :
    edit.creates = other.creates := by
  have outlineCreates : ∀ edit : Edit, edit.outline.creates = edit.creates :=
    fun edit => by cases edit <;> rfl
  rw [← outlineCreates edit, edits.1, outlineCreates]

variable {current other : Document}

theorem decideNumber_alike {op : Number → Option Number}
    (staysInt : ∀ value result, op (.int value) = some result → ∃ sum, result = .int sum)
    (alike : Reordered current other) :
    Except.Corresponds Change.Alike (decideNumber op current) (decideNumber op other) := by
  rcases alike.shape with ⟨_, notFloat, rfl⟩ | ⟨_, _, rfl, rfl, _⟩ | ⟨_, _, rfl, rfl, _⟩
  · cases other with
    | int value =>
        simp only [decideNumber, Document.number?]
        cases result : op (.int value) with
        | none => rfl
        | some number =>
            obtain ⟨sum, rfl⟩ := staysInt value number result
            exact .write (Document.reordered_int sum)
    | float => exact absurd rfl notFloat
    | _ => rfl
  · rfl
  · rfl

theorem decideArray_alike {act otherAct : List Document → List Document}
    (acts : ∀ items others, List.Forall₂ Reordered items others →
      List.Forall₂ Reordered (act items) (otherAct others))
    (alike : Reordered current other) :
    Except.Corresponds Change.Alike (decideArray act current) (decideArray otherAct other) := by
  rcases alike.shape with ⟨isScalar, _, rfl⟩ | ⟨items, others, rfl, rfl, itemsAlike⟩ |
    ⟨_, _, rfl, rfl, _⟩
  · cases other with
    | array => exact absurd rfl isScalar.1
    | _ => rfl
  · exact .write (Document.reordered_array_iff.2 (acts items others itemsAlike))
  · rfl

theorem decideBits_alike (steps : List BitStep) (alike : Reordered current other) :
    Except.Corresponds Change.Alike (decideBits steps current) (decideBits steps other) := by
  rcases alike.shape with ⟨_, _, rfl⟩ | ⟨_, _, rfl, rfl, _⟩ | ⟨_, _, rfl, rfl, _⟩
  · cases other with
    | int value =>
        exact .write (Document.reordered_int _)
    | _ => rfl
  · rfl
  · rfl

/-- Edits that differ in the order of members decide alike for slots that do. -/
theorem decision_alike {edit other : Edit} {slot otherSlot : Option Document} (now : Instant)
    (orderFree : edit.OrderFree) (edits : Edit.Alike edit other)
    (slots : Option.Rel Reordered slot otherSlot) :
    Except.Corresponds Change.Alike (edit.decision now slot) (other.decision now otherSlot) := by
  obtain ⟨outlines, operands⟩ := edits
  cases edit <;> cases other <;> simp only [outline, reduceCtorEq] at outlines
  case set => exact .write (List.forall₂_cons.1 operands).1
  case unset | rename => exact .remove
  case min | max => exact absurd orderFree id
  case inc amount otherAmount =>
      obtain ⟨value, rfl, rfl⟩ := exists_int_of_reordered (List.forall₂_cons.1 operands).1
      rcases rel_iff.1 slots with ⟨rfl, rfl⟩ | ⟨current, other, rfl, rfl, alike⟩
      · exact .write (Document.reordered_int value)
      · refine decideNumber_alike (fun number result added => ?_) alike
        simp only [Number.add?, Option.map_eq_some_iff] at added
        obtain ⟨sum, _, rfl⟩ := added
        exact ⟨sum, rfl⟩
  case mul factor otherFactor =>
      obtain ⟨value, rfl, rfl⟩ := exists_int_of_reordered (List.forall₂_cons.1 operands).1
      rcases rel_iff.1 slots with ⟨rfl, rfl⟩ | ⟨current, other, rfl, rfl, alike⟩
      · exact .write (Document.reordered_int 0)
      · refine decideNumber_alike (fun number result multiplied => ?_) alike
        simp only [Number.mul?, Option.map_eq_some_iff] at multiplied
        obtain ⟨product, _, rfl⟩ := multiplied
        exact ⟨product, rfl⟩
  case bit steps otherSteps =>
      obtain rfl : steps = otherSteps := by simpa using outlines
      exact decideBits_alike steps (rel_getD slots (Document.reordered_int 0))
  case currentDate form otherForm =>
      obtain rfl : form = otherForm := by simpa using outlines
      cases form with
      | date => exact .write (Document.reordered_string _)
      | timestamp => exact .write (Document.reordered_int _)
  case push operand otherOperand =>
      have same : operand.outline = otherOperand.outline := by simpa using outlines
      exact decideArray_alike (fun _ _ => Push.run_alike orderFree same operands)
        (rel_getD slots Document.reordered_emptyArray)
  case addToSet =>
      exact decideArray_alike (fun _ _ => joinSet_alike operands)
        (rel_getD slots Document.reordered_emptyArray)
  case pull condition otherCondition =>
      rcases rel_iff.1 slots with ⟨rfl, rfl⟩ | ⟨current, other, rfl, rfl, alike⟩
      · exact .keep
      · refine decideArray_alike (fun items others => @List.rel_filter _ _ _ _ _ ?_ items others)
          alike
        intro item other itemAlike
        dsimp only
        rw [Condition.matchesItem_eq orderFree (by simpa using outlines) operands itemAlike]
  case pop side otherSide =>
      obtain rfl : side = otherSide := by simpa using outlines
      rcases rel_iff.1 slots with ⟨rfl, rfl⟩ | ⟨current, other, rfl, rfl, alike⟩
      · exact .keep
      · exact decideArray_alike (fun _ _ => side.removeFrom_alike) alike

theorem act_alike {edit other : Edit} {node second : Document} (now : Instant)
    (orderFree : edit.OrderFree) (edits : Edit.Alike edit other) (alike : Reordered node second)
    (key : String) :
    Except.Corresponds Reordered (edit.act now node key) (other.act now second key) := by
  rw [act_eq, act_eq]
  exact (decision_alike now orderFree edits (alike.child? key)).bind fun _ _ changes =>
    changes.run alike

end Edit

namespace Entry

variable {document other : Document}

theorem renameSource_alike (alike : Reordered document other) (key : String) :
    Except.Corresponds Reordered (renameSource document key) (renameSource other key) := by
  rcases alike.shape with ⟨isScalar, _, rfl⟩ | ⟨_, _, rfl, rfl, _⟩ | ⟨_, _, rfl, rfl, _⟩
  · cases other with
    | array => exact absurd rfl isScalar.1
    | _ => exact alike.removeChild key
  · rfl
  · exact alike.removeChild key

theorem blame_alike {operator : Operator} {path : Path}
    {outcome otherOutcome : Except EntryFault Document}
    (outcomes : Except.Corresponds Reordered outcome otherOutcome) :
    Except.Corresponds Reordered (blame operator path outcome)
      (blame operator path otherOutcome) :=
  outcomes.mapError

theorem rename_alike (alike : Reordered document other) (path : Path) (name : String) :
    Except.Corresponds Reordered (rename document path name) (rename other path name) := by
  unfold rename
  dsimp only
  split
  · rfl
  split
  · exact alike
  · refine (blame_alike (alike.atParent fun _ _ key nodes => renameSource_alike nodes key)).bind
      fun remaining otherRemaining remainingAlike => ?_
    -- The value that moves is looked up before it is taken away.
    rcases rel_iff.1 (alike.below? path.segments) with
      ⟨missing, otherMissing⟩ | ⟨value, otherValue, found, otherFound, valuesAlike⟩
    · simp only [Document.resolve?, missing, otherMissing]
      exact remainingAlike
    · simp only [Document.resolve?, found, otherFound]
      exact blame_alike (remainingAlike.atParent
        fun _ _ key nodes => nodes.setChild key valuesAlike)

/-- Entries at one path with edits that differ in the order of members only. -/
def Alike (entry second : Entry) : Prop :=
  entry.path = second.path ∧ Edit.Alike entry.edit second.edit

theorem run_alike {entry second : Entry} (now : Instant) (orderFree : entry.edit.OrderFree)
    (entries : Entry.Alike entry second) (alike : Reordered document other) :
    Except.Corresponds Reordered (entry.run now document) (second.run now other) := by
  obtain ⟨paths, edits⟩ := entries
  by_cases isRename : entry.edit.operator = .rename
  · obtain ⟨path, edit⟩ := entry
    obtain ⟨_, otherEdit⟩ := second
    obtain rfl : path = _ := paths
    cases edit <;> cases isRename
    have outlines := edits.1
    cases otherEdit <;> simp only [Edit.outline, reduceCtorEq, Edit.rename.injEq] at outlines
    subst outlines
    exact rename_alike alike path _
  · rw [run_of_not_rename isRename, run_of_not_rename (edits.operator_eq ▸ isRename),
      ← edits.operator_eq, ← edits.creates_eq, ← paths]
    exact blame_alike (alike.atParent
      fun _ _ key nodes => Edit.act_alike now orderFree edits nodes key)

end Entry

namespace Update

variable {document otherDocument : Document} {update other : Update}

/-- No edit of the update looks at the order of documents. -/
def OrderFree (update : Update) : Prop :=
  ∀ entry ∈ update.entries.toList, entry.edit.OrderFree

/-- The entries of equal updates without floats differ in the order of members only. -/
theorem entries_alike (distinct : update.Carries Document.KeysDistinct)
    (free : update.Carries Document.FloatFree) (same : update.same other = true) :
    List.Forall₂ Entry.Alike update.entries.toList other.entries.toList := by
  rw [carries_iff] at distinct free
  unfold Update.same at same
  generalize update.entries.toList = entries at *
  generalize other.entries.toList = others at *
  induction entries generalizing others with
  | nil => cases others <;> simp_all [sameEntries]
  | cons entry rest ih =>
      cases others with
      | nil => simp [sameEntries] at same
      | cons second seconds =>
          obtain ⟨entryDistinct, restDistinct⟩ := List.forall_mem_cons.1 distinct
          obtain ⟨entryFree, restFree⟩ := List.forall_mem_cons.1 free
          simp only [sameEntries, Bool.and_eq_true, beq_iff_eq, Edit.same_iff] at same
          obtain ⟨⟨paths, outlines, operands⟩, restSame⟩ := same
          refine .cons ⟨paths, outlines, ?_⟩ (ih restDistinct restFree seconds restSame)
          have wellFormed : ∀ value ∈ entry.edit.documents, value.KeysDistinct ∧ value.FloatFree :=
            fun value inEdit => ⟨entryDistinct value inEdit, entryFree value inEdit⟩
          exact ((List.forall₂_and_left _ _).2 ⟨wellFormed, operands⟩).imp
            fun _ _ values => Document.reordered_of_same values.1.1 values.1.2 values.2

/-- Equal updates do the same to equal documents: both give results, which are equal again, or both
fail with the same error.  Equality does not see the order of members at any depth. -/
theorem apply_same (now : Instant) (distinct : document.KeysDistinct) (free : document.FloatFree)
    (carriesDistinct : update.Carries Document.KeysDistinct)
    (carriesFree : update.Carries Document.FloatFree) (orderFree : update.OrderFree)
    (documents : document.same otherDocument = true) (updates : update.same other = true) :
    (∃ result otherResult, update.apply now document = .ok result ∧
        other.apply now otherDocument = .ok otherResult ∧ result.same otherResult = true) ∨
      ∃ error, update.apply now document = .error error ∧
        other.apply now otherDocument = .error error := by
  have outcomes : Except.Corresponds Document.Reordered (update.apply now document)
      (other.apply now otherDocument) :=
    .foldlM ((List.forall₂_and_left _ _).2
        ⟨orderFree, entries_alike carriesDistinct carriesFree updates⟩)
      (fun _ _ _ _ ⟨free, entries⟩ => Entry.run_alike now free entries)
      (Document.reordered_of_same distinct free documents)
  rcases Except.corresponds_iff.1 outcomes with
    ⟨result, otherResult, applied, otherApplied, alike⟩ | fails
  · have resultDistinct := keysDistinct_apply carriesDistinct distinct applied
    exact .inl ⟨result, otherResult, applied, otherApplied, alike.same resultDistinct⟩
  · exact .inr fails

/-- What is put together holds nothing else. -/
theorem mem_of_mem_ofEntries {entries : List Entry} {entry : Entry}
    (member : entry ∈ (ofEntries entries).entries.toList) : entry ∈ entries :=
  Keyed.mem_of_mem_ofList member

/-- The size of a box. -/
def boxSize : Document :=
  .object [("height", .int 3), ("width", .int 4)]

/-- The same size, with the width before the height. -/
def turnedSize : Document :=
  .object [("width", .int 4), ("height", .int 3)]

/-- A shelf with a row of boxes. -/
def shelf : Document :=
  .object [("row", .array [.object [("label", .string "a"), ("size", boxSize)], .null]),
    ("moved", .int 5)]

/-- The same shelf, with the members of every object in another order. -/
def turnedShelf : Document :=
  .object [("moved", .int 5),
    ("row", .array [.object [("size", turnedSize), ("label", .string "a")], .null])]

/-- Moves a counter and starts it anew, takes the boxes of one size out of the row, and notes this
size twice, which keeps it once. -/
def clearing (size turned : Document) : Update :=
  .ofEntries [⟨⟨["moved"]⟩, .rename "history.moved"⟩, ⟨⟨["moved"]⟩, .inc (.int 1)⟩,
    ⟨⟨["cleared"]⟩, .addToSet [size, turned]⟩,
    ⟨⟨["row"]⟩, .pull (.all [.fields [(⟨["size"]⟩, .equals turned)], .compares .ne .null])⟩]

theorem apply_same_clearing :
    (shelf.KeysDistinct ∧ shelf.FloatFree) ∧
      ((clearing boxSize turnedSize).Carries Document.KeysDistinct ∧
        (clearing boxSize turnedSize).Carries Document.FloatFree ∧
        (clearing boxSize turnedSize).OrderFree) ∧
      (shelf.same turnedShelf = true ∧
        (clearing boxSize turnedSize).same (clearing turnedSize boxSize) = true) ∧
      ∃ result otherResult, (clearing boxSize turnedSize).apply default shelf = .ok result ∧
        (clearing turnedSize boxSize).apply default turnedShelf = .ok otherResult ∧
        result.same otherResult = true := by
  have shelfWell : shelf.KeysDistinct ∧ shelf.FloatFree := by
    simp [shelf, boxSize, Document.KeysDistinct, Document.ItemKeysDistinct,
      Document.MemberKeysDistinct, Document.FloatFree, Document.Everywhere,
      Document.ItemsEverywhere, Document.MembersEverywhere, Document.NotFloat, Document.kind]
  have entriesWell : ∀ entry ∈ (clearing boxSize turnedSize).entries.toList,
      entry.edit.OrderFree ∧
        ∀ value ∈ entry.edit.documents, value.KeysDistinct ∧ value.FloatFree := by
    intro entry member
    have inList := mem_of_mem_ofEntries member
    simp only [List.mem_cons, List.not_mem_nil, or_false] at inList
    rcases inList with rfl | rfl | rfl | rfl <;>
      simp [Edit.OrderFree, Condition.RangeFree, Condition.Throughout, Condition.PartsThroughout,
        Condition.FieldsThroughout, Condition.AsksNoOrder, Edit.documents, Condition.documents,
        Condition.partsDocuments, Condition.fieldsDocuments, Document.ofNumber, boxSize, turnedSize,
        Document.KeysDistinct, Document.MemberKeysDistinct, Document.FloatFree,
        Document.Everywhere, Document.MembersEverywhere, Document.NotFloat, Document.kind]
  have distinct : (clearing boxSize turnedSize).Carries Document.KeysDistinct :=
    carries_iff.2 fun entry member value inEdit => ((entriesWell entry member).2 value inEdit).1
  have free : (clearing boxSize turnedSize).Carries Document.FloatFree :=
    carries_iff.2 fun entry member value inEdit => ((entriesWell entry member).2 value inEdit).2
  have orderFree : (clearing boxSize turnedSize).OrderFree :=
    fun entry member => (entriesWell entry member).1
  have documents : shelf.same turnedShelf = true := by decide +kernel
  have updates : (clearing boxSize turnedSize).same (clearing turnedSize boxSize) = true := by
    decide +kernel
  have succeeds : ((clearing boxSize turnedSize).apply default shelf).toOption.isSome = true := by
    decide +kernel
  refine ⟨shelfWell, ⟨distinct, free, orderFree⟩, ⟨documents, updates⟩, ?_⟩
  rcases apply_same default shelfWell.1 shelfWell.2 distinct free orderFree documents
    updates with results | ⟨error, failed, _⟩
  · exact results
  · rw [failed] at succeeds
    cases succeeds

end Update

end LocalFirst
