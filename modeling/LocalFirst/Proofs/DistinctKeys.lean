import LocalFirst.Proofs.Carried
import LocalFirst.Proofs.ScopedDocument

/-!
# Keys stay distinct

To write a member finds the one that is there already, and an edit writes what is in its slot and
what it carries.  An update therefore brings no repeated key about where there was none, neither in
the document nor in its operands.
-/

namespace LocalFirst

namespace Document

variable {document node result value : Document} {key : String}

theorem keysDistinct_ofNumber (number : Number) : (ofNumber number).KeysDistinct := by
  cases number <;> trivial

theorem keysDistinct_string (text : String) : (string text).KeysDistinct :=
  trivial

theorem keysDistinct_bool (value : Bool) : (bool value).KeysDistinct :=
  trivial

theorem keysDistinct_emptyObject : emptyObject.KeysDistinct :=
  keysDistinct_object.2 ⟨List.nodup_nil, by simp⟩

theorem keysDistinct_array_map {α : Type} {items : List α} {write : α → Document}
    (distinct : ∀ item ∈ items, (write item).KeysDistinct) :
    (array (items.map write)).KeysDistinct :=
  keysDistinct_array.2 (List.forall_mem_map.2 distinct)

theorem KeysDistinct.child? (distinct : node.KeysDistinct) (found : node.child? key = some value) :
    value.KeysDistinct :=
  keysDistinct_iff_everywhere.2 ((keysDistinct_iff_everywhere.1 distinct).child? found)

theorem KeysDistinct.get? (distinct : node.KeysDistinct) (found : node.get? key = some value) :
    value.KeysDistinct :=
  keysDistinct_iff_everywhere.2 ((keysDistinct_iff_everywhere.1 distinct).get? found)

theorem KeysDistinct.below? {segments : List String} (distinct : node.KeysDistinct)
    (found : node.below? segments = some value) : value.KeysDistinct :=
  keysDistinct_iff_everywhere.2 ((keysDistinct_iff_everywhere.1 distinct).below? found)

theorem KeysDistinct.setChild (distinct : node.KeysDistinct) (valueDistinct : value.KeysDistinct)
    (written : node.setChild key value = .ok result) : result.KeysDistinct := by
  obtain ⟨members, rfl, rfl⟩ | ⟨items, index, rfl, _, _, rfl⟩ := setChild_eq_ok_iff.1 written
  · obtain ⟨nodup, valuesDistinct⟩ := keysDistinct_object.1 distinct
    refine keysDistinct_object.2 ⟨Members.nodup_keys_put nodup, fun member inPut => ?_⟩
    rcases Members.mem_put inPut with rfl | inMembers
    · exact valueDistinct
    · exact valuesDistinct member inMembers
  · refine keysDistinct_array.2 fun item inWritten => ?_
    rcases List.mem_or_eq_of_mem_set inWritten with inPadded | rfl
    · rcases List.mem_append.1 inPadded with inItems | inPadding
      · exact keysDistinct_array.1 distinct item inItems
      · rw [List.eq_of_mem_replicate inPadding]
        trivial
    · exact valueDistinct

theorem KeysDistinct.removeChild (distinct : node.KeysDistinct) (key : String) :
    (node.removeChild key).KeysDistinct := by
  cases node with
  | object members =>
      obtain ⟨nodup, valuesDistinct⟩ := keysDistinct_object.1 distinct
      refine keysDistinct_object.2 ⟨Members.nodup_keys_erase nodup, fun member inErased => ?_⟩
      exact valuesDistinct member ((Members.erase_sublist key members).subset inErased)
  | array items =>
      simp only [Document.removeChild]
      cases Path.index? key with
      | none => exact distinct
      | some index =>
          refine keysDistinct_array.2 fun item inSet => ?_
          rcases List.mem_or_eq_of_mem_set inSet with inItems | rfl
          · exact keysDistinct_array.1 distinct item inItems
          · trivial
  | _ => trivial

/-- What an act keeps where it acts, it keeps in the whole document. -/
theorem KeysDistinct.updateParent {create : Bool}
    {act : Document → String → Except EntryFault Document}
    (keeps : ∀ node key result, node.KeysDistinct → act node key = .ok result →
      result.KeysDistinct)
    {segments : List String} (distinct : node.KeysDistinct)
    (updated : node.updateParent create act segments = .ok result) : result.KeysDistinct := by
  induction segments generalizing node result with
  | nil => cases updated
  | cons segment rest ih =>
      cases rest with
      | nil => exact keeps node segment result distinct updated
      | cons next rest =>
          unfold Document.updateParent at updated
          split at updated
          next child found =>
            obtain ⟨changed, childUpdated, written⟩ := Except.bind_eq_ok.1 updated
            exact distinct.setChild (ih (distinct.child? found) childUpdated) written
          next missing =>
            split at updated
            -- What is created on the way is an object without members.
            · obtain ⟨grown, grew, updated⟩ := Except.bind_eq_ok.1 updated
              have grownDistinct := distinct.setChild keysDistinct_emptyObject grew
              split at updated
              · cases updated
              next child found =>
                obtain ⟨changed, childUpdated, written⟩ := Except.bind_eq_ok.1 updated
                exact grownDistinct.setChild (ih (grownDistinct.child? found) childUpdated) written
            · cases updated
              exact distinct

theorem KeysDistinct.atParent {create : Bool}
    {act : Document → String → Except EntryFault Document}
    (keeps : ∀ node key result, node.KeysDistinct → act node key = .ok result →
      result.KeysDistinct)
    {path : Path} (distinct : document.KeysDistinct)
    (updated : document.atParent create act path = .ok result) : result.KeysDistinct := by
  unfold Document.atParent at updated
  split at updated
  · cases updated
  · exact distinct.updateParent keeps updated

end Document

open Document

/-- A change that writes a document with distinct keys keeps keys distinct. -/
theorem Document.KeysDistinct.change {change : Change} {node result : Document} {key : String}
    (distinct : node.KeysDistinct) (writes : ∀ value, change = .write value → value.KeysDistinct)
    (ran : change.run node key = .ok result) : result.KeysDistinct := by
  cases change with
  | keep => exact Except.ok.inj ran ▸ distinct
  | write value => exact distinct.setChild (writes value rfl) ran
  | remove => exact Except.ok.inj ran ▸ distinct.removeChild key

theorem Push.cut_sublist (slice : Option Int64) (items : List Document) :
    (cut slice items).Sublist items := by
  unfold cut
  split
  · exact .refl items
  · split
    · exact List.take_sublist _ _
    · exact List.drop_sublist _ _

/-- A push brings nothing into the array but its values. -/
theorem Push.mem_run {operand : Push} {items : List Document} {value : Document}
    (member : value ∈ operand.run items) : value ∈ items ∨ value ∈ operand.each := by
  obtain ⟨each, position, slice, sort⟩ := operand
  have inserted : value ∈ items.take (place position items.length) ++ each ++
      items.drop (place position items.length) := by
    have inSorted := (cut_sublist _ _).subset member
    cases sort with
    | none => exact inSorted
    | some rule => exact List.mem_mergeSort.1 inSorted
  rcases List.mem_append.1 inserted with inFront | behind
  · exact (List.mem_append.1 inFront).imp List.mem_of_mem_take id
  · exact .inl (List.mem_of_mem_drop behind)

theorem mem_joinSet {items values : List Document} {value : Document}
    (member : value ∈ joinSet items values) : value ∈ items ∨ value ∈ values := by
  induction values generalizing items with
  | nil => exact .inl member
  | cons first rest ih =>
      rcases ih member with inJoined | inRest
      · dsimp only at inJoined
        split at inJoined
        · exact .inl inJoined
        · rcases List.mem_append.1 inJoined with inItems | isFirst
          · exact .inl inItems
          · exact .inr (List.mem_singleton.1 isFirst ▸ List.mem_cons_self)
      · exact .inr (List.mem_cons_of_mem _ inRest)

namespace Edit

theorem keysDistinct_of_decideNumber {op : Number → Option Number} {current value : Document}
    (decided : decideNumber op current = .ok (.write value)) : value.KeysDistinct := by
  unfold decideNumber at decided
  split at decided
  · cases decided
  · split at decided
    · cases decided
    next number _ =>
      cases decided
      exact keysDistinct_ofNumber number

theorem keysDistinct_of_decideArray {act : List Document → List Document}
    {current value : Document} (distinct : current.KeysDistinct)
    (acts : ∀ items, (∀ item ∈ items, item.KeysDistinct) → ∀ item ∈ act items, item.KeysDistinct)
    (decided : decideArray act current = .ok (.write value)) : value.KeysDistinct := by
  cases current with
  | array items =>
      cases decided
      exact keysDistinct_array.2 (acts items (keysDistinct_array.1 distinct))
  | _ => cases decided

/-- What an edit writes is put together from what is in its slot and what it carries. -/
theorem keysDistinct_of_decision {now : Instant} {edit : Edit} {slot : Option Document}
    {value : Document} (carries : ∀ operand ∈ edit.documents, operand.KeysDistinct)
    (slotDistinct : ∀ current, slot = some current → current.KeysDistinct)
    (decided : edit.decision now slot = .ok (.write value)) : value.KeysDistinct := by
  have arrayDistinct : (slot.getD (.array [])).KeysDistinct := by
    cases slot with
    | none => exact keysDistinct_array.2 (by simp)
    | some current => exact slotDistinct current rfl
  cases edit with
  | set operand =>
      have written : operand = value := Change.write.inj (Except.ok.inj decided)
      exact written ▸ carries operand (List.mem_singleton.2 rfl)
  | unset | rename => simp [decision] at decided
  | inc amount | mul amount =>
      cases slot with
      | none =>
          rw [decision, Except.ok.injEq, Change.write.injEq] at decided
          exact decided ▸ keysDistinct_ofNumber _
      | some current => exact keysDistinct_of_decideNumber decided
  | min operand | max operand =>
      have operandDistinct := carries operand (List.mem_singleton.2 rfl)
      cases slot with
      | none => exact Change.write.inj (Except.ok.inj decided) ▸ operandDistinct
      | some current =>
          have decided := Except.ok.inj decided
          split at decided
          · exact Change.write.inj decided ▸ operandDistinct
          · cases decided
  | bit steps =>
      rw [decision] at decided
      unfold decideBits at decided
      split at decided <;> cases decided
      trivial
  | currentDate form =>
      have written : stamp now form = value := Change.write.inj (Except.ok.inj decided)
      cases form <;> exact written ▸ trivial
  | push operand =>
      refine keysDistinct_of_decideArray arrayDistinct (fun items itemsDistinct item inRun => ?_)
        decided
      exact (Push.mem_run inRun).elim (itemsDistinct item) (carries item)
  | addToSet values =>
      refine keysDistinct_of_decideArray arrayDistinct (fun items itemsDistinct item inSet => ?_)
        decided
      exact (mem_joinSet inSet).elim (itemsDistinct item) (carries item)
  | pull condition =>
      cases slot with
      | none => cases decided
      | some current =>
          exact keysDistinct_of_decideArray (slotDistinct current rfl)
            (fun items itemsDistinct item inKept =>
              itemsDistinct item (List.mem_filter.1 inKept).1) decided
  | pop side =>
      cases slot with
      | none => cases decided
      | some current =>
          refine keysDistinct_of_decideArray (slotDistinct current rfl)
            (fun items itemsDistinct item inKept => itemsDistinct item ?_) decided
          cases side with
          | first => exact List.mem_of_mem_drop inKept
          | last => exact (List.dropLast_sublist _).subset inKept

theorem keysDistinct_act {now : Instant} {edit : Edit} {node result : Document} {key : String}
    (carries : ∀ operand ∈ edit.documents, operand.KeysDistinct) (distinct : node.KeysDistinct)
    (acted : edit.act now node key = .ok result) : result.KeysDistinct := by
  rw [act_eq, Except.bind_eq_ok] at acted
  obtain ⟨change, decided, ran⟩ := acted
  refine distinct.change (fun value writes => ?_) ran
  subst writes
  exact keysDistinct_of_decision carries (fun current found => distinct.child? found) decided

end Edit

namespace Entry

theorem keysDistinct_renameSource {node result : Document} {key : String}
    (distinct : node.KeysDistinct) (taken : renameSource node key = .ok result) :
    result.KeysDistinct := by
  unfold renameSource at taken
  split at taken
  · cases taken
  · exact Except.ok.inj taken ▸ distinct.removeChild key

theorem keysDistinct_rename {document result : Document} {path : Path} {name : String}
    (distinct : document.KeysDistinct) (ran : rename document path name = .ok result) :
    result.KeysDistinct := by
  unfold rename at ran
  dsimp only at ran
  split at ran
  · cases ran
  split at ran
  · exact Except.ok.inj ran ▸ distinct
  simp only [Except.bind_eq_ok, blame_eq_ok] at ran
  obtain ⟨remaining, taken, moved⟩ := ran
  have remainingDistinct : remaining.KeysDistinct :=
    distinct.atParent (fun _ _ _ => keysDistinct_renameSource) taken
  split at moved
  · exact Except.ok.inj moved ▸ remainingDistinct
  next value found =>
    rw [blame_eq_ok] at moved
    exact remainingDistinct.atParent (fun _ _ _ nodeDistinct written =>
      nodeDistinct.setChild (distinct.below? found) written) moved

theorem keysDistinct_run {now : Instant} {entry : Entry} {document result : Document}
    (carries : ∀ operand ∈ entry.edit.documents, operand.KeysDistinct)
    (distinct : document.KeysDistinct) (ran : entry.run now document = .ok result) :
    result.KeysDistinct := by
  by_cases isRename : entry.edit.operator = .rename
  · obtain ⟨path, edit⟩ := entry
    cases edit <;> cases isRename
    exact keysDistinct_rename distinct ran
  · rw [run_of_not_rename isRename, blame_eq_ok] at ran
    exact distinct.atParent (fun _ _ _ => Edit.keysDistinct_act carries) ran

end Entry

namespace Update

variable {now : Instant} {document result : Document} {update : Update}

/-- An update that carries no repeated key brings none about. -/
theorem keysDistinct_apply (carries : update.Carries Document.KeysDistinct)
    (distinct : document.KeysDistinct) (applied : update.apply now document = .ok result) :
    result.KeysDistinct :=
  Except.foldlM_preserves (fun entry member _ _ before ran =>
    Entry.keysDistinct_run (carries_iff.1 carries entry member) before ran) distinct applied

theorem keysDistinct_applyAll {updates : List Update}
    (carry : ∀ update ∈ updates, update.Carries Document.KeysDistinct)
    (distinct : document.KeysDistinct) (applied : applyAll now document updates = .ok result) :
    result.KeysDistinct :=
  Except.foldlM_preserves (fun update member _ _ before ran =>
    keysDistinct_apply (carry update member) before ran) distinct applied

variable {holds : Document → Prop}

theorem carries_empty : Update.empty.Carries holds := by
  rintro value ⟨⟩

theorem Carries.insert (carries : update.Carries holds) {path : Path} {edit : Edit}
    (carried : ∀ value ∈ edit.documents, holds value) : (update.insert path edit).Carries holds :=
  carries_iff.2 fun entry member => by
    rcases Keyed.mem_toList_insert member with rfl | there
    · exact carried
    · exact carries_iff.1 carries entry there

theorem Carries.set (carries : update.Carries holds) {path : Path} {value : Document}
    (carried : holds value) : (update.set path value).Carries holds :=
  carries.insert (List.forall_mem_singleton.2 carried)

theorem Carries.push (carries : update.Carries holds) {path : Path} {value : Document}
    (carried : holds value) : (update.push path value).Carries holds :=
  carries.insert fun _ member => List.mem_singleton.1 member ▸ carried

theorem Carries.unset (carries : update.Carries holds) (path : Path) :
    (update.unset path).Carries holds :=
  carries.insert (by simp [Edit.documents])

theorem Carries.merge {other : Update} (carries : update.Carries holds)
    (otherCarries : other.Carries holds) : (update.merge other).Carries holds :=
  carries_iff.2 fun entry member =>
    (Keyed.mem_toList_insertAll member).elim (carries_iff.1 otherCarries entry)
      (carries_iff.1 carries entry)

end Update

end LocalFirst
