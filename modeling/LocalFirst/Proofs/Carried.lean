import LocalFirst.Proofs.CarriedConditions

/-!
# Documents within documents and updates

A property may be asked of a document and of everything within it, or of the operands that an
update carries.  Reading an update takes the operands out of a document, and writing it puts them
back between texts, whole numbers and objects that repeat no key.  A property that these do not
break goes along with the operands in both directions.
-/

namespace LocalFirst

open Document

variable {holds : Document → Prop}

namespace Push

theorem each_readModifier {path : Path} {operand read : Push} {modifier : String × Document}
    (succeeds : readModifier path operand modifier = .ok read) : read.each = operand.each := by
  obtain ⟨key, argument⟩ := modifier
  simp only [readModifier] at succeeds
  split at succeeds
  · cases succeeds
    rfl
  split at succeeds
  · simp only [Except.bind_eq_ok, Except.pure_eq_ok] at succeeds
    obtain ⟨_, _, rfl⟩ := succeeds
    rfl
  split at succeeds
  · simp only [Except.bind_eq_ok, Except.pure_eq_ok] at succeeds
    obtain ⟨_, _, rfl⟩ := succeeds
    rfl
  split at succeeds
  · simp only [Except.bind_eq_ok, Except.pure_eq_ok] at succeeds
    obtain ⟨_, _, rfl⟩ := succeeds
    rfl
  · cases succeeds

theorem everywhere_each {path : Path} {operand : Document} {read : Push}
    (everywhere : operand.Everywhere holds) (succeeds : ofDocument path operand = .ok read) :
    ∀ value ∈ read.each, value.Everywhere holds := by
  unfold ofDocument at succeeds
  split at succeeds
  · split at succeeds
    · cases succeeds
    · cases succeeds
      simpa using everywhere
  next each found =>
    have same : read.each = each := Except.foldlM_preserves
      (fun _ _ before after kept modifierRead => (each_readModifier modifierRead).trans kept) rfl
      succeeds
    rw [same]
    exact (everywhere_array.1 (everywhere.get? found)).2
  · cases succeeds

theorem everywhere_toDocument (safe : WireSafe holds) {operand : Push}
    (everywhere : ∀ value ∈ operand.each, value.Everywhere holds) :
    operand.toDocument.Everywhere holds := by
  have rules : ∀ rule : SortRule, rule.toDocument.Everywhere holds := by
    intro rule
    have directions : ∀ direction : SortDirection, direction.toDocument.Everywhere holds :=
      fun direction => by cases direction <;> exact safe.everywhere_int _
    cases rule with
    | items direction => exact directions direction
    | keys order =>
        refine safe.everywhere_ofPairs fun pair member => ?_
        obtain ⟨key, _, rfl⟩ := List.mem_map.1 member
        exact directions key.2
  cases plain : operand.plainValue? with
  | some value =>
      obtain ⟨rfl, _⟩ := plainValue?_eq_some_iff.1 plain
      simpa [toDocument, plain] using everywhere
  | none =>
      obtain ⟨each, position, slice, sort⟩ := operand
      simp only [toDocument, plain]
      refine safe.everywhere_object ?_ ?_
      · cases position <;> cases slice <;> cases sort <;> simp
      · simp only [List.cons_append, List.nil_append, List.forall_mem_cons, List.forall_mem_append,
          Option.mem_toList, Option.map_eq_some_iff, forall_exists_index, and_imp]
        refine ⟨safe.everywhere_array everywhere, ⟨?_, ?_⟩, ?_⟩
        all_goals rintro _ _ _ rfl
        · exact safe.everywhere_int _
        · exact safe.everywhere_int _
        · exact rules _

end Push

namespace Edit

/-- The documents that the edit writes or compares with. -/
def documents : Edit → List Document
  | .set value | .min value | .max value => [value]
  | .inc number | .mul number => [ofNumber number]
  | .push operand => operand.each
  | .addToSet values => values
  | .pull condition => condition.documents
  | _ => []

theorem everywhere_readSetValues {path : Path} {operand : Document} {values : List Document}
    (everywhere : operand.Everywhere holds) (read : readSetValues path operand = .ok values) :
    ∀ value ∈ values, value.Everywhere holds := by
  unfold readSetValues at read
  split at read
  · cases read
    simpa using everywhere
  next found =>
    cases read
    exact (everywhere_array.1 (everywhere.get? found)).2
  · cases read

theorem everywhere_of_ofDocument {operator : Operator} {path : Path} {operand : Document}
    {edit : Edit} (everywhere : operand.Everywhere holds)
    (read : ofDocument operator path operand = .ok edit) :
    ∀ value ∈ edit.documents, value.Everywhere holds := by
  cases operator <;> simp only [ofDocument] at read
  case set | min | max =>
    cases read
    simpa [documents] using everywhere
  case unset =>
    cases read
    simp [documents]
  case rename => split at read <;> cases read; simp [documents]
  case inc | mul =>
    rw [Except.map_eq_ok] at read
    obtain ⟨number, numberRead, rfl⟩ := read
    unfold readNumber at numberRead
    split at numberRead
    next found =>
      cases numberRead
      obtain rfl := ofNumber_of_number? found
      simpa [documents] using everywhere
    · cases numberRead
  case bit =>
    split at read
    · rw [Except.map_eq_ok] at read
      obtain ⟨_, _, rfl⟩ := read
      simp [documents]
    · cases read
  case currentDate =>
    rw [Except.map_eq_ok] at read
    obtain ⟨_, _, rfl⟩ := read
    simp [documents]
  case push =>
    rw [Except.map_eq_ok] at read
    obtain ⟨_, pushRead, rfl⟩ := read
    exact Push.everywhere_each everywhere pushRead
  case addToSet =>
    rw [Except.map_eq_ok] at read
    obtain ⟨_, valuesRead, rfl⟩ := read
    exact everywhere_readSetValues everywhere valuesRead
  case pull =>
    rw [Except.map_eq_ok] at read
    obtain ⟨_, conditionRead, rfl⟩ := read
    exact Condition.everywhere_of_ofDocument everywhere conditionRead
  case pop => split at read <;> cases read <;> simp [documents]

theorem everywhere_setValuesDocument (safe : WireSafe holds) {values : List Document}
    (everywhere : ∀ value ∈ values, value.Everywhere holds) :
    (setValuesDocument values).Everywhere holds := by
  unfold setValuesDocument
  split
  · split
    · exact safe.everywhere_single _ (safe.everywhere_array everywhere)
    · simpa using everywhere
  · exact safe.everywhere_single _ (safe.everywhere_array everywhere)

theorem everywhere_operandDocument (safe : WireSafe holds) {edit : Edit}
    (carries : ∀ value ∈ edit.documents, value.Everywhere holds) :
    edit.operandDocument.Everywhere holds := by
  cases edit with
  | set | min | max | inc | mul => exact carries _ (List.mem_singleton.2 rfl)
  | unset | rename => exact safe.everywhere_string _
  | bit steps =>
      refine safe.everywhere_ofPairs fun pair member => ?_
      obtain ⟨step, _, rfl⟩ := List.mem_map.1 member
      cases step <;> exact safe.everywhere_int _
  | currentDate form =>
      cases form with
      | date => exact safe.everywhere_bool true
      | timestamp => exact safe.everywhere_single _ (safe.everywhere_string _)
  | push operand => exact Push.everywhere_toDocument safe carries
  | addToSet values => exact everywhere_setValuesDocument safe carries
  | pull condition => exact Condition.everywhere_toDocument safe carries
  | pop side => cases side <;> exact safe.everywhere_int _

end Edit

namespace Update

/-- The documents that the update writes or compares with. -/
def documents (update : Update) : List Document :=
  update.entries.toList.flatMap fun entry => entry.edit.documents

/-- The property holds of every document that the update carries. -/
def Carries (holds : Document → Prop) (update : Update) : Prop :=
  ∀ value ∈ update.documents, holds value

theorem carries_iff {update : Update} :
    update.Carries holds ↔
      ∀ entry ∈ update.entries.toList, ∀ value ∈ entry.edit.documents, holds value := by
  simp only [Carries, documents, List.mem_flatMap, forall_exists_index, and_imp]
  exact ⟨fun carries entry member value inEdit => carries value entry member inEdit,
    fun carries value entry member inEdit => carries entry member value inEdit⟩

theorem carries_of_ofDocument {document : Document} {update : Update}
    (everywhere : document.Everywhere holds) (read : ofDocument document = .ok update) :
    update.Carries (Everywhere holds) := by
  obtain ⟨members, rfl⟩ := exists_members_of_ofDocument read
  have members := (everywhere_object.1 everywhere).2
  refine carries_iff.2 (forall_entries_of_ofDocument
    (fun pair inMembers => by simpa [Edit.documents] using members pair inMembers) ?_ read)
  intro member inMembers operator _ payload payloadEq pair inPayload edit editRead
  have payloadEverywhere := members member inMembers
  rw [payloadEq, everywhere_object] at payloadEverywhere
  exact Edit.everywhere_of_ofDocument (payloadEverywhere.2 pair inPayload) editRead

theorem nodup_names_groups (update : Update) :
    (update.groups.map fun group => group.1.name).Nodup := by
  have names : (Operator.all.map Operator.name).Nodup := by decide
  refine names.sublist ?_
  rw [groups]
  refine (List.filter_sublist.map _).trans ?_
  rw [List.map_map]
  exact List.Sublist.refl _

theorem everywhere_toDocument (safe : WireSafe holds) {update : Update}
    (carries : update.Carries (Everywhere holds)) : update.toDocument.Everywhere holds := by
  refine safe.everywhere_object ?_ fun member inGroups => ?_
  · simpa [Members.keys, Function.comp_def] using update.nodup_names_groups
  · obtain ⟨group, inUpdate, rfl⟩ := List.mem_map.1 inGroups
    refine safe.everywhere_ofPairs fun pair inPayload => ?_
    obtain ⟨entry, inGroup, rfl⟩ := List.mem_map.1 inPayload
    rw [(mem_groups.1 inUpdate).1, mem_entriesOf] at inGroup
    exact Edit.everywhere_operandDocument safe (carries_iff.1 carries entry inGroup.1)

theorem carries_keysDistinct_iff {update : Update} :
    update.Carries KeysDistinct ↔ update.Carries (Everywhere TopKeysDistinct) :=
  forall₂_congr fun _ _ => keysDistinct_iff_everywhere

/-- The stored form carries what the update carries. -/
theorem Carries.stored {update parsed : Update} (carries : update.Carries (Everywhere holds))
    (safe : WireSafe holds) (succeeds : update.stored = .ok parsed) :
    parsed.Carries (Everywhere holds) :=
  carries_of_ofDocument (everywhere_toDocument safe carries) succeeds

theorem keysDistinct_toDocument {update : Update} (carries : update.Carries KeysDistinct) :
    update.toDocument.KeysDistinct :=
  keysDistinct_iff_everywhere.2
    (everywhere_toDocument wireSafe_topKeysDistinct (carries_keysDistinct_iff.1 carries))

theorem carries_keysDistinct_of_ofDocument {document : Document} {update : Update}
    (distinct : document.KeysDistinct) (read : ofDocument document = .ok update) :
    update.Carries KeysDistinct :=
  carries_keysDistinct_iff.2 (carries_of_ofDocument (keysDistinct_iff_everywhere.1 distinct) read)

theorem carries_keysDistinct_of_stored {update parsed : Update}
    (carries : update.Carries KeysDistinct) (succeeds : update.stored = .ok parsed) :
    parsed.Carries KeysDistinct :=
  carries_keysDistinct_of_ofDocument (keysDistinct_toDocument carries) succeeds

end Update

end LocalFirst
