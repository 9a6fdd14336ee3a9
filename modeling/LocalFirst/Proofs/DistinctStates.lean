import LocalFirst.Proofs.DistinctKeys
import LocalFirst.Proofs.TakingPart

/-!
# States in which no key repeats

What is read from a document has no other documents than those within it, so a state that is read
where no key repeats repeats none itself.  An entity that has been read has its commits in stored
form.
-/

namespace LocalFirst

open Document

namespace Record

variable {record : Record} {key : String} {value : Document}

theorem eq_object_of_ofDocument {typeName : String} {document : Document}
    (read : ofDocument typeName document = .ok record) : document = .object record.members := by
  cases document with
  | object members =>
      cases read
      rfl
  | _ => cases read

theorem get?_of_required (read : record.required key = .ok value) :
    Members.get? key record.members = some value := by
  unfold required at read
  split at read
  next found => exact Except.ok.inj read ▸ found
  · cases read

theorem get?_of_optional? (read : record.optional? key = some value) :
    Members.get? key record.members = some value :=
  (Option.filter_eq_some_iff.1 read).1

theorem exists_items_of_typedList {α : Type} [DocumentForm α] {values : List α}
    (read : record.typedList key = .ok values) :
    ∃ items, Members.get? key record.members = some (.array items) ∧
      items.mapM DocumentForm.ofDocument = .ok values := by
  simp only [typedList, Except.bind_eq_ok] at read
  obtain ⟨value, found, read⟩ := read
  split at read
  next items => exact ⟨items, get?_of_required found, read⟩
  · cases read

end Record

namespace EntityInfo

/-- No key repeats in what is known of the entity. -/
structure RepeatsNoKey (info : EntityInfo) : Prop where
  origin : info.origin.KeysDistinct
  commits : ∀ commit ∈ info.commits, commit.Carries Document.KeysDistinct
  head : ∀ head, info.head = some head → head.KeysDistinct

/-- The entity has been read from a document in which no key repeats. -/
def Restored (info : EntityInfo) : Prop :=
  ∃ entity : Document, entity.KeysDistinct ∧ ofDocument entity = .ok info

variable {info : EntityInfo}

theorem repeatsNoKey_clean {origin : Document} (distinct : origin.KeysDistinct)
    (versionId : Option String) : (clean origin versionId).RepeatsNoKey where
  origin := distinct
  commits := by simp [clean]
  head := by simp [clean]

theorem RepeatsNoKey.current (distinct : info.RepeatsNoKey) : info.current.KeysDistinct := by
  unfold EntityInfo.current
  cases headEq : info.head with
  | none => exact distinct.origin
  | some head => exact distinct.head head headEq

theorem keysDistinct_ofOptionalString (text : Option String) :
    (ofOptionalString text).KeysDistinct := by
  cases text <;> trivial

theorem RepeatsNoKey.toDocument (distinct : info.RepeatsNoKey) : info.toDocument.KeysDistinct := by
  have headDistinct : (info.head.getD .null).KeysDistinct := by
    cases headEq : info.head with
    | none => trivial
    | some head => exact distinct.head head headEq
  refine keysDistinct_object.2 ⟨by simp, ?_⟩
  simp only [List.forall_mem_cons, List.not_mem_nil, false_imp_iff, implies_true, and_true]
  have commitsDistinct := keysDistinct_array_map fun commit member =>
    Update.keysDistinct_toDocument (distinct.commits commit member)
  exact ⟨distinct.origin, keysDistinct_ofOptionalString _, commitsDistinct, headDistinct⟩

theorem Restored.exists_fields (restored : info.Restored) :
    ∃ commits : List Document, (∀ commit ∈ commits, commit.KeysDistinct) ∧
      commits.mapM Update.ofDocument = .ok info.commits ∧ info.origin.KeysDistinct ∧
      ∀ head, info.head = some head → head.KeysDistinct := by
  obtain ⟨entity, distinct, read⟩ := restored
  simp only [ofDocument, Except.bind_eq_ok, Except.pure_eq_ok] at read
  obtain ⟨record, recordRead, origin, originRead, _, _, _, commitsRead, rfl⟩ := read
  obtain rfl := Record.eq_object_of_ofDocument recordRead
  have fields : ∀ key value, Members.get? key record.members = some value → value.KeysDistinct :=
    fun key value found =>
      (keysDistinct_object.1 distinct).2 (key, value) (Members.mem_of_get? found)
  obtain ⟨commits, found, read⟩ := Record.exists_items_of_typedList commitsRead
  exact ⟨commits, keysDistinct_array.1 (fields _ _ found), read,
    fields _ _ (Record.get?_of_required originRead),
    fun head headEq => fields _ _ (Record.get?_of_optional? headEq)⟩

theorem Restored.repeatsNoKey (restored : info.Restored) : info.RepeatsNoKey := by
  obtain ⟨commits, commitsDistinct, read, originDistinct, headDistinct⟩ := restored.exists_fields
  refine ⟨originDistinct, fun commit member => ?_, headDistinct⟩
  obtain ⟨document, inCommits, commitRead⟩ := Except.exists_mem_of_mapM read member
  exact Update.carries_keysDistinct_of_ofDocument (commitsDistinct document inCommits) commitRead

theorem Restored.stored (restored : info.Restored) :
    ∀ commit ∈ info.commits, commit.stored = .ok commit := by
  obtain ⟨commits, commitsDistinct, read, _⟩ := restored.exists_fields
  intro commit member
  obtain ⟨document, inCommits, commitRead⟩ := Except.exists_mem_of_mapM read member
  exact Update.stored_of_written
    (Update.written_of_ofDocument (commitsDistinct document inCommits) commitRead)

end EntityInfo

namespace LocalState

/-- No key repeats in any part of the state. -/
structure RepeatsNoKey (state : LocalState) : Prop where
  entities : ∀ entityName id info, state.find? entityName id = some info → info.RepeatsNoKey
  session : ∀ session, state.session = some session → session.values.KeysDistinct

variable {now : Instant} {state next : LocalState} {document : Document} {update : Update}

theorem keysDistinct_toDocument_session {session : Session}
    (distinct : session.values.KeysDistinct) : session.toDocument.KeysDistinct := by
  refine keysDistinct_object.2 ⟨by simp, ?_⟩
  simp only [List.forall_mem_cons, List.not_mem_nil, false_imp_iff, implies_true, and_true]
  exact ⟨trivial, trivial, EntityInfo.keysDistinct_ofOptionalString _,
    EntityInfo.keysDistinct_ofOptionalString _, distinct⟩

theorem keysDistinct_mapDocument {α : Type} (map : NameMap α) (write : α → Document)
    (distinct : ∀ name value, map.get? name = some value → (write value).KeysDistinct) :
    (Document.object (map.toList.map fun member => (member.1, write member.2))).KeysDistinct := by
  refine keysDistinct_object.2 ⟨NameMap.nodup_keys_map_toList map write, fun pair inPairs => ?_⟩
  obtain ⟨member, inMap, rfl⟩ := List.mem_map.1 inPairs
  refine distinct member.1 member.2 ?_
  rw [NameMap.get?_eq]
  exact Members.get?_of_mem (NameMap.nodup_keys map) inMap

theorem RepeatsNoKey.entitiesDocument (distinct : state.RepeatsNoKey) :
    (entitiesDocument state.entities).KeysDistinct :=
  keysDistinct_mapDocument state.entities _ fun entityName _ found =>
    keysDistinct_mapDocument _ _ fun id info infoFound =>
      (distinct.entities entityName id info
        (Option.bind_eq_some_iff.2 ⟨_, found, infoFound⟩)).toDocument

theorem keysDistinct_toDocument_unreached (commit : UnreachedCommit) :
    commit.toDocument.KeysDistinct :=
  ⟨by simp, trivial, trivial, trivial, trivial⟩

theorem keysDistinct_toDocument_error (error : LocalError) : error.toDocument.KeysDistinct :=
  ⟨by simp, trivial, trivial, trivial, trivial, trivial⟩

theorem keysDistinct_strings (texts : List String) :
    (Document.array (texts.map .string)).KeysDistinct :=
  keysDistinct_array_map fun text _ => keysDistinct_string text

theorem RepeatsNoKey.toDocument (distinct : state.RepeatsNoKey) :
    state.toDocument.KeysDistinct := by
  have queue :
      (Document.array (state.unreachedCommits.map UnreachedCommit.toDocument)).KeysDistinct :=
    keysDistinct_array_map fun commit _ => keysDistinct_toDocument_unreached commit
  have network : state.network.toDocument.KeysDistinct :=
    ⟨by simp, keysDistinct_strings state.network.requests, trivial, trivial⟩
  have session : ∀ member ∈ (state.session.map
      (fun session => ("session", session.toDocument))).toList, member.2.KeysDistinct := by
    cases sessionEq : state.session with
    | none => simp
    | some session =>
        simpa using keysDistinct_toDocument_session (distinct.session session sessionEq)
  have error : ∀ member ∈ (state.error.map
      (fun error => ("error", error.toDocument))).toList, member.2.KeysDistinct := by
    cases state.error with
    | none => simp
    | some error => simpa using keysDistinct_toDocument_error error
  refine keysDistinct_object.2 ⟨?_, List.forall_mem_append.2 ⟨List.forall_mem_append.2 ⟨?_,
    session⟩, error⟩⟩
  · cases state.session <;> cases state.error <;> simp
  · simp only [List.forall_mem_cons, List.not_mem_nil, false_imp_iff, implies_true, and_true]
    exact ⟨distinct.entitiesDocument, queue, network⟩

theorem restored_of_readNamed {entityName : String} {infos : NameMap EntityInfo}
    (distinct : document.KeysDistinct) (read : readNamed entityName document = .ok infos)
    {id : String} {info : EntityInfo} (found : infos.get? id = some info) : info.Restored := by
  unfold readNamed at read
  split at read
  next members =>
    rw [Except.bind_eq_ok] at read
    obtain ⟨infoList, membersRead, collected⟩ := read
    change Members.readEach (fun _ entity => EntityInfo.ofDocument entity) members = .ok infoList
      at membersRead
    rw [← Except.ok.inj collected] at found
    obtain ⟨entity, inDocument, entityRead⟩ :=
      Members.exists_mem_of_readEach membersRead (NameMap.mem_of_get?_ofList found)
    exact ⟨entity, (keysDistinct_object.1 distinct).2 _ inDocument, entityRead⟩
  · cases read

theorem restored_of_readEntities {entities : Option Document} {read : EntityMap}
    (distinct : ∀ document, entities = some document → document.KeysDistinct)
    (entitiesRead : readEntities entities = .ok read) {entityName id : String} {info : EntityInfo}
    (found : lookUp read entityName id = some info) : info.Restored := by
  obtain ⟨infos, nameFound, idFound⟩ := Option.bind_eq_some_iff.1 found
  unfold readEntities at entitiesRead
  split at entitiesRead
  · cases entitiesRead
    cases nameFound
  next members =>
    rw [Except.bind_eq_ok] at entitiesRead
    obtain ⟨named, namedRead, collected⟩ := entitiesRead
    change Members.readEach readNamed members = .ok named at namedRead
    rw [← Except.ok.inj collected] at nameFound
    obtain ⟨document, inEntities, infosRead⟩ :=
      Members.exists_mem_of_readEach namedRead (NameMap.mem_of_get?_ofList nameFound)
    have documentDistinct := (keysDistinct_object.1 (distinct _ rfl)).2 _ inEntities
    exact restored_of_readNamed documentDistinct infosRead idFound
  · cases entitiesRead

/-- The entities of a state are read from documents within the document of the state. -/
theorem restored_of_ofDocument (distinct : document.KeysDistinct)
    (read : ofDocument document = .ok state) {entityName id : String} {info : EntityInfo}
    (found : state.find? entityName id = some info) : info.Restored := by
  obtain ⟨record, members, entitiesRead, _⟩ := ofDocument_eq_ok read
  refine restored_of_readEntities (fun entities there => ?_) entitiesRead found
  exact distinct.get? ((members _).symm.trans (Record.get?_of_optional? there))

theorem keysDistinct_session_of_ofDocument {session : Session} (distinct : document.KeysDistinct)
    (read : Session.ofDocument document = .ok session) : session.values.KeysDistinct := by
  simp only [Session.ofDocument, Except.bind_eq_ok, Except.pure_eq_ok] at read
  obtain ⟨record, recordRead, _, _, _, _, _, _, _, _, rfl⟩ := read
  obtain rfl := Record.eq_object_of_ofDocument recordRead
  cases valuesRead : record.optional? "values" with
  | none => trivial
  | some values =>
      exact (keysDistinct_object.1 distinct).2 ("values", values)
        (Members.mem_of_get? (Record.get?_of_optional? valuesRead))

theorem repeatsNoKey_of_ofDocument (distinct : document.KeysDistinct)
    (read : ofDocument document = .ok state) : state.RepeatsNoKey where
  entities _ _ _ found := (restored_of_ofDocument distinct read found).repeatsNoKey
  session session sessionEq := by
    obtain ⟨record, members, _, _, _, sessionRead, _⟩ := ofDocument_eq_ok read
    rw [sessionEq, Record.optionalTyped] at sessionRead
    split at sessionRead
    · cases sessionRead
    next document there =>
      rw [Except.map_eq_ok] at sessionRead
      obtain ⟨_, documentRead, ⟨⟩⟩ := sessionRead
      have documentDistinct : document.KeysDistinct :=
        distinct.get? ((members _).symm.trans (Record.get?_of_optional? there))
      exact keysDistinct_session_of_ofDocument documentDistinct documentRead

/-- What updates make of the whole state has been read from a document. -/
theorem RepeatsNoKey.exists_of_applyAll {updates : List Update} (distinct : state.RepeatsNoKey)
    (carry : ∀ update ∈ updates, update.Carries Document.KeysDistinct)
    (applied : state.applyAll now updates = .ok next) :
    ∃ document : Document, document.KeysDistinct ∧ ofDocument document = .ok next := by
  rw [applyAll, Except.mapError_eq_ok, Update.applyTo, Except.bind_eq_ok] at applied
  obtain ⟨document, updated, read⟩ := applied
  exact ⟨document, Update.keysDistinct_applyAll carry distinct.toDocument updated, read⟩

theorem RepeatsNoKey.scopedTo (distinct : state.RepeatsNoKey) (touched : List (String × String)) :
    (state.scopedTo touched).RepeatsNoKey where
  entities entityName id info found := by
    rw [find?_scopedTo] at found
    split at found
    · exact distinct.entities entityName id info found
    · cases found
  session := distinct.session

/-- What a command changes has been read from a document: entities that it touches, or the state
as a whole. -/
theorem RepeatsNoKey.exists_of_applyCommand (distinct : state.RepeatsNoKey)
    (carries : update.Carries Document.KeysDistinct)
    (applied : state.applyCommand now update = .ok next) :
    next = state ∨ ∃ (document : Document) (result : LocalState), document.KeysDistinct ∧
      ofDocument document = .ok result ∧ next.session = result.session ∧
      ∀ entityName id, next.find? entityName id = state.find? entityName id ∨
        next.find? entityName id = result.find? entityName id := by
  cases empty : update.isEmpty with
  | true =>
      rw [applyCommand, if_pos empty] at applied
      exact .inl (Except.ok.inj applied).symm
  | false =>
      cases reaches : touchedEntities update with
      | none =>
          simp only [applyCommand, empty, reaches, Bool.false_eq_true, if_false] at applied
          obtain ⟨document, documentDistinct, read⟩ :=
            distinct.exists_of_applyAll (List.forall_mem_singleton.2 carries) applied
          exact .inr ⟨document, next, documentDistinct, read, rfl, fun _ _ => .inr rfl⟩
      | some touched =>
          obtain ⟨document, result, updated, read, looked, _, _, sameSession, _⟩ :=
            applyCommand_eq_ok empty reaches applied
          refine .inr ⟨document, result, ?_, read, sameSession, fun entityName id => ?_⟩
          · exact Update.keysDistinct_apply carries (distinct.scopedTo touched).toDocument updated
          · rw [looked]
            split
            · exact .inr rfl
            · exact .inl rfl

/-- After a command, an entity is as before or has been read from a document. -/
theorem RepeatsNoKey.restored_of_applyCommand (distinct : state.RepeatsNoKey)
    (carries : update.Carries Document.KeysDistinct)
    (applied : state.applyCommand now update = .ok next) {entityName id : String}
    {info : EntityInfo} (found : next.find? entityName id = some info) :
    state.find? entityName id = some info ∨ info.Restored := by
  rcases distinct.exists_of_applyCommand carries applied with
    rfl | ⟨document, result, documentDistinct, read, _, looked⟩
  · exact .inl found
  · rcases looked entityName id with same | fromResult
    · exact .inl (same ▸ found)
    · exact .inr (restored_of_ofDocument documentDistinct read (fromResult ▸ found))

theorem RepeatsNoKey.applyCommand (distinct : state.RepeatsNoKey)
    (carries : update.Carries Document.KeysDistinct)
    (applied : state.applyCommand now update = .ok next) : next.RepeatsNoKey where
  entities entityName id info found :=
    (distinct.restored_of_applyCommand carries applied found).elim
      (distinct.entities entityName id info) EntityInfo.Restored.repeatsNoKey
  session session sessionEq := by
    rcases distinct.exists_of_applyCommand carries applied with
      rfl | ⟨document, result, documentDistinct, read, sameSession, _⟩
    · exact distinct.session session sessionEq
    · exact (repeatsNoKey_of_ofDocument documentDistinct read).session session
        (sameSession ▸ sessionEq)

end LocalState

end LocalFirst
