import LocalFirst.Proofs.ScopedApplication

/-!
# States that can be read back

An action lowers a part of the state to a document and reads the changed document.  What can keep it
from being read are the entities and the counts of the queue, which are stored as signed numbers.  A
state that an action has given has counts that can be read.
-/

namespace LocalFirst

namespace UnreachedCommit

theorem ofDocument_toDocument {commit : UnreachedCommit}
    (small : ¬ commit.commitCount.toInt64 < 0) : ofDocument commit.toDocument = .ok commit := by
  have read : ofDocument commit.toDocument =
      if commit.commitCount.toInt64 < 0 then
        .error (.restore "UnreachedCommit" (.negative "commitCount"))
      else .ok ⟨commit.entityName, commit.id, commit.commitCount.toInt64.toUInt64⟩ := rfl
  rw [read, if_neg small]
  simp

/-- A count that was read is not negative. -/
theorem ofDocument_toDocument_of_read {document : Document} {commit : UnreachedCommit}
    (read : ofDocument document = .ok commit) : ofDocument commit.toDocument = .ok commit := by
  simp only [ofDocument, Except.bind_eq_ok] at read
  obtain ⟨record, _, count, _, entityName, _, id, _, read⟩ := read
  split at read
  · cases read
  next small =>
    cases read
    exact ofDocument_toDocument (by simpa using small)

/-- A count that fits into a signed number is read back. -/
theorem ofDocument_toDocument_of_lt {commit : UnreachedCommit}
    (small : commit.commitCount.toNat < Nat.pow 2 63) :
    ofDocument commit.toDocument = .ok commit := by
  have small : commit.commitCount.toNat < 2 ^ 63 := small
  refine ofDocument_toDocument fun negative => ?_
  have isNat : commit.commitCount.toInt64.toInt = commit.commitCount.toNat :=
    BitVec.toInt_eq_toNat_of_lt (show 2 * commit.commitCount.toNat < 2 ^ 64 by omega)
  rw [Int64.lt_iff_toInt_lt, isNat, Int64.toInt_zero] at negative
  omega

end UnreachedCommit

/-- Setting an entity as a whole goes through when the entity can be addressed. -/
theorem Entry.exists_run_set {document : Document} {entityName id : String}
    (holds : document.HoldsEntities) (addressable : (entityPath entityName id).fault? = none)
    (now : Instant) (value : Document) :
    ∃ result, Entry.run now document ⟨entityPath entityName id, .set value⟩ = .ok result := by
  obtain ⟨isObject, entities, found, entitiesObject, _, namedObjects⟩ := holds
  have sets : ∀ named : Document, named.IsObject →
      named.updateParent true (Edit.act now (.set value)) [id] = .ok (named.put id value) :=
    fun named namedObject => Document.setChild_of_isObject namedObject id value
  have updates : ∃ changed,
      entities.updateParent true (Edit.act now (.set value)) [entityName, id] = .ok changed := by
    cases namedFound : entities.get? entityName with
    | some named =>
        have namedObject := (namedObjects entityName named namedFound).1
        rw [Document.updateParent_of_get? entitiesObject namedFound, sets named namedObject]
        exact ⟨_, Document.setChild_of_isObject entitiesObject _ _⟩
    | none =>
        rw [Document.updateParent_of_missing entitiesObject namedFound,
          sets _ Document.isObject_emptyObject]
        exact ⟨_, Document.setChild_of_isObject
          (Document.isObject_put entitiesObject _ _) _ _⟩
  obtain ⟨changed, entitiesUpdated⟩ := updates
  have updated : document.updateParent true (Edit.act now (.set value))
      (entityPath entityName id).segments = .ok (document.put "entities" changed) := by
    rw [entityPath, Document.updateParent_of_get? isObject found, entitiesUpdated]
    exact Document.setChild_of_isObject isObject _ _
  rw [run_of_not_rename (by simp [Edit.operator]), Document.atParent, addressable]
  exact ⟨_, congrArg (blame _ _) updated⟩

/-- Setting a field of an entity goes through when the entity is there. -/
theorem Entry.exists_run_set_field {document entity : Document} {entityName id field : String}
    (holds : document.HoldsEntities) (found : document.entityAt entityName id = some entity)
    (isObject : entity.IsObject)
    (addressable : (entityField entityName id field).fault? = none) (now : Instant)
    (value : Document) :
    ∃ result, Entry.run now document ⟨entityField entityName id field, .set value⟩ =
      .ok result := by
  obtain ⟨documentObject, entities, entitiesFound, entitiesObject, _, namedObjects⟩ := holds
  rw [Document.entityAt, entitiesFound, Option.bind_some, Option.bind_eq_some_iff] at found
  obtain ⟨named, namedFound, entityFound⟩ := found
  have namedObject := (namedObjects entityName named namedFound).1
  have updated : ∃ result, document.updateParent true (Edit.act now (.set value))
      (entityField entityName id field).segments = .ok result := by
    change ∃ result, document.updateParent true _ ["entities", entityName, id, field] = .ok result
    rw [Document.updateParent_of_get? documentObject entitiesFound,
      Document.updateParent_of_get? entitiesObject namedFound,
      Document.updateParent_of_get? namedObject entityFound]
    simp only [Document.updateParent, Edit.act, Document.setChild_of_isObject isObject,
      Document.setChild_of_isObject namedObject, Document.setChild_of_isObject entitiesObject,
      Document.setChild_of_isObject documentObject, bind, Except.bind]
    exact ⟨_, rfl⟩
  obtain ⟨result, updated⟩ := updated
  rw [run_of_not_rename (by simp [Edit.operator]), Document.atParent, addressable]
  exact ⟨result, congrArg (blame _ _) updated⟩

theorem Entry.fault?_of_run {now : Instant} {entry : Entry} {document result : Document}
    (notRename : entry.edit.operator ≠ .rename) (ran : entry.run now document = .ok result) :
    entry.path.fault? = none := by
  rw [run_of_not_rename notRename, blame, Except.mapError_eq_ok, Document.atParent] at ran
  split at ran
  · cases ran
  next sound => exact sound

namespace LocalState

/-- Each entry of the queue is read back from its document. -/
def QueueReads (state : LocalState) : Prop :=
  ∀ commit ∈ state.unreachedCommits, UnreachedCommit.ofDocument commit.toDocument = .ok commit

theorem queueReads_of_ofDocument {document : Document} {state : LocalState}
    (read : ofDocument document = .ok state) : state.QueueReads := by
  obtain ⟨record, _, _, commitsRead, _⟩ := ofDocument_eq_ok read
  simp only [Record.typedList, Except.bind_eq_ok] at commitsRead
  obtain ⟨value, _, commitsRead⟩ := commitsRead
  split at commitsRead
  · intro commit member
    obtain ⟨_, _, commitRead⟩ := Except.exists_mem_of_mapM commitsRead member
    exact UnreachedCommit.ofDocument_toDocument_of_read commitRead
  · simp at commitsRead

/-- What a command has made of the state was read from a document. -/
theorem queueReads_of_applyCommand {now : Instant} {state next : LocalState} {update : Update}
    (nonempty : update.isEmpty = false) (applied : state.applyCommand now update = .ok next) :
    next.QueueReads := by
  cases reaches : touchedEntities update with
  | none =>
      have whole : state.apply now update = .ok next := by
        simpa [applyCommand, nonempty, reaches] using applied
      rw [apply_eq, Except.mapError_eq_ok, Except.bind_eq_ok] at whole
      obtain ⟨_, _, read⟩ := whole
      exact queueReads_of_ofDocument read
  | some touched =>
      rw [applyCommand_eq nonempty reaches, Except.map_eq_ok] at applied
      obtain ⟨result, part, rfl⟩ := applied
      rw [apply_eq, Except.mapError_eq_ok, Except.bind_eq_ok] at part
      obtain ⟨_, _, read⟩ := part
      have queue : result.QueueReads := queueReads_of_ofDocument read
      exact queue

/-- What stands beside the entities is read from its members.  An absent session or error may have
no member, or null. -/
theorem readBeside_eq_ok {state : LocalState} {record : Record} (queue : state.QueueReads)
    (commitsFound : Members.get? "unreachedCommits" record.members =
      some (.array (state.unreachedCommits.map UnreachedCommit.toDocument)))
    (networkFound : Members.get? "network" record.members = some state.network.toDocument)
    (sessionFound : record.optional? "session" = state.session.map Session.toDocument)
    (errorFound : record.optional? "error" = state.error.map LocalError.toDocument)
    (entities : EntityMap) :
    readBeside record entities = .ok { state with entities := entities } := by
  have queueRead : record.typedList "unreachedCommits" = .ok state.unreachedCommits := by
    simp only [Record.typedList, Record.required, commitsFound]
    exact Except.mapM_map_eq_ok queue
  have networkRead : record.typed "network" = .ok state.network := by
    simp only [Record.typed, Record.required, networkFound]
    exact state.network.ofDocument_toDocument
  have sessionRead : record.optionalTyped "session" = .ok state.session := by
    simp only [Record.optionalTyped, sessionFound]
    cases state.session with
    | none => rfl
    | some session => exact congrArg (Except.map some) session.ofDocument_toDocument
  have errorRead : record.optionalTyped "error" = .ok state.error := by
    simp only [Record.optionalTyped, errorFound]
    cases state.error with
    | none => rfl
    | some error => exact congrArg (Except.map some) error.ofDocument_toDocument
  simp only [readBeside, queueRead, networkRead, sessionRead, errorRead]
  rfl

theorem readBeside_toDocument {state : LocalState} {members : List (String × Document)}
    (isDocument : state.toDocument = .object members) (queue : state.QueueReads)
    (entities : EntityMap) :
    readBeside ⟨"LocalState", members⟩ entities = .ok { state with entities := entities } := by
  have looks : ∀ key, Members.get? key members = state.toDocument.get? key := fun key => by
    rw [isDocument, Document.get?_object]
  refine readBeside_eq_ok queue (by rw [looks, get?_unreachedCommits_toDocument])
    (by rw [looks, get?_network_toDocument]) ?_ ?_ entities
  · rw [Record.optional?, looks, get?_session_toDocument]
    cases state.session <;> rfl
  · rw [Record.optional?, looks, get?_error_toDocument]
    cases state.error <;> rfl

/-- A document that is beside the entities that of a state can be read when its entities can. -/
theorem exists_ofDocument {document : Document} {state : LocalState}
    (holds : document.HoldsEntities) (same : Document.SameBeside state.toDocument document)
    (queue : state.QueueReads)
    (readable : ∀ entityName id entity, document.entityAt entityName id = some entity →
      ∃ info, EntityInfo.ofDocument entity = .ok info) :
    ∃ result, ofDocument document = .ok result := by
  obtain ⟨isObject, entities, found, entitiesObject, distinct, namedObjects⟩ := holds
  obtain ⟨members, rfl, reads⟩ := ofDocument_eq isObject found entitiesObject
  obtain ⟨stateMembers, isDocument⟩ := (holdsEntities_toDocument state).isObject
  -- the part of the document without entities is read as no entities
  have nothing : readEntities (some (entities.namesScopedTo [])) = .ok Keyed.empty := by
    obtain ⟨names, rfl⟩ := entitiesObject
    have empty : Members.restrict
        (fun entityName => decide (entityName ∈ ([] : List (String × String)).map Prod.fst))
        (Document.idsScopedTo []) names = [] := by
      simp [Members.restrict]
    rw [Document.namesScopedTo, Document.restrict, empty]
    rfl
  have sameEntities : Except.SameErrors (readEntities (some entities))
      (readEntities (some (entities.namesScopedTo []))) :=
    sameErrors_readEntities entitiesObject distinct namedObjects
      fun entityName id entity _ entityFound =>
        readable entityName id entity (by rwa [Document.entityAt, found])
  obtain ⟨map, mapRead⟩ := (nothing ▸ sameEntities).eq_ok
  have sameMembers : ∀ key, key ≠ "entities" →
      Members.get? key members = Members.get? key stateMembers := fun key beside => by
    have looked := same key beside
    rwa [isDocument] at looked
  rw [reads, mapRead, readBeside_congr sameMembers]
  exact ⟨_, readBeside_toDocument isDocument queue map⟩

end LocalState

end LocalFirst
