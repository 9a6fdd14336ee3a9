import LocalFirst.Proofs.VersionHistory

/-!
# Requests that succeed

What a server has done when it answers a request without an error.  A push logs one version for each
of its operations, which lead from the document before it to the one after it.
-/

namespace LocalFirst

/-- The entity that a push is about. -/
def PushRequest.key (request : PushRequest) : EntityKey :=
  ⟨request.entityName, request.id⟩

/-- The operations of a push do not read the clock. -/
def Request.Timeless : Request → Prop
  | .push request => ∀ operation ∈ request.operations, operation.Timeless
  | _ => True

namespace Server

open History

theorem logOperations_cons (key : EntityKey) (previous : String) (ids : IdSource)
    (operation : Update) (operations : List Update) :
    logOperations key previous ids (operation :: operations) =
      let rest := logOperations key ids.next.1 ids.next.2 operations
      (⟨ids.next.1, some operation⟩ :: rest.1,
        ⟨key.entityName, key.id, ids.next.1, previous, operation⟩ :: rest.2.1, rest.2.2) :=
  rfl

@[simp]
theorem operations_logOperations (key : EntityKey) (previous : String) (ids : IdSource)
    (operations : List Update) :
    (logOperations key previous ids operations).1.filterMap Version.operation = operations ∧
      (logOperations key previous ids operations).2.1.map VersionDiff.operation = operations := by
  induction operations generalizing previous ids with
  | nil => exact ⟨rfl, rfl⟩
  | cons operation rest ih =>
      simp only [logOperations_cons, List.filterMap_cons, List.map_cons, ih, and_self]

theorem key_of_mem_logOperations {key : EntityKey} {previous : String} {ids : IdSource}
    {operations : List Update} :
    ∀ diff ∈ (logOperations key previous ids operations).2.1, diff.key = key := by
  induction operations generalizing previous ids with
  | nil => simp [logOperations]
  | cons operation rest ih =>
      rw [logOperations_cons]
      exact List.forall_mem_cons.2 ⟨rfl, ih⟩

theorem ids_logOperations (key : EntityKey) (previous : String) (ids : IdSource)
    (operations : List Update) :
    (logOperations key previous ids operations).2.2 =
      { ids with issued := ids.issued + operations.length } := by
  induction operations generalizing previous ids with
  | nil => rfl
  | cons operation rest ih =>
      simp only [logOperations_cons, ih, List.length_cons, IdSource.next]
      simp [Nat.add_assoc, Nat.add_comm 1]

/-- The versions are the next ones of the source, in order. -/
theorem versionIds_logOperations (key : EntityKey) (previous : String) (ids : IdSource)
    (operations : List Update) :
    (logOperations key previous ids operations).2.1.map VersionDiff.versionId =
      (List.range' ids.issued operations.length).map (IdSource.identifier ids.node) := by
  induction operations generalizing previous ids with
  | nil => rfl
  | cons operation rest ih =>
      simp only [logOperations_cons, List.map_cons, ih, List.length_cons, List.range'_succ,
        IdSource.next]

/-- The logged versions lead from the document before them to the one after them, and every
diff applies to the document held at the version before it. -/
theorem follows_logOperations {history : History} {now : Instant} {key : EntityKey}
    {previous : String} {ids : IdSource} {operations : List Update} {document result : Document}
    (logged : (logOperations key previous ids operations).2.1 ⊆ history.diffs)
    (timeless : ∀ operation ∈ operations, operation.Timeless)
    (held : history.Held key previous document)
    (applied : Update.applyAll now document operations = .ok result) :
    history.Follows key previous document (logOperations key previous ids operations).1 result ∧
      ∀ diff ∈ (logOperations key previous ids operations).2.1, ∃ document result,
        history.Held diff.key diff.prevVersionId document ∧
          ∀ now, diff.operation.apply now document = .ok result := by
  induction operations generalizing previous ids document with
  | nil =>
      cases applied
      exact ⟨.done, by simp [logOperations]⟩
  | cons operation rest ih =>
      simp only [Update.applyAll, List.foldlM_cons, Except.bind_eq_ok] at applied
      obtain ⟨next, firstApplied, applied⟩ := applied
      obtain ⟨firstTimeless, restTimeless⟩ := List.forall_mem_cons.1 timeless
      rw [logOperations_cons] at logged ⊢
      obtain ⟨firstLogged, restLogged⟩ := List.cons_subset.1 logged
      have always : ∀ later, operation.apply later document = .ok next := fun later => by
        rw [Update.apply_eq_of_timeless firstTimeless later now, firstApplied]
      have nextHeld : history.Held key ids.next.1 next :=
        Held.logged firstLogged held always
      obtain ⟨follows, diffsApply⟩ := ih restLogged restTimeless nextHeld applied
      exact ⟨.step firstLogged rfl always follows,
        List.forall_mem_cons.2 ⟨⟨document, next, held, always⟩, diffsApply⟩⟩

theorem stored?_of_stored {server : Server} {key : EntityKey} {stored : StoredEntity}
    (found : server.stored key = .ok stored) : server.stored? key = some stored := by
  unfold Server.stored at found
  split at found
  next known => rw [known, Except.ok.inj found]
  · cases found

/-- A push that succeeds logs its operations behind the versions of the entity. -/
theorem push_eq_ok {server next : Server} {request : PushRequest} {command : PushCommand}
    {diffs : List VersionDiff} (pushed : server.push request = .ok (command, diffs, next)) :
    ∃ version stored foreign current versions,
      request.versionId = some version ∧
      server.stored? ⟨request.entityName, request.id⟩ = some stored ∧
      stored.operationsSince version = .ok foreign ∧
      Update.applyAll server.clock stored.current request.operations = .ok current ∧
      (versions, diffs, next.ids) = logOperations ⟨request.entityName, request.id⟩
        stored.versionId server.ids request.operations ∧
      command = ⟨request.entityName, request.id,
        StoredEntity.versionId ⟨current, stored.versions ++ versions⟩, foreign⟩ ∧
      next = { server with
        entities := server.entities.insert
          (⟨request.entityName, request.id⟩, ⟨current, stored.versions ++ versions⟩)
        ids := next.ids } := by
  simp only [push, Except.bind_eq_ok] at pushed
  obtain ⟨_, _, pushed⟩ := pushed
  split at pushed
  next version versionEq =>
    simp only [Except.bind_eq_ok, Except.pure_eq_ok, Except.mapError_eq_ok, Prod.mk.injEq]
      at pushed
    obtain ⟨stored, storedOk, foreign, foreignOk, current, currentOk, rfl, rfl, rfl⟩ := pushed
    exact ⟨version, stored, foreign, current, _, versionEq, stored?_of_stored storedOk, foreignOk,
      currentOk, rfl, rfl, rfl⟩
  · simp at pushed

theorem pull_eq_ok {server : Server} {key : EntityKey} {version : String}
    {command : PushCommand} (pulled : server.pull key version = .ok command) :
    ∃ stored operations, server.stored? key = some stored ∧
      stored.operationsSince version = .ok operations ∧
      command = ⟨key.entityName, key.id, stored.versionId, operations⟩ := by
  simp only [pull, Except.bind_eq_ok, Except.pure_eq_ok] at pulled
  obtain ⟨_, _, stored, storedOk, operations, operationsOk, rfl⟩ := pulled
  exact ⟨stored, operations, stored?_of_stored storedOk, operationsOk, rfl⟩

theorem get_eq_ok {server : Server} {key : EntityKey} {fetched : Fetched}
    (got : server.get key = .ok fetched) :
    ∃ stored, server.stored? key = some stored ∧ fetched = ⟨stored.current, stored.versionId⟩ := by
  simp only [get, Except.bind_eq_ok, Except.pure_eq_ok] at got
  obtain ⟨_, _, stored, storedOk, rfl⟩ := got
  exact ⟨stored, stored?_of_stored storedOk, rfl⟩

theorem insert_eq_ok {server next : Server} {entityName version : String} {entity : Document}
    (inserted : server.insert entityName entity = .ok (version, next)) :
    ∃ id, (entity.get? "id").bind Document.string? = some id ∧
      server.stored? ⟨entityName, id⟩ = none ∧ version = server.ids.next.1 ∧
      next = { server with
        entities := server.entities.insert (⟨entityName, id⟩, ⟨entity, [⟨version, none⟩]⟩)
        ids := server.ids.next.2 } := by
  simp only [insert] at inserted
  split at inserted
  · cases inserted
  next id named =>
    split at inserted
    · cases inserted
    next unknown =>
      cases inserted
      exact ⟨id, named, by simpa using unknown, rfl, rfl⟩

theorem login_eq_ok {server next : Server} {command : LoginCommand} {response : LoginResponse}
    (loggedIn : server.login command = .ok (response, next)) :
    ∃ fetched, server.get ⟨command.entityName, command.userId⟩ = .ok fetched ∧
      response.user = fetched.entity ∧ response.versionId = fetched.versionId ∧
      response.session.entityName = command.entityName ∧
      next.entities = server.entities ∧ next.ids = server.ids.next.2 := by
  simp only [login, Except.bind_eq_ok] at loggedIn
  obtain ⟨_, _, loggedIn⟩ := loggedIn
  split at loggedIn
  · simp at loggedIn
  · simp only [Except.bind_eq_ok, Except.pure_eq_ok, Prod.mk.injEq] at loggedIn
    obtain ⟨fetched, got, rfl, rfl⟩ := loggedIn
    exact ⟨fetched, got, rfl, rfl, rfl, rfl, rfl⟩

theorem logout_eq_ok {server next : Server} {sessionId : String}
    (loggedOut : server.logout sessionId = .ok next) :
    next.entities = server.entities ∧ next.ids = server.ids := by
  simp only [logout, Except.bind_eq_ok] at loggedOut
  obtain ⟨_, _, loggedOut⟩ := loggedOut
  split at loggedOut
  · cases loggedOut
    exact ⟨rfl, rfl⟩
  · simp at loggedOut

theorem delete_eq_ok {server next : Server} {key : EntityKey}
    (deleted : server.delete key = .ok next) :
    next = { server with entities := server.entities.erase key } := by
  simp only [delete, Except.bind_eq_ok, Except.pure_eq_ok] at deleted
  obtain ⟨_, _, _, _, rfl⟩ := deleted
  rfl

end Server

end LocalFirst
