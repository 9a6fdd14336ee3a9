import LocalFirst.Proofs.ServerRuns

/-!
# What a server has held

Along every run the history accounts for the server: the log of a stored entity begins with the
version of its insertion, and its document is the one held at its latest version.  What the server
answers can therefore be told by the history, which keeps also what the server has deleted.
-/

namespace LocalFirst

namespace History

open Server

/-- A server that knows no more entities and takes its identifiers from the same source. -/
theorem Accounts.of_stored {history : History} {server next : Server}
    (accounts : history.Accounts server)
    (stored : ∀ key stored, next.stored? key = some stored → server.stored? key = some stored)
    (node : next.ids.node = server.ids.node) (issued : server.ids.issued ≤ next.ids.issued) :
    history.Accounts next where
  issued version member := by
    obtain ⟨count, below, same⟩ := accounts.issued version member
    exact ⟨count, by omega, by rw [node, same]⟩
  nodup := accounts.nodup
  timeless := accounts.timeless
  applied := accounts.applied
  logs key entity found := accounts.logs key entity (stored key entity found)

/-- Versions that the source has not issued yet are not in the history. -/
theorem Accounts.fresh {history : History} {server : Server} (accounts : history.Accounts server)
    {count : Nat} (notYet : server.ids.issued ≤ count) :
    IdSource.identifier server.ids.node count ∉ history.versionIds := by
  intro member
  obtain ⟨earlier, below, same⟩ := accounts.issued _ member
  obtain ⟨-, rfl⟩ := IdSource.identifier_inj.1 same
  omega

theorem Accounts.applied_mono {history longer : History} {server : Server}
    (accounts : history.Accounts server) (grows : history.Extends longer) :
    ∀ diff ∈ history.diffs, ∃ document result,
      longer.Held diff.key diff.prevVersionId document ∧
        ∀ now, diff.operation.apply now document = .ok result := by
  intro diff member
  obtain ⟨document, result, held, applied⟩ := accounts.applied diff member
  exact ⟨document, result, held.mono grows, applied⟩

theorem Accounts.insert {history : History} {server next : Server}
    {entityName id version : String} {entity : Document} (accounts : history.Accounts server)
    (inserted : server.insert entityName entity = .ok (version, next))
    (named : (entity.get? "id").bind Document.string? = some id) :
    (history.withInserted ⟨entityName, id⟩ version entity).Accounts next := by
  obtain ⟨id', named', _, versionEq, nextEq⟩ := insert_eq_ok inserted
  obtain rfl := Option.some.inj (named.symm.trans named')
  have grows := history.extends_withInserted ⟨entityName, id⟩ version entity
  have versionIds : (history.withInserted ⟨entityName, id⟩ version entity).versionIds.Perm
      (version :: history.versionIds) := by
    simp only [History.versionIds, withInserted, List.map_append, List.append_assoc]
    exact List.perm_middle
  have fresh : version ∉ history.versionIds := versionEq ▸ accounts.fresh (Nat.le_refl _)
  refine ⟨?_, ?_, accounts.timeless, accounts.applied_mono grows, ?_⟩
  · intro other member
    rw [versionIds.mem_iff, List.mem_cons] at member
    rcases member with rfl | member
    · exact ⟨server.ids.issued, by rw [nextEq]; exact Nat.lt_succ_self _,
        by rw [nextEq]; exact versionEq⟩
    · obtain ⟨count, below, same⟩ := accounts.issued other member
      exact ⟨count, by rw [nextEq]; exact Nat.lt_succ_of_lt below, by rw [nextEq]; exact same⟩
  · exact versionIds.nodup_iff.2 (List.nodup_cons.2 ⟨fresh, accounts.nodup⟩)
  · intro key stored found
    rw [nextEq, stored?_insert] at found
    split at found
    next same =>
      cases found
      exact ⟨version, entity, [], rfl, by simp [withInserted, same], .done⟩
    · exact (accounts.logs key stored found).mono grows

/-- A push that succeeds extends the log of its entity by its operations. -/
theorem Accounts.push_follows {history : History} {server next : Server} {request : PushRequest}
    {command : PushCommand} {diffs : List VersionDiff} (accounts : history.Accounts server)
    (timeless : ∀ operation ∈ request.operations, operation.Timeless)
    (pushed : server.push request = .ok (command, diffs, next)) :
    ∃ version stored foreign current versions,
      request.versionId = some version ∧ server.stored? request.key = some stored ∧
      stored.operationsSince version = .ok foreign ∧
      (versions, diffs, next.ids) =
        logOperations request.key stored.versionId server.ids request.operations ∧
      command = ⟨request.entityName, request.id, lastOf stored.versionId versions, foreign⟩ ∧
      next = { server with
        entities := server.entities.insert (request.key, ⟨current, stored.versions ++ versions⟩)
        ids := next.ids } ∧
      (history.logged diffs).Follows request.key stored.versionId stored.current versions current ∧
      ∀ diff ∈ diffs, ∃ document result,
        (history.logged diffs).Held diff.key diff.prevVersionId document ∧
          ∀ now, diff.operation.apply now document = .ok result := by
  obtain ⟨version, stored, foreign, current, versions, versionEq, found, since, applied, logged,
    commandEq, nextEq⟩ := push_eq_ok pushed
  have versionsEq := congrArg Prod.fst logged
  have diffsEq := congrArg (fun logged => logged.2.1) logged
  simp only at versionsEq diffsEq
  have within : (logOperations request.key stored.versionId server.ids request.operations).2.1 ⊆
      (history.logged diffs).diffs := by
    rw [PushRequest.key, ← diffsEq]
    exact List.subset_append_right _ _
  obtain ⟨first, document, later, versionsOf, member, logFollows⟩ :=
    (accounts.logs _ stored found).mono (history.extends_logged diffs)
  have lastHeld : (history.logged diffs).Held request.key stored.versionId stored.current := by
    rw [versionId_of_versions versionsOf]
    exact logFollows.held (.inserted member)
  obtain ⟨follows, diffsApply⟩ := follows_logOperations within timeless lastHeld applied
  refine ⟨version, stored, foreign, current, versions, versionEq, found, since, logged,
    versionId_append versionsOf current versions ▸ commandEq, nextEq, ?_, ?_⟩
  · rw [versionsEq]
    exact follows
  · intro diff member
    exact diffsApply diff (diffsEq ▸ member)

theorem Accounts.push {history : History} {server next : Server} {request : PushRequest}
    {command : PushCommand} {diffs : List VersionDiff} (accounts : history.Accounts server)
    (timeless : ∀ operation ∈ request.operations, operation.Timeless)
    (pushed : server.push request = .ok (command, diffs, next)) :
    (history.logged diffs).Accounts next := by
  obtain ⟨version, stored, foreign, current, versions, _, found, _, logged, _, nextEq, follows,
    diffsApply⟩ := accounts.push_follows timeless pushed
  have grows := history.extends_logged diffs
  have diffsEq := congrArg (fun logged => logged.2.1) logged
  have idsEq := (congrArg (fun logged => logged.2.2) logged).trans (ids_logOperations _ _ _ _)
  simp only at diffsEq idsEq
  have newIds : diffs.map VersionDiff.versionId =
      (List.range' server.ids.issued request.operations.length).map
        (IdSource.identifier server.ids.node) := by
    rw [diffsEq, versionIds_logOperations]
  refine ⟨?_, ?_, ?_, ?_, ?_⟩
  · intro other member
    rw [idsEq]
    rw [versionIds_logged, List.mem_append] at member
    rcases member with old | new
    · obtain ⟨count, below, same⟩ := accounts.issued other old
      exact ⟨count, Nat.lt_add_right _ below, same⟩
    · rw [newIds, List.mem_map] at new
      obtain ⟨count, inRange, rfl⟩ := new
      rw [List.mem_range'_1] at inRange
      exact ⟨count, inRange.2, rfl⟩
  · rw [versionIds_logged, List.nodup_append]
    refine ⟨accounts.nodup, ?_, ?_⟩
    · rw [newIds]
      refine List.Nodup.map ?_ List.nodup_range'
      exact fun count other same => (IdSource.identifier_inj.1 same).2
    · rintro old oldMember new newMember rfl
      rw [newIds, List.mem_map] at newMember
      obtain ⟨count, inRange, rfl⟩ := newMember
      exact accounts.fresh (List.mem_range'_1.1 inRange).1 oldMember
  · intro diff member
    rcases List.mem_append.1 member with old | new
    · exact accounts.timeless diff old
    · rw [diffsEq] at new
      refine timeless diff.operation ?_
      have inOperations := List.mem_map_of_mem (f := VersionDiff.operation) new
      rwa [(operations_logOperations _ _ _ _).2] at inOperations
  · intro diff member
    rcases List.mem_append.1 member with old | new
    · exact accounts.applied_mono grows diff old
    · exact diffsApply diff new
  · intro key other otherFound
    rw [nextEq, stored?_insert] at otherFound
    split at otherFound
    next same =>
      cases otherFound
      subst same
      obtain ⟨first, document, later, versionsOf, member, logFollows⟩ :=
        (accounts.logs _ stored found).mono grows
      rw [versionId_of_versions versionsOf] at follows
      exact ⟨first, document, later ++ versions, by simp [versionsOf], member,
        logFollows.append follows⟩
    · exact (accounts.logs key other otherFound).mono grows

/-- One step of a server keeps the history complete. -/
theorem Accounts.step {history longer : History} {server next : Server}
    (accounts : history.Accounts server) (happens : Step history server longer next) :
    longer.Accounts next := by
  rcases happens.effect with ⟨_, _, _, _, inserted, named, rfl⟩ |
    ⟨_, _, _, timeless, pushed, rfl⟩ | ⟨rfl, stored, node, issued⟩
  · exact accounts.insert inserted named
  · exact accounts.push timeless pushed
  · exact accounts.of_stored stored node issued

theorem accounts_empty : History.empty.Accounts .empty where
  issued := by simp [History.versionIds, History.empty]
  nodup := List.nodup_nil
  timeless := by simp [History.empty]
  applied := by simp [History.empty]
  logs := by
    intro key stored found
    cases found

/-- In every run the history holds all that the server has issued. -/
theorem accounts_of_served {history : History} {server : Server} (served : Served history server) :
    history.Accounts server := by
  induction served with
  | start => exact accounts_empty
  | step _ happens ih => exact ih.step happens

/-- The current document is held at the latest version. -/
theorem Accounts.held_current {history : History} {server : Server} {key : EntityKey}
    {stored : StoredEntity} (accounts : history.Accounts server)
    (found : server.stored? key = some stored) :
    history.Held key stored.versionId stored.current := by
  obtain ⟨first, document, later, versions, member, follows⟩ := accounts.logs key stored found
  rw [versionId_of_versions versions]
  exact follows.held (.inserted member)

/-- The operations since a version lead from the document held at it to the current one. -/
theorem Accounts.operationsSince {history : History} {server : Server} {key : EntityKey}
    {stored : StoredEntity} {version : String} {operations : List Update}
    (accounts : history.Accounts server) (found : server.stored? key = some stored)
    (since : stored.operationsSince version = .ok operations) :
    ∃ document later, history.Held key version document ∧
      operations = later.filterMap Version.operation ∧
      history.Follows key version document later stored.current ∧
      lastOf version later = stored.versionId := by
  obtain ⟨first, document, later, versions, member, follows⟩ := accounts.logs key stored found
  unfold StoredEntity.operationsSince at since
  split at since
  next behind behindEq =>
    rw [versions] at behindEq
    obtain ⟨between, held, rest, last⟩ := follows.after (.inserted member) behindEq
    exact ⟨between, behind, held, (Except.ok.inj since).symm, rest,
      last.trans (versionId_of_versions versions).symm⟩
  · cases since

/-- A version that the server issued after another one, or the same. -/
def Later (history : History) (key : EntityKey) : String → String → Prop :=
  Relation.ReflTransGen fun version next =>
    ∃ diff ∈ history.diffs, diff.key = key ∧ diff.prevVersionId = version ∧ diff.versionId = next

theorem Later.mono {history longer : History} (grows : history.Extends longer) {key : EntityKey}
    {version next : String} (later : history.Later key version next) :
    longer.Later key version next := by
  refine Relation.ReflTransGen.mono ?_ _ _ later
  rintro _ _ ⟨diff, member, same⟩
  exact ⟨diff, grows.diffs member, same⟩

theorem Follows.later {history : History} {key : EntityKey} {version : String}
    {document result : Document} {later : List Version}
    (follows : history.Follows key version document later result) :
    history.Later key version (lastOf version later) := by
  induction follows with
  | done => exact .refl
  | step member sameKey _ _ ih => exact .head ⟨_, member, sameKey, rfl, rfl⟩ ih

/-- The answer to a push leads from the document at the version of the request, over the
operations of others and then the pushed ones, to the document at the version it returns. -/
theorem Accounts.answer_push {history : History} {server next : Server} {request : PushRequest}
    {command : PushCommand} {diffs : List VersionDiff} (accounts : history.Accounts server)
    (timeless : ∀ operation ∈ request.operations, operation.Timeless)
    (pushed : server.push request = .ok (command, diffs, next)) :
    ∃ version document result, request.versionId = some version ∧
      command.entityName = request.entityName ∧ command.id = request.id ∧
      history.Held request.key version document ∧
      (∀ now, Update.applyAll now document (command.operations ++ request.operations) =
        .ok result) ∧
      (history.logged diffs).Held request.key command.versionId result ∧
      (history.logged diffs).Later request.key version command.versionId ∧
      next.entity? request.key = some result := by
  obtain ⟨version, stored, foreign, current, versions, versionEq, found, since, logged, rfl,
    nextEq, follows, _⟩ := accounts.push_follows timeless pushed
  obtain ⟨document, later, held, rfl, foreignFollows, last⟩ := accounts.operationsSince found since
  have grows := history.extends_logged diffs
  have follows := (foreignFollows.mono grows).append (last ▸ follows)
  have returned : lastOf version (later ++ versions) = lastOf stored.versionId versions := by
    rw [lastOf_append, last]
  have operations : versions.filterMap Version.operation = request.operations := by
    have versionsEq := congrArg Prod.fst logged
    simp only at versionsEq
    rw [versionsEq, (operations_logOperations _ _ _ _).1]
  refine ⟨version, document, current, versionEq, rfl, rfl, held, fun now => ?_, ?_, ?_, ?_⟩
  · have replayed := follows.applyAll now
    rwa [List.filterMap_append, operations] at replayed
  · exact returned ▸ follows.held (held.mono grows)
  · exact returned ▸ follows.later
  · rw [Server.entity?, nextEq, stored?_insert, if_pos rfl, Option.map_some]

/-- The answer to a pull leads from the document at the version of the request to the current
one. -/
theorem Accounts.answer_pull {history : History} {server : Server} {key : EntityKey}
    {version : String} {command : PushCommand} (accounts : history.Accounts server)
    (pulled : server.pull key version = .ok command) :
    ∃ document result, command.entityName = key.entityName ∧ command.id = key.id ∧
      history.Held key version document ∧
      (∀ now, Update.applyAll now document command.operations = .ok result) ∧
      history.Held key command.versionId result ∧ history.Later key version command.versionId ∧
      server.entity? key = some result := by
  obtain ⟨stored, operations, found, since, rfl⟩ := pull_eq_ok pulled
  obtain ⟨document, later, held, rfl, follows, last⟩ := accounts.operationsSince found since
  refine ⟨document, stored.current, rfl, rfl, held, fun now => follows.applyAll now,
    accounts.held_current found, last ▸ follows.later, ?_⟩
  rw [Server.entity?, found, Option.map_some]

theorem Accounts.answer_get {history : History} {server : Server} {key : EntityKey}
    {fetched : Fetched} (accounts : history.Accounts server)
    (got : server.get key = .ok fetched) :
    history.Held key fetched.versionId fetched.entity ∧
      server.entity? key = some fetched.entity := by
  obtain ⟨stored, found, rfl⟩ := get_eq_ok got
  exact ⟨accounts.held_current found, by rw [Server.entity?, found, Option.map_some]⟩

end History

end LocalFirst
