import LocalFirst.Proofs.ServerRuns

/-!
# The versions of a log

The operations since a version of a log are those behind it, which are all that a push or a pull
returns.  A push is accepted when the log has its version and its operations apply, and what it logs
is a chain of diffs from the version before it.
-/

namespace LocalFirst

/-- The version that a diff announces. -/
def VersionDiff.version (diff : VersionDiff) : Version :=
  ⟨diff.versionId, some diff.operation⟩

/-- The diffs lead from one version to another, each from where the one before it leads to. -/
def VersionDiff.Chained : String → List VersionDiff → String → Prop
  | version, [], last => version = last
  | version, diff :: diffs, last => diff.prevVersionId = version ∧ Chained diff.versionId diffs last

/-- The versions before the diffs of a chain, and the one after all of them. -/
theorem VersionDiff.Chained.versionIds {version last : String} {diffs : List VersionDiff}
    (chained : Chained version diffs last) :
    diffs.map prevVersionId ++ [last] = version :: diffs.map versionId := by
  induction diffs generalizing version with
  | nil => rw [show version = last from chained]; rfl
  | cons diff rest ih =>
      obtain ⟨rfl, chained⟩ := chained
      rw [List.map_cons, List.cons_append, ih chained, List.map_cons]

namespace StoredEntity

/-- A version of a log has the versions behind its first occurrence after it. -/
theorem versionsAfter?_eq_some_iff {version : String} {versions behind : List Version} :
    versionsAfter? version versions = some behind ↔ ∃ before found,
      versions = before ++ found :: behind ∧ found.id = version ∧
        version ∉ before.map Version.id := by
  induction versions with
  | nil => simp [versionsAfter?]
  | cons first rest ih =>
      unfold versionsAfter?
      split
      next same =>
        constructor
        · rintro ⟨⟩
          exact ⟨[], first, rfl, same, List.not_mem_nil⟩
        · rintro ⟨_ | ⟨other, before⟩, found, split, _, unseen⟩
          · cases split
            rfl
          · cases split
            exact absurd (List.mem_map.2 ⟨first, List.mem_cons_self, same⟩) unseen
      next differ =>
        rw [ih]
        constructor
        · rintro ⟨before, found, rfl, same, unseen⟩
          refine ⟨first :: before, found, rfl, same, ?_⟩
          rw [List.map_cons, List.mem_cons]
          exact not_or.2 ⟨Ne.symm differ, unseen⟩
        · rintro ⟨_ | ⟨other, before⟩, found, split, same, unseen⟩
          · cases split
            exact absurd same differ
          · cases split
            rw [List.map_cons, List.mem_cons] at unseen
            exact ⟨before, found, rfl, same, fun member => unseen (.inr member)⟩

/-- The operations since a version are known when the log has the version. -/
theorem exists_operationsSince_iff {stored : StoredEntity} {version : String} :
    (∃ operations, stored.operationsSince version = .ok operations) ↔
      version ∈ stored.versions.map Version.id := by
  have listed : ∀ versions : List Version,
      (versionsAfter? version versions).isSome = true ↔ version ∈ versions.map Version.id := by
    intro versions
    induction versions with
    | nil => simp [versionsAfter?]
    | cons first rest ih =>
        unfold versionsAfter?
        split
        next same => simp [same]
        next differ => rw [ih, List.map_cons, List.mem_cons, or_iff_right (Ne.symm differ)]
  rw [← listed, operationsSince]
  cases versionsAfter? version stored.versions <;> simp

theorem versionsAfter?_of_nodup {before behind : List Version} {version : Version}
    (nodup : ((before ++ version :: behind).map Version.id).Nodup) :
    versionsAfter? version.id (before ++ version :: behind) = some behind := by
  refine versionsAfter?_eq_some_iff.2 ⟨before, version, rfl, rfl, fun earlier => ?_⟩
  rw [List.map_append, List.map_cons, List.nodup_append] at nodup
  exact nodup.2.2 _ earlier _ List.mem_cons_self rfl

end StoredEntity

namespace Server

open History VersionDiff

/-- What is logged is what is broadcast, in a chain. -/
theorem chained_logOperations (key : EntityKey) (previous : String) (ids : IdSource)
    (operations : List Update) {versions : List Version} {diffs : List VersionDiff}
    {later : IdSource}
    (logged : (versions, diffs, later) = logOperations key previous ids operations) :
    versions = diffs.map VersionDiff.version ∧
      Chained previous diffs (lastOf previous versions) := by
  induction operations generalizing previous ids versions diffs later with
  | nil =>
      cases logged
      exact ⟨rfl, rfl⟩
  | cons operation rest ih =>
      rw [logOperations_cons] at logged
      cases logged
      obtain ⟨versionsEq, chained⟩ := ih ids.next.1 ids.next.2 rfl
      exact ⟨congrArg _ versionsEq, rfl, chained⟩

/-- A push goes through when the log has the version of the request, and the operations apply to
the current document. -/
theorem exists_push {server : Server} {request : PushRequest} {stored : StoredEntity}
    {version : String} {current : Document} (reachable : server.isReachable = true)
    (versionEq : request.versionId = some version)
    (found : server.stored? request.key = some stored)
    (listed : version ∈ stored.versions.map Version.id)
    (applied : Update.applyAll server.clock stored.current request.operations = .ok current) :
    ∃ command diffs next, server.push request = .ok (command, diffs, next) := by
  obtain ⟨foreign, since⟩ := StoredEntity.exists_operationsSince_iff.2 listed
  have known : server.stored ⟨request.entityName, request.id⟩ = .ok stored := by
    rw [Server.stored, show server.stored? ⟨request.entityName, request.id⟩ = _ from found]
  simp only [push, ensureReachable, reachable, if_true, versionEq, known, since, applied,
    Except.mapError, bind, Except.bind]
  exact ⟨_, _, _, rfl⟩

theorem reachable_of_push {server next : Server} {request : PushRequest} {command : PushCommand}
    {diffs : List VersionDiff} (pushed : server.push request = .ok (command, diffs, next)) :
    server.isReachable = true := by
  simp only [push, Except.bind_eq_ok, ensureReachable] at pushed
  obtain ⟨_, reached, _⟩ := pushed
  split at reached
  next reachable => exact reachable
  · cases reached

/-- What an accepted push has done. -/
structure Accepts (server : Server) (key : EntityKey) (stored : StoredEntity)
    (request : PushRequest) (command : PushCommand) (diffs : List VersionDiff) (next : Server) :
    Prop where
  answer : ∃ before version behind, stored.versions = before ++ version :: behind ∧
    request.versionId = some version.id ∧ command.entityName = key.entityName ∧
    command.id = key.id ∧ command.operations = behind.filterMap Version.operation
  logged : ∃ current, Update.applyAll server.clock stored.current request.operations =
      .ok current ∧
    ∀ other, next.stored? other = if other = key
      then some ⟨current, stored.versions ++ diffs.map VersionDiff.version⟩
      else server.stored? other
  operations : diffs.map VersionDiff.operation = request.operations
  keys : ∀ diff ∈ diffs, diff.key = key
  chained : Chained stored.versionId diffs command.versionId
  latest : next.version? key = some command.versionId

theorem accepts_of_push {history : History} {server next : Server} {stored : StoredEntity}
    {request : PushRequest} {command : PushCommand} {diffs : List VersionDiff}
    (log : history.LogOf request.key stored) (found : server.stored? request.key = some stored)
    (pushed : server.push request = .ok (command, diffs, next)) :
    server.Accepts request.key stored request command diffs next := by
  obtain ⟨version, stored', foreign, current, versions, versionEq, found', since, applied, logged,
    rfl, nextEq⟩ := push_eq_ok pushed
  obtain rfl := Option.some.inj (found.symm.trans found')
  obtain ⟨versionsEq, chained⟩ := chained_logOperations _ _ _ _ logged
  have diffsEq := congrArg (fun logged => logged.2.1) logged
  simp only at diffsEq
  obtain ⟨_, _, _, versionsOf, _⟩ := log
  have storedNext : ∀ other, next.stored? other = if other = request.key
      then some ⟨current, stored.versions ++ versions⟩ else server.stored? other := by
    intro other
    rw [nextEq, stored?_insert]
    rfl
  refine ⟨?_, ⟨current, applied, versionsEq ▸ storedNext⟩, ?_, ?_, ?_, ?_⟩
  · unfold StoredEntity.operationsSince at since
    split at since
    next behind behindEq =>
      cases since
      obtain ⟨before, found, split, rfl, _⟩ := StoredEntity.versionsAfter?_eq_some_iff.1 behindEq
      exact ⟨before, found, behind, split, versionEq, rfl, rfl, rfl⟩
    · cases since
  · exact diffsEq ▸ (operations_logOperations _ _ _ _).2
  · exact diffsEq ▸ key_of_mem_logOperations
  · rwa [versionId_append versionsOf]
  · rw [version?, storedNext, if_pos rfl, Option.map_some]

end Server

end LocalFirst
