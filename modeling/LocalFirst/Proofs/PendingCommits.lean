import LocalFirst.Proofs.ClientSteps
import LocalFirst.Proofs.MirroredEntities
import LocalFirst.Proofs.ServerRuns
import LocalFirst.Proofs.SettledCalls

/-!
# Pending commits and the log of the server

Only a commit adds to the pending commits of an entity, and only a push takes from them.  The log of
the server grows by what a push hands in.
-/

namespace LocalFirst

namespace LocalState

/-- The commits of an entity that have not been pushed. -/
def pending (state : LocalState) (key : EntityKey) : List Update :=
  (state.find? key.entityName key.id).elim [] EntityInfo.commits

/-- All pending commits are as they are read back. -/
def PendingStored (state : LocalState) : Prop :=
  ∀ key, ∀ commit ∈ state.pending key, commit.stored = .ok commit

theorem pending_of_find? {state : LocalState} {entityName id : String} {info : EntityInfo}
    (found : state.find? entityName id = some info) :
    state.pending ⟨entityName, id⟩ = info.commits := by
  rw [pending, found, Option.elim_some]

theorem pending_of_unknown {state : LocalState} {entityName id : String}
    (unknown : state.find? entityName id = none) : state.pending ⟨entityName, id⟩ = [] := by
  rw [pending, unknown, Option.elim_none]

theorem pending_of_entities {state next : LocalState} (same : next.entities = state.entities)
    (key : EntityKey) : next.pending key = state.pending key := by
  rw [pending, find?_of_entities same, pending]

theorem DiffersAt.pending {before after : LocalState} {entityName id : String}
    (differs : DiffersAt before after entityName id) {key : EntityKey}
    (other : key ≠ ⟨entityName, id⟩) : after.pending key = before.pending key := by
  have apart : ¬ (key.entityName = entityName ∧ key.id = id) := by
    rintro ⟨rfl, rfl⟩
    exact other rfl
  rw [LocalState.pending, differs _ _ apart, LocalState.pending]

/-- Commits that are read back are the same ones. -/
theorem DiffersAt.pending_of_read {before after : LocalState} {entityName id : String}
    {info now : EntityInfo} (differs : DiffersAt before after entityName id)
    (stored : before.PendingStored) (known : before.find? entityName id = some info)
    (nowKnown : after.find? entityName id = some now)
    (read : info.commits.mapM Update.stored = .ok now.commits) (key : EntityKey) :
    after.pending key = before.pending key := by
  by_cases same : key = ⟨entityName, id⟩
  · subst same
    have before := pending_of_find? known
    have fixed : ∀ commit ∈ info.commits, commit.stored = .ok commit := before ▸ stored ⟨entityName, id⟩
    rw [before, pending_of_find? nowKnown]
    exact (Except.ok.inj ((Update.mapM_stored_eq_ok fixed).symm.trans read)).symm
  · exact differs.pending same

theorem Undergoes.pending_of_patch {before after : LocalState} {diff : VersionDiff}
    (undergoes : before.Undergoes (.patch diff) after) (stored : before.PendingStored)
    (key : EntityKey) : after.pending key = before.pending key := by
  obtain ⟨differs, info, now, known, nowKnown, same | read⟩ := undergoes.patch
  · by_cases sameKey : key = ⟨diff.entityName, diff.id⟩
    · rw [sameKey, pending_of_find? known, pending_of_find? nowKnown, same]
    · exact differs.pending sameKey
  · exact differs.pending_of_read stored known nowKnown read key

theorem Undergoes.pending_of_rebase {before after : LocalState} {command : PushCommand}
    (undergoes : before.Undergoes (.rebase command) after) (stored : before.PendingStored)
    (key : EntityKey) : after.pending key = before.pending key := by
  obtain ⟨differs, _, info, now, known, nowKnown, _, _, read, _⟩ := undergoes.rebase
  exact differs.pending_of_read stored known nowKnown read key

/-- A commit is pending behind the others, as it is read back. -/
theorem Undergoes.pending_of_commit {before after : LocalState} {entityName id : String}
    {operation : Update} (undergoes : before.Undergoes (.commit entityName id operation) after)
    (stored : before.PendingStored) : ∃ commit, operation.stored = .ok commit ∧
      ∀ key, after.pending key =
        before.pending key ++ if key = ⟨entityName, id⟩ then [commit] else [] := by
  obtain ⟨differs, info, now, known, nowKnown, _, _, read⟩ := undergoes.commit
  have before := pending_of_find? known
  have fixed : ∀ commit ∈ info.commits, commit.stored = .ok commit := before ▸ stored ⟨entityName, id⟩
  rw [List.mapM_append, Update.mapM_stored_eq_ok fixed] at read
  simp only [List.mapM_cons, List.mapM_nil, Except.bind_eq_ok, Except.pure_eq_ok,
    Except.ok.injEq, exists_eq_left'] at read
  obtain ⟨_, ⟨commit, committed, rfl⟩, commitsEq⟩ := read
  refine ⟨commit, committed, fun key => ?_⟩
  split
  next same =>
    rw [same, before, pending_of_find? nowKnown, commitsEq]
  next other => rw [differs.pending other, List.append_nil]

/-- A synchronisation takes the acknowledged commits from the front. -/
theorem Undergoes.pending_of_synchronizeFrom {before after : LocalState} {command : PushCommand}
    {origin : Document} {acknowledged : List Update}
    (undergoes : before.Undergoes (.synchronizeFrom command origin acknowledged) after)
    (stored : before.PendingStored) (key : EntityKey) :
    after.pending key = if key = ⟨command.entityName, command.id⟩ then
      (before.pending key).drop acknowledged.length else before.pending key := by
  obtain ⟨differs, _, info, now, known, nowKnown, _, _, read⟩ := undergoes.synchronizeFrom
  split
  next same =>
    subst same
    have before := pending_of_find? known
    have fixed : ∀ commit ∈ info.commits.drop acknowledged.length, commit.stored = .ok commit :=
      fun commit member => stored _ commit (before ▸ List.mem_of_mem_drop member)
    rw [before, pending_of_find? nowKnown]
    exact (Except.ok.inj ((Update.mapM_stored_eq_ok fixed).symm.trans read)).symm
  next other => exact differs.pending other

/-- What is followed for the first time takes no pending commits away. -/
theorem Undergoes.pending_of_follow {before after : LocalState} {entityName : String}
    {entity : Document} {versionId : Option String}
    (undergoes : before.Undergoes (.follow entityName entity versionId) after)
    (unknown : ∀ id, (entity.get? "id").bind Document.string? = some id →
      before.find? entityName id = none) (key : EntityKey) :
    after.pending key = before.pending key := by
  obtain ⟨id, idOk, differs, nowKnown⟩ := undergoes.follow
  by_cases same : key = ⟨entityName, id⟩
  · subst same
    rw [pending_of_unknown (unknown id idOk),
      pending_of_find? nowKnown]
    rfl
  · exact differs.pending same

end LocalState

/-- The operations that diffs carry for one entity. -/
def VersionDiff.operationsOn (key : EntityKey) (diffs : List VersionDiff) : List Update :=
  (diffs.filter fun diff => diff.key = key).map VersionDiff.operation

theorem VersionDiff.operationsOn_append (key : EntityKey) (first second : List VersionDiff) :
    operationsOn key (first ++ second) = operationsOn key first ++ operationsOn key second := by
  rw [operationsOn, List.filter_append, List.map_append]
  rfl

theorem VersionDiff.operationsOn_of_key {key : EntityKey} {diffs : List VersionDiff}
    (sameKey : ∀ diff ∈ diffs, diff.key = key) (other : EntityKey) :
    operationsOn other diffs = if other = key then diffs.map VersionDiff.operation else [] := by
  unfold operationsOn
  split
  next same =>
    rw [List.filter_eq_self.2]
    intro diff member
    simpa [same] using sameKey diff member
  next differ =>
    rw [List.filter_eq_nil_iff.2, List.map_nil]
    intro diff member
    simpa [sameKey diff member] using Ne.symm differ

namespace Server

/-- The operations in the log of an entity. -/
def log (server : Server) (key : EntityKey) : List Update :=
  (server.stored? key).elim [] fun stored => stored.versions.filterMap Version.operation

/-- A push adds its operations to the log of its entity, and broadcasts them. -/
theorem log_of_push {server next : Server} {request : PushRequest} {command : PushCommand}
    {diffs : List VersionDiff} (pushed : server.push request = .ok (command, diffs, next))
    (key : EntityKey) : next.log key = server.log key ++ VersionDiff.operationsOn key diffs ∧
      VersionDiff.operationsOn key diffs = if key = request.key then request.operations else [] := by
  obtain ⟨before, current, versions, found, logged, _, operations, broadcast, sameKey⟩ :=
    logged_of_push pushed
  have carried := VersionDiff.operationsOn_of_key sameKey key
  rw [broadcast] at carried
  refine ⟨?_, carried⟩
  rw [carried, log, logged]
  split
  next same =>
    rw [log, same, found, Option.elim_some, Option.elim_some, List.filterMap_append, operations]
  next => rw [List.append_nil, log]

/-- An insertion begins an empty log. -/
theorem log_of_insert {server next : Server} {entityName version : String} {entity : Document}
    (inserted : server.insert entityName entity = .ok (version, next)) (key : EntityKey) :
    next.log key = server.log key := by
  obtain ⟨id, _, unknown, _, rfl⟩ := insert_eq_ok inserted
  rw [log, stored?_insert]
  split
  next same =>
    rw [log, same, unknown]
    rfl
  next => rw [log]

end Server

/-- A request that reads an entity or pushes to it. -/
def Request.IsSync : Request → Prop
  | .get _ | .push _ | .pull .. => True
  | _ => False

/-- What the server broadcasts with an answer is what it adds to its logs. -/
theorem Server.log_answer (server : Server) {request : Request} (isSync : request.IsSync)
    (key : EntityKey) : (server.answer request).2.2.log key =
      server.log key ++ VersionDiff.operationsOn key (server.answer request).2.1 := by
  cases request with
  | get | pull => exact (List.append_nil _).symm
  | push request =>
      obtain ⟨command, diffs, next, pushed, answers⟩ | ⟨error, answers⟩ :=
        server.answer_push_eq request
      · rw [answers]
        exact (log_of_push pushed key).1
      · rw [answers]
        exact (List.append_nil _).symm
  | _ => exact isSync.elim

/-- A pull takes no pending commits away. -/
theorem PullKind.Performs.pending {history : History} {state after : LocalState}
    {key : EntityKey} {kind : PullKind} {response : (kind.request key).Response} {action : Action}
    (performs : kind.Performs key response action) (undergoes : state.Undergoes action after)
    (snapshots : state.Snapshots history) (stored : state.PendingStored)
    (fits : kind.Fits state key) (other : EntityKey) : after.pending other = state.pending other := by
  cases kind with
  | fetch =>
      obtain ⟨info, found, noVersion⟩ := fits
      obtain ⟨_, _, ⟨_, versionEq, _⟩, _⟩ := snapshots _ _ _ found
      exact absurd (versionEq.symm.trans noVersion) (by simp)
  | since version =>
      obtain ⟨command, _, rfl⟩ := performs
      exact undergoes.pending_of_rebase stored other

end LocalFirst
