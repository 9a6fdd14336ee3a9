import LocalFirst.State.Command

/-!
# Reconciliation with the server

The operations of the server go under the local commits: they move the origin,
and the commits are replayed on top of it.  A diff applies to one version only
and is otherwise ignored; a rebase replays a whole log; a synchronisation also
folds the commits that the server has acknowledged into the origin.
-/

namespace LocalFirst

namespace LocalState

/-- Move an entity to an origin and a version. -/
def setVersion (entityName id : String) (origin : Document) (versionId : String)
    (head : Document) : Update :=
  ((Update.empty.set (entityField entityName id "origin") origin).set
    (entityField entityName id "versionId") (.string versionId)).set
      (entityField entityName id "head") head

/-- Apply a diff to the version it was made for.  On any other version nothing
happens. -/
def patch (now : Instant) (state : LocalState) (diff : VersionDiff) :
    Except StateError Update := do
  let info ← state.entityInfo diff.entityName diff.id
  if info.versionId ≠ some diff.prevVersionId then
    return Update.empty
  else
    let origin ← (diff.operation.apply now info.origin).mapError StateError.update
    let head ← headOf now origin info.commits
    return setVersion diff.entityName diff.id origin diff.versionId head

/-- Replay the operations of the server on the origin, and the local commits on
top of them. -/
def rebase (now : Instant) (state : LocalState) (command : PushCommand) :
    Except StateError Update := do
  let info ← state.entityInfo command.entityName command.id
  let origin ← (Update.applyAll now info.origin command.operations).mapError StateError.update
  let head ← headOf now origin info.commits
  return setVersion command.entityName command.id origin command.versionId head

/-- Replay the operations of the server and then the acknowledged commits on an
origin, and drop as many commits from the front as were acknowledged. -/
def synchronizeFrom (now : Instant) (state : LocalState) (command : PushCommand)
    (origin : Document) (acknowledged : List Update) : Except StateError Update := do
  let info ← state.entityInfo command.entityName command.id
  let origin ← (Update.applyAll now origin (command.operations ++ acknowledged)).mapError
    StateError.update
  let commits := info.commits.drop acknowledged.length
  let head ← headOf now origin commits
  let synced : EntityInfo :=
    ⟨origin, some command.versionId, commits, if head.isNull then none else some head⟩
  return Update.empty.set (entityPath command.entityName command.id) synced.toDocument

/-- Synchronise on the stored origin. -/
def synchronize (now : Instant) (state : LocalState) (command : PushCommand)
    (acknowledged : List Update) : Except StateError Update := do
  let info ← state.entityInfo command.entityName command.id
  state.synchronizeFrom now command info.origin acknowledged

end LocalState

end LocalFirst
