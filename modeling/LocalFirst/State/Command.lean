import LocalFirst.State.Documents

/-!
# Commands on the state

A command reads the state and answers with the update that performs it.  It
changes nothing itself.
-/

namespace LocalFirst

namespace LocalState

/-- The id of an entity, which it must hold as a string. -/
def entityId (entityName : String) (entity : Document) : Except StateError String :=
  match (entity.get? "id").bind Document.string? with
  | some id => .ok id
  | none => .error (.missingId entityName)

/-- The head for some commits on an origin: null when there are none. -/
def headOf (now : Instant) (origin : Document) (commits : List Update) :
    Except StateError Document :=
  if commits.isEmpty then .ok .null
  else (Update.applyAll now origin commits).mapError .update

/-- Forget the entities of one name. -/
def clear (entityName : String) : Update :=
  Update.empty.set ⟨["entities", entityName]⟩ .emptyObject

/-- Append a commit and move the head forward.  The commit is kept in its stored
form, and the head is computed from that form too, so that replaying the commit
later gives the same head. -/
def commit (now : Instant) (state : LocalState) (entityName id : String)
    (operation : Update) : Except StateError Update := do
  let stored := operation.toDocument
  let current ← state.current entityName id
  let parsed ← (Update.ofDocument stored).mapError StateError.update
  let head ← (parsed.apply now current).mapError StateError.update
  return (Update.empty.push (entityField entityName id "commits") stored).set
    (entityField entityName id "head") head

/-- Remove the first commit that equals an operation, if there is one. -/
def removeFirst (operation : Update) : List Update → List Update
  | [] => []
  | commit :: commits =>
      if commit.same operation then commits else commit :: removeFirst operation commits

/-- Drop the first equal commit for each operation, compared in stored form, and
rebuild the head. -/
def revert (now : Instant) (state : LocalState) (entityName id : String)
    (operations : List Update) : Except StateError Update := do
  let info ← state.entityInfo entityName id
  let commits ← operations.foldlM (fun commits operation => do
    let stored ← operation.stored.mapError StateError.update
    return removeFirst stored commits) info.commits
  let head ← headOf now info.origin commits
  return (Update.empty.set (entityField entityName id "commits")
    (.array (commits.map Update.toDocument))).set (entityField entityName id "head") head

/-- Start to follow an entity, in the place of what was known under its id. -/
def follow (entityName : String) (entity : Document) (versionId : Option String) :
    Except StateError Update := do
  let id ← entityId entityName entity
  return Update.empty.set (entityPath entityName id) (EntityInfo.clean entity versionId).toDocument

/-- Follow several entities at once, each at its version in the map. -/
def followAll (entityName : String) (entities : List Document)
    (versionsById : NameMap String) : Except StateError Update :=
  entities.foldlM (fun update entity => do
    let id ← entityId entityName entity
    let followed ← follow entityName entity (versionsById.get? id)
    return update.merge followed) Update.empty

def unfollow (entityName id : String) : Update :=
  Update.empty.unset (entityPath entityName id)

def requestsPath : Path :=
  ⟨["network", "requests"]⟩

def onlinePath : Path :=
  ⟨["network", "isOnline"]⟩

/-- Record a request that awaits its answer. -/
def addRequest (tag : String) : Update :=
  Update.empty.push requestsPath (.string tag)

/-- Forget the first request with a tag. -/
def removeRequest (state : LocalState) (tag : String) : Update :=
  Update.empty.set requestsPath (.array ((state.network.requests.erase tag).map .string))

/-- Store the session, and follow its user when one is given with a version. -/
def setSession (session : Session) (user : Option Document) (versionId : Option String) :
    Except StateError Update :=
  let update := Update.empty.set ⟨["session"]⟩ session.toDocument
  match user, versionId with
  | some user, some versionId =>
      (follow session.entityName user (some versionId)).map update.merge
  | _, _ => .ok update

def unsetSession : Update :=
  Update.empty.unset ⟨["session"]⟩

def setOnline (online : Bool) : Update :=
  Update.empty.set onlinePath (.bool online)

/-- Store a failure of the action with a tag. -/
def setError (error : ReportedError) (actionTag : String) : Update :=
  Update.empty.set ⟨["error"]⟩ (LocalError.ofReported error actionTag).toDocument

def resolveError : Update :=
  Update.empty.unset ⟨["error"]⟩

end LocalState

end LocalFirst
