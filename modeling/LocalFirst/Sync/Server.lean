import LocalFirst.Sync.Identifier
import LocalFirst.Sync.Message

/-!
# The entity server

The server keeps for every entity its current document and the log of its
versions.  Each pushed operation becomes a version of its own and is broadcast
as a diff against the version before it.  A request that is refused changes
nothing.
-/

namespace LocalFirst

/-- A version, with the operation that led to it.  The first version has none. -/
structure Version where
  id : String
  operation : Option Update

structure StoredEntity where
  current : Document
  versions : List Version

namespace StoredEntity

/-- The latest version. -/
def versionId (stored : StoredEntity) : String :=
  (stored.versions.getLast?.map Version.id).getD ""

/-- The versions after the first one with an identifier. -/
def versionsAfter? (versionId : String) : List Version → Option (List Version)
  | [] => none
  | version :: later =>
      if version.id = versionId then some later else versionsAfter? versionId later

/-- The operations logged since a version. -/
def operationsSince (stored : StoredEntity) (versionId : String) :
    Except RemoteError (List Update) :=
  match versionsAfter? versionId stored.versions with
  | some later => .ok (later.filterMap Version.operation)
  | none => .error (.refuse .badRequest ("unknown version " ++ versionId))

end StoredEntity

structure Server where
  entities : Keyed (EntityKey × StoredEntity) Prod.fst
  accounts : Keyed (EntityKey × String) Prod.fst
  sessions : NameMap Session
  isReachable : Bool
  ids : IdSource
  clock : Instant

namespace Server

/-- A reachable server without entities. -/
def empty : Server :=
  ⟨Keyed.empty, Keyed.empty, Keyed.empty, true, ⟨0, 0⟩, default⟩

def stored? (server : Server) (key : EntityKey) : Option StoredEntity :=
  (server.entities.find? key).map Prod.snd

/-- The current document of an entity. -/
def entity? (server : Server) (key : EntityKey) : Option Document :=
  (server.stored? key).map StoredEntity.current

/-- The latest version of an entity. -/
def version? (server : Server) (key : EntityKey) : Option String :=
  (server.stored? key).map StoredEntity.versionId

def notFound (key : EntityKey) : RemoteError :=
  .refuse .notFound
    ("no entity found: entityName \"" ++ key.entityName ++ "\", id \"" ++ key.id ++ "\"")

def stored (server : Server) (key : EntityKey) : Except RemoteError StoredEntity :=
  match server.stored? key with
  | some stored => .ok stored
  | none => .error (notFound key)

def ensureReachable (server : Server) : Except RemoteError Unit :=
  if server.isReachable then .ok () else .error (.network "server unreachable")

/-- Store a new entity, whose first version is the answer. -/
def insert (server : Server) (entityName : String) (entity : Document) :
    Except RemoteError (String × Server) :=
  match (entity.get? "id").bind Document.string? with
  | none => .error (.refuse .badRequest "entity has no string id")
  | some id =>
      let key : EntityKey := ⟨entityName, id⟩
      if (server.stored? key).isSome then
        .error (.refuse .badRequest (entityName ++ " " ++ id ++ " already exists"))
      else
        let (versionId, ids) := server.ids.next
        .ok (versionId, { server with
          entities := server.entities.insert (key, ⟨entity, [⟨versionId, none⟩]⟩)
          ids := ids })

/-- Store a user that can log in with a password. -/
def register (server : Server) (entityName : String) (user : Document) (password : String) :
    Except RemoteError (String × Server) := do
  let userId := ((user.get? "id").bind Document.string?).getD ""
  let (versionId, server) ← server.insert entityName user
  return (versionId, { server with
    accounts := server.accounts.insert (⟨entityName, userId⟩, password) })

/-- The current document of an entity with its version. -/
def get (server : Server) (key : EntityKey) : Except RemoteError Fetched := do
  server.ensureReachable
  let stored ← server.stored key
  return ⟨stored.current, stored.versionId⟩

/-- Log operations one by one.  Each becomes a version, and a diff against the
version before it. -/
def logOperations (key : EntityKey) (previous : String) (ids : IdSource) :
    List Update → List Version × List VersionDiff × IdSource
  | [] => ([], [], ids)
  | operation :: operations =>
      let (versionId, ids) := ids.next
      let (versions, diffs, ids) := logOperations key versionId ids operations
      (⟨versionId, some operation⟩ :: versions,
        ⟨key.entityName, key.id, versionId, previous, operation⟩ :: diffs, ids)

/-- Apply pushed operations.  The answer holds the operations that others have
logged since the version of the request; the diffs are broadcast. -/
def push (server : Server) (request : PushRequest) :
    Except RemoteError (PushCommand × List VersionDiff × Server) := do
  server.ensureReachable
  let some versionId := request.versionId
    | throw (.refuse .badRequest "push without a version")
  let key : EntityKey := ⟨request.entityName, request.id⟩
  let stored ← server.stored key
  let foreign ← stored.operationsSince versionId
  let current ← (Update.applyAll server.clock stored.current request.operations).mapError
    (fun error => .refuse .badRequest error.message)
  let (versions, diffs, ids) :=
    logOperations key stored.versionId server.ids request.operations
  let extended : StoredEntity := ⟨current, stored.versions ++ versions⟩
  return (⟨request.entityName, request.id, extended.versionId, foreign⟩, diffs,
    { server with entities := server.entities.insert (key, extended), ids := ids })

/-- The operations logged since a version. -/
def pull (server : Server) (key : EntityKey) (versionId : String) :
    Except RemoteError PushCommand := do
  server.ensureReachable
  let stored ← server.stored key
  let operations ← stored.operationsSince versionId
  return ⟨key.entityName, key.id, stored.versionId, operations⟩

/-- Open a session for a user who knows the password. -/
def login (server : Server) (command : LoginCommand) :
    Except RemoteError (LoginResponse × Server) := do
  server.ensureReachable
  let key : EntityKey := ⟨command.entityName, command.userId⟩
  if (server.accounts.find? key).map Prod.snd ≠ some command.password then
    throw (.refuse .unauthorized "invalid user id or password")
  let fetched ← server.get key
  let (sessionId, ids) := server.ids.next
  let session : Session :=
    ⟨sessionId, command.entityName, some command.userId, none, .null⟩
  return (⟨session, fetched.entity, fetched.versionId⟩,
    { server with sessions := server.sessions.put sessionId session, ids := ids })

/-- Close a session. -/
def logout (server : Server) (sessionId : String) : Except RemoteError Server := do
  server.ensureReachable
  if (server.sessions.get? sessionId).isSome then
    return { server with sessions := server.sessions.erase sessionId }
  else
    throw (.refuse .notFound ("no session " ++ sessionId))

/-- Forget an entity with its log. -/
def delete (server : Server) (key : EntityKey) : Except RemoteError Server := do
  server.ensureReachable
  let _ ← server.stored key
  return { server with entities := server.entities.erase key }

/-- Take over the outcome of a request that may change the server. -/
def settle {α : Type} (server : Server) (outcome : Except RemoteError (α × List VersionDiff × Server)) :
    Except RemoteError α × List VersionDiff × Server :=
  match outcome with
  | .ok (answer, diffs, next) => (.ok answer, diffs, next)
  | .error error => (.error error, [], server)

/-- Answer a request.  Beside the answer there are the diffs to broadcast and
the server afterwards. -/
def answer (server : Server) :
    (request : Request) → request.Response × List VersionDiff × Server
  | .get key => (server.get key, [], server)
  | .push request => server.settle (server.push request)
  | .pull key versionId => (server.pull key versionId, [], server)
  | .login command =>
      server.settle ((server.login command).map (fun outcome => (outcome.1, [], outcome.2)))
  | .logout sessionId =>
      server.settle ((server.logout sessionId).map (fun next => ((), [], next)))
  | .delete key => server.settle ((server.delete key).map (fun next => ((), [], next)))

end Server

end LocalFirst
