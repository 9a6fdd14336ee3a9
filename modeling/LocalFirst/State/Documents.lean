import LocalFirst.State.Basic

/-!
# Document form of the state

The state and its parts are records whose field names are also the segments by
which commands address them.  A state without session or error has no such
members; when it is read, an absent member and a null one are the same.
-/

namespace LocalFirst

/-- An optional string, or null. -/
def Document.ofOptionalString : Option String → Document
  | some value => .string value
  | none => .null

namespace EntityInfo

def toDocument (info : EntityInfo) : Document :=
  .object [
    ("origin", info.origin),
    ("versionId", .ofOptionalString info.versionId),
    ("commits", .array (info.commits.map Update.toDocument)),
    ("head", info.head.getD .null)]

def ofDocument (document : Document) : Except UpdateError EntityInfo := do
  let record ← Record.ofDocument "EntityInfo" document
  let origin ← record.required "origin"
  let versionId ← record.optionalString "versionId"
  let commits ← record.typedList "commits"
  return ⟨origin, versionId, commits, record.optional? "head"⟩

instance : DocumentForm EntityInfo :=
  ⟨toDocument, ofDocument⟩

end EntityInfo

namespace UnreachedCommit

/-- The count is stored as a signed integer. -/
def toDocument (commit : UnreachedCommit) : Document :=
  .object [
    ("entityName", .string commit.entityName),
    ("id", .string commit.id),
    ("commitCount", .int commit.commitCount.toInt64)]

def ofDocument (document : Document) : Except UpdateError UnreachedCommit := do
  let record ← Record.ofDocument "UnreachedCommit" document
  let count ← record.int "commitCount"
  let entityName ← record.string "entityName"
  let id ← record.string "id"
  if count < 0 then
    throw (.restore "UnreachedCommit" (.negative "commitCount"))
  return ⟨entityName, id, count.toUInt64⟩

instance : DocumentForm UnreachedCommit :=
  ⟨toDocument, ofDocument⟩

end UnreachedCommit

namespace NetworkState

def toDocument (network : NetworkState) : Document :=
  .object [
    ("requests", .array (network.requests.map .string)),
    ("isOnline", .bool network.isOnline)]

def readTag : Document → Except UpdateError String
  | .string tag => .ok tag
  | _ => .error (.restore "NetworkState" (.mustBe "request tags" "strings"))

def ofDocument (document : Document) : Except UpdateError NetworkState := do
  let record ← Record.ofDocument "NetworkState" document
  let .array tags ← record.required "requests"
    | throw (.restore "NetworkState" (.mustBe "requests" "an array"))
  let requests ← tags.mapM readTag
  return ⟨requests, ← record.bool "isOnline"⟩

instance : DocumentForm NetworkState :=
  ⟨toDocument, ofDocument⟩

end NetworkState

namespace Session

def toDocument (session : Session) : Document :=
  .object [
    ("id", .string session.id),
    ("entityName", .string session.entityName),
    ("userId", .ofOptionalString session.userId),
    ("expiredAt", .ofOptionalString session.expiredAt),
    ("values", session.values)]

def ofDocument (document : Document) : Except UpdateError Session := do
  let record ← Record.ofDocument "Session" document
  let id ← record.string "id"
  let entityName ← record.string "entityName"
  let userId ← record.optionalString "userId"
  let expiredAt ← record.optionalString "expiredAt"
  return ⟨id, entityName, userId, expiredAt, (record.optional? "values").getD .null⟩

instance : DocumentForm Session :=
  ⟨toDocument, ofDocument⟩

end Session

namespace LocalState

/-- The document form of the entities. -/
def entitiesDocument (entities : EntityMap) : Document :=
  .object (entities.toList.map (fun named =>
    (named.1, .object (named.2.toList.map (fun member => (member.1, member.2.toDocument))))))

/-- Read the entities of one name. -/
def readNamed (entityName : String) : Document → Except UpdateError (NameMap EntityInfo)
  | .object members => do
      let infos ← members.mapM (fun member => do
        return (member.1, ← EntityInfo.ofDocument member.2))
      return Keyed.ofList infos
  | _ => .error (.restore "LocalState" (.mustBe ("entities." ++ entityName) "a mapping"))

/-- Read the entities; absent ones are none. -/
def readEntities : Option Document → Except UpdateError EntityMap
  | none => .ok Keyed.empty
  | some (.object members) => do
      let named ← members.mapM (fun member => do
        return (member.1, ← readNamed member.1 member.2))
      return Keyed.ofList named
  | some _ => .error (.restore "LocalState" (.mustBe "entities" "a mapping"))

def toDocument (state : LocalState) : Document :=
  .object ([
    ("entities", entitiesDocument state.entities),
    ("unreachedCommits", .array (state.unreachedCommits.map UnreachedCommit.toDocument)),
    ("network", state.network.toDocument)] ++
    (state.session.map (fun session => ("session", session.toDocument))).toList ++
    (state.error.map (fun error => ("error", error.toDocument))).toList)

def ofDocument (document : Document) : Except UpdateError LocalState := do
  let record ← Record.ofDocument "LocalState" document
  let entities ← readEntities (record.optional? "entities")
  let unreachedCommits ← record.typedList "unreachedCommits"
  let network ← record.typed "network"
  let session ← record.optionalTyped "session"
  let error ← record.optionalTyped "error"
  return ⟨entities, unreachedCommits, network, session, error⟩

instance : DocumentForm LocalState :=
  ⟨toDocument, ofDocument⟩

end LocalState

end LocalFirst
