import LocalFirst.Keyed
import LocalFirst.State.Error
import LocalFirst.Update.Typed

/-!
# The local state

A client keeps a copy of every entity that it follows: the last version that
the server has acknowledged, the local commits on top of it, and the document
that the user sees.  Beside the entities the state holds the commits that are
on their way to the server, the requests that await an answer, the session and
the last error.
-/

namespace LocalFirst

/-- What the client knows about one entity.  The head is the origin with every
commit applied, and is absent exactly when there are no commits. -/
structure EntityInfo where
  origin : Document
  versionId : Option String
  commits : List Update
  head : Option Document

/-- Commits sent to the server whose acknowledgement has not arrived. -/
structure UnreachedCommit where
  entityName : String
  id : String
  commitCount : UInt64
  deriving DecidableEq

/-- Requests that await an answer, and connectivity. -/
structure NetworkState where
  requests : List String
  isOnline : Bool
  deriving DecidableEq

/-- An authenticated session. -/
structure Session where
  id : String
  entityName : String
  userId : Option String
  expiredAt : Option String
  values : Document

/-- Entities by name, and by id within a name. -/
abbrev EntityMap :=
  NameMap (NameMap EntityInfo)

structure LocalState where
  entities : EntityMap
  unreachedCommits : List UnreachedCommit
  network : NetworkState
  session : Option Session
  error : Option LocalError

/-- A change made on the server, which applies to one version only. -/
structure VersionDiff where
  entityName : String
  id : String
  versionId : String
  prevVersionId : String
  operation : Update

/-- The operations that the server has logged since a version of the client. -/
structure PushCommand where
  entityName : String
  id : String
  versionId : String
  operations : List Update

namespace EntityInfo

/-- An entity without local commits. -/
def clean (origin : Document) (versionId : Option String) : EntityInfo :=
  ⟨origin, versionId, [], none⟩

/-- The document that the user sees. -/
def current (info : EntityInfo) : Document :=
  info.head.getD info.origin

def isDirty (info : EntityInfo) : Bool :=
  !info.commits.isEmpty

end EntityInfo

namespace LocalState

/-- No entities, empty queues, online. -/
def empty : LocalState :=
  ⟨Keyed.empty, [], ⟨[], true⟩, none, none⟩

instance : Inhabited LocalState :=
  ⟨empty⟩

def find? (state : LocalState) (entityName id : String) : Option EntityInfo :=
  (state.entities.get? entityName).bind (NameMap.get? id)

def hasEntity (state : LocalState) (entityName id : String) : Bool :=
  (state.find? entityName id).isSome

/-- What is known about an entity, which must be followed. -/
def entityInfo (state : LocalState) (entityName id : String) :
    Except StateError EntityInfo :=
  match state.find? entityName id with
  | some info => .ok info
  | none => .error (.notFound entityName id)

/-- The document that the user sees. -/
def current (state : LocalState) (entityName id : String) : Except StateError Document :=
  (state.entityInfo entityName id).map EntityInfo.current

/-- How many commits of an entity are on their way to the server. -/
def enqueuedCommitCount (state : LocalState) (entityName id : String) : UInt64 :=
  (state.unreachedCommits.filter
    (fun commit => commit.entityName == entityName && commit.id == id)).foldr
      (fun commit total => commit.commitCount + total) 0

/-- Whether a request with this tag still awaits its answer. -/
def isPending (state : LocalState) (tag : String) : Bool :=
  state.network.requests.contains tag

/-- Whether a diff does not apply to the stored version. -/
def isStale (state : LocalState) (diff : VersionDiff) : Except StateError Bool :=
  (state.entityInfo diff.entityName diff.id).map
    (fun info => info.versionId != some diff.prevVersionId)

end LocalState

/-- The path of an entity in the document form of the state. -/
def entityPath (entityName id : String) : Path :=
  ⟨["entities", entityName, id]⟩

/-- The path of a field of an entity. -/
def entityField (entityName id field : String) : Path :=
  (entityPath entityName id).child field

end LocalFirst
