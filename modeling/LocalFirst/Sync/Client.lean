import LocalFirst.Sync.Identifier
import LocalFirst.Sync.Message
import LocalFirst.Sync.Store

/-!
# Clients

A client drives its store against a server.  Every request is recorded in the
state under a tag while it awaits its answer; an answer whose tag is gone was
cancelled in the meantime and is ignored.  When the server cannot be reached,
the client goes offline; when it refuses, the state keeps the error.

Calls of a client run in a monad that keeps what has happened before an error.
-/

namespace LocalFirst

structure Client where
  store : Store
  inFlight : List EntityKey
  maxPushBatch : Option Nat
  ids : IdSource
  clock : Instant

/-- Part of a call.  An error does not undo what came before it. -/
abbrev ClientM :=
  ExceptT ClientError (StateM Client)

namespace Client

/-- Run a part of a call. -/
def run {α : Type} (client : Client) (call : ClientM α) : Except ClientError α × Client :=
  StateT.run (ExceptT.run call) client

def state (client : Client) : LocalState :=
  client.store.state

def ofStore (store : Store) (config : ClientConfig) (ids : IdSource) (clock : Instant) : Client :=
  ⟨store, [], config.maxPushBatch, ids, clock⟩

/-- Turn an outcome with a new client into a part of a call. -/
def outcome {α : Type} (act : Client → Except ClientError α × Client) : ClientM α :=
  ExceptT.mk act

/-- Dispatch an action to the store. -/
def dispatch (action : Action) : ClientM Unit :=
  outcome (fun client =>
    let (result, store) := client.store.dispatch client.clock action
    (result.mapError .state, { client with store := store }))

/-- The current state. -/
def snapshot : ClientM LocalState :=
  return (← get).state

/-- What is known about an entity, which must be followed. -/
def entityInfo (key : EntityKey) : ClientM EntityInfo := do
  match (← snapshot).entityInfo key.entityName key.id with
  | .ok info => return info
  | .error error => throw (.state error)

/-- Take a fresh identifier. -/
def freshId : ClientM String :=
  outcome (fun client =>
    let (id, ids) := client.ids.next
    (.ok id, { client with ids := ids }))

/-- Record a new request, and give its tag. -/
def openRequest : ClientM String := do
  let tag ← freshId
  dispatch (.networkRequest tag)
  return tag

/-- Close a request.  The answer is whether it was still awaited. -/
def closeRequest (tag : String) : ClientM Bool := do
  if (← snapshot).isPending tag then
    dispatch (.removeNetworkRequest tag)
    return true
  else
    return false

/-- Record that a request has failed. -/
def recordFailure (tag : String) (error : RemoteError) : ClientM Unit :=
  if error.isNetwork then dispatch .offline else dispatch (.error error.toReported tag)

/-- Record that a request has failed, and fail. -/
def fail {α : Type} (tag : String) (error : RemoteError) : ClientM α := do
  recordFailure tag error
  throw (.remote error)

/-- Remove the entries that a number of commits covers, from the front. -/
def retireEntries : UInt64 → List UnreachedCommit → ClientM Unit
  | _, [] => return ()
  | remaining, entry :: entries => do
      if remaining < entry.commitCount then
        return ()
      else
        dispatch (.removeUnreachedCommits entry)
        retireEntries (remaining - entry.commitCount) entries

/-- Remove the queue entries of an entity that acknowledged commits cover. -/
def retire (key : EntityKey) (acknowledged : UInt64) : ClientM Unit := do
  retireEntries acknowledged
    ((← snapshot).unreachedCommits.filter
      (fun entry => entry.entityName == key.entityName && entry.id == key.id))

/-- Mark an entity as having a push in flight. -/
def claim (key : EntityKey) : ClientM Unit :=
  modify (fun client => { client with inFlight := key :: client.inFlight })

/-- Remove the mark. -/
def release (key : EntityKey) : ClientM Unit :=
  modify (fun client => { client with inFlight := client.inFlight.erase key })

/-- Remove the mark if a part of a call fails. -/
def releaseOnError {α : Type} (key : EntityKey) (call : ClientM α) : ClientM α := do
  try
    call
  catch error =>
    release key
    throw error

/-- Stop to follow an entity, if it is followed. -/
def unfollowIfFollowed (key : EntityKey) : ClientM Unit := do
  if (← snapshot).hasEntity key.entityName key.id then
    dispatch (.unfollow key.entityName key.id)

def commit (key : EntityKey) (operation : Update) : ClientM Unit :=
  dispatch (.commit key.entityName key.id operation)

def goOffline : ClientM Unit :=
  dispatch .offline

/-- Forget every request that awaits its answer; the answers will be ignored. -/
def cancelPending : ClientM Nat := do
  let requests := (← snapshot).network.requests
  requests.forM (fun tag => dispatch (.removeNetworkRequest tag))
  return requests.length

/-- Patch a followed entity with a diff of the server.  The answer is whether
the diff applied to the stored version. -/
def applyVersionDiff (diff : VersionDiff) : ClientM Bool := do
  let state ← snapshot
  if !state.hasEntity diff.entityName diff.id then
    return false
  match state.isStale diff with
  | .error error => throw (.state error)
  | .ok true => return false
  | .ok false =>
      dispatch (.patch diff)
      return true

/-- Apply diffs one after another, counting those that apply.  After an error the
diffs behind it remain. -/
def pumpDiffs (client : Client) (count : Nat) :
    List VersionDiff → Except ClientError Nat × Client × List VersionDiff
  | [] => (.ok count, client, [])
  | diff :: diffs =>
      match client.run (applyVersionDiff diff) with
      | (.ok applied, next) => pumpDiffs next (if applied then count + 1 else count) diffs
      | (.error error, next) => (.error error, next, diffs)

end Client

end LocalFirst
