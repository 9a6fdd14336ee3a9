import LocalFirst.State.Apply
import LocalFirst.State.Encoding
import LocalFirst.State.Queue
import LocalFirst.State.Reconcile

/-!
# Actions

An action is a change to the state as it is dispatched to a store.  Except for
the three that work on the whole state directly, every action computes an update
from the current state, and the update is applied.
-/

namespace LocalFirst

inductive Action where
  | replace (state : LocalState)
  | reset
  | assign (updates : List Update)
  | clear (entityName : String)
  | commit (entityName id : String) (operation : Update)
  | revert (entityName id : String) (operations : List Update)
  | follow (entityName : String) (entity : Document) (versionId : Option String)
  | followAll (entityName : String) (entities : List Document)
      (versionsById : NameMap String)
  | unfollow (entityName id : String)
  | addUnreachedCommits (entry : UnreachedCommit)
  | removeUnreachedCommits (entry : UnreachedCommit)
  | networkRequest (tag : String)
  | removeNetworkRequest (tag : String)
  | setSession (session : Session) (user : Option Document) (versionId : Option String)
  | unsetSession
  | online
  | offline
  | error (failure : ReportedError) (actionTag : String)
  | resolveError
  | patch (diff : VersionDiff)
  | rebase (command : PushCommand)
  | synchronize (command : PushCommand) (localCommits : List Update)
  | synchronizeFrom (command : PushCommand) (origin : Document) (localCommits : List Update)

namespace Action

/-- The name of an action on the wire. -/
def wireName : Action → String
  | .replace _ => "replace"
  | .reset => "reset"
  | .assign _ => "assign"
  | .clear _ => "initialize"
  | .commit .. => "commit"
  | .revert .. => "revert"
  | .follow .. => "follow"
  | .followAll .. => "followAll"
  | .unfollow .. => "unfollow"
  | .addUnreachedCommits _ => "addUnreachedCommits"
  | .removeUnreachedCommits _ => "removeUnreachedCommits"
  | .networkRequest _ => "networkRequest"
  | .removeNetworkRequest _ => "removeNetworkRequest"
  | .setSession .. => "setSession"
  | .unsetSession => "unsetSession"
  | .online => "online"
  | .offline => "offline"
  | .error .. => "error"
  | .resolveError => "resolveError"
  | .patch _ => "patch"
  | .rebase _ => "rebase"
  | .synchronize .. => "synchronize"
  | .synchronizeFrom .. => "synchronizeFrom"

/-- The name of an action in store events.  Both ways to synchronise share one. -/
def eventName : Action → String
  | .synchronizeFrom .. => "mooring/synchronize"
  | action => "mooring/" ++ action.wireName

/-- The update that an action performs on a state.  The actions that work on the
whole state directly perform none. -/
def update (now : Instant) (state : LocalState) : Action → Except StateError Update
  | .replace _ => .ok .empty
  | .reset => .ok .empty
  | .assign _ => .ok .empty
  | .clear entityName => .ok (LocalState.clear entityName)
  | .commit entityName id operation => state.commit now entityName id operation
  | .revert entityName id operations => state.revert now entityName id operations
  | .follow entityName entity versionId => LocalState.follow entityName entity versionId
  | .followAll entityName entities versionsById =>
      LocalState.followAll entityName entities versionsById
  | .unfollow entityName id => .ok (LocalState.unfollow entityName id)
  | .addUnreachedCommits entry => .ok (state.enqueue entry)
  | .removeUnreachedCommits entry => .ok (LocalState.dequeue entry)
  | .networkRequest tag => .ok (LocalState.addRequest tag)
  | .removeNetworkRequest tag => .ok (state.removeRequest tag)
  | .setSession session user versionId => LocalState.setSession session user versionId
  | .unsetSession => .ok LocalState.unsetSession
  | .online => .ok (LocalState.setOnline true)
  | .offline => .ok (LocalState.setOnline false)
  | .error failure actionTag => .ok (LocalState.setError failure actionTag)
  | .resolveError => .ok LocalState.resolveError
  | .patch diff => state.patch now diff
  | .rebase command => state.rebase now command
  | .synchronize command localCommits => state.synchronize now command localCommits
  | .synchronizeFrom command origin localCommits =>
      state.synchronizeFrom now command origin localCommits

/-- The state after an action. -/
def reduce (now : Instant) (state : LocalState) : Action → Except StateError LocalState
  | .replace next => .ok next
  | .reset => .ok .empty
  | .assign updates => state.applyAll now updates
  | action => do state.applyCommand now (← action.update now state)

open JsonForm

/-- The contents of an action, if it has any. -/
def payload? : Action → Option Json
  | .replace state => some (toJson state)
  | .assign updates => some (toJson updates)
  | .clear entityName => some (.object [("entityName", toJson entityName)])
  | .commit entityName id operation => some (.object [
      ("entityName", toJson entityName), ("id", toJson id), ("operation", toJson operation)])
  | .revert entityName id operations => some (.object [
      ("entityName", toJson entityName), ("id", toJson id), ("operations", toJson operations)])
  | .follow entityName entity versionId => some (.object [
      ("entityName", toJson entityName), ("entity", toJson entity),
      ("versionId", toJson versionId)])
  | .followAll entityName entities versionsById => some (.object [
      ("entityName", toJson entityName), ("entities", toJson entities),
      ("versionsById", toJson versionsById)])
  | .unfollow entityName id => some (.object [
      ("entityName", toJson entityName), ("id", toJson id)])
  | .addUnreachedCommits entry => some (toJson entry)
  | .removeUnreachedCommits entry => some (toJson entry)
  | .networkRequest tag => some (toJson tag)
  | .removeNetworkRequest tag => some (toJson tag)
  | .setSession session user versionId => some (.object [
      ("session", toJson session), ("user", toJson user), ("versionId", toJson versionId)])
  | .error failure actionTag => some (.object [
      ("error", toJson failure), ("actionTag", toJson actionTag)])
  | .patch diff => some (toJson diff)
  | .rebase command => some (toJson command)
  | .synchronize command localCommits => some (.object [
      ("command", toJson command), ("localCommits", toJson localCommits)])
  | .synchronizeFrom command origin localCommits => some (.object [
      ("command", toJson command), ("origin", toJson origin),
      ("localCommits", toJson localCommits)])
  | .reset | .unsetSession | .online | .offline | .resolveError => none

/-- Read an action without contents; null counts as none. -/
def bare? (action : Action) (payload : Option Json) : Option Action :=
  match payload with
  | none => some action
  | some .null => some action
  | some _ => none

/-- Read an action from its name and its contents. -/
def ofPayload? (name : String) (payload : Option Json) : Option Action := do
  match name with
  | "reset" => bare? .reset payload
  | "unsetSession" => bare? .unsetSession payload
  | "online" => bare? .online payload
  | "offline" => bare? .offline payload
  | "resolveError" => bare? .resolveError payload
  | "replace" => return .replace (← ofJson? (← payload))
  | "assign" => return .assign (← ofJson? (← payload))
  | "initialize" => return .clear (← (← payload).field? "entityName")
  | "commit" =>
      let fields ← payload
      return .commit (← fields.field? "entityName") (← fields.field? "id")
        (← fields.field? "operation")
  | "revert" =>
      let fields ← payload
      return .revert (← fields.field? "entityName") (← fields.field? "id")
        (← fields.field? "operations")
  | "follow" =>
      let fields ← payload
      return .follow (← fields.field? "entityName") (← fields.field? "entity")
        (← fields.optionalField? "versionId")
  | "followAll" =>
      let fields ← payload
      return .followAll (← fields.field? "entityName") (← fields.field? "entities")
        (← fields.field? "versionsById")
  | "unfollow" =>
      let fields ← payload
      return .unfollow (← fields.field? "entityName") (← fields.field? "id")
  | "addUnreachedCommits" => return .addUnreachedCommits (← ofJson? (← payload))
  | "removeUnreachedCommits" => return .removeUnreachedCommits (← ofJson? (← payload))
  | "networkRequest" => return .networkRequest (← ofJson? (← payload))
  | "removeNetworkRequest" => return .removeNetworkRequest (← ofJson? (← payload))
  | "setSession" =>
      let fields ← payload
      return .setSession (← fields.field? "session") (← fields.optionalField? "user")
        (← fields.optionalField? "versionId")
  | "error" =>
      let fields ← payload
      return .error (← fields.field? "error") (← fields.field? "actionTag")
  | "patch" => return .patch (← ofJson? (← payload))
  | "rebase" => return .rebase (← ofJson? (← payload))
  | "synchronize" =>
      let fields ← payload
      return .synchronize (← fields.field? "command") (← fields.field? "localCommits")
  | "synchronizeFrom" =>
      let fields ← payload
      return .synchronizeFrom (← fields.field? "command") (← fields.field? "origin")
        (← fields.field? "localCommits")
  | _ => none

/-- The contents of an action that come before its name.  They are kept until
the name is known, and then the kind and the site of an error may also hold an
empty object.  Both actions that carry an error have it under the same key. -/
def settlePayload (payload : Json) : Json :=
  payload.change "error" (fun error =>
    (error.change "type" Json.settleChoice).change "at" Json.settleChoice)

instance : JsonForm Action where
  toJson action := .object
    (("type", .string action.wireName) ::
      (action.payload?.map (fun payload => ("payload", payload))).toList)
  ofJson? tree := do
    let payload :=
      if tree.precedes "payload" "type" then (tree.get? "payload").map settlePayload
      else tree.get? "payload"
    ofPayload? (← (← tree.get? "type").choice?) payload

end Action

end LocalFirst
