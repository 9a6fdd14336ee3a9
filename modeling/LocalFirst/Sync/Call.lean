import LocalFirst.Sync.Client

/-!
# Calls with requests

A call runs until it needs an answer of the server.  It is then suspended, as a
value that says what the answer is for, and resumed when the answer comes, so
that anything may happen in between.

At most one push of an entity is in flight.  Its commits are queued before the
request goes out and retired when the server answers.  An answer that comes
after the entity has moved to another version is settled on the origin that the
push was made from, and a pull then catches up with the server.
-/

namespace LocalFirst

/-- How a push has ended. -/
inductive PushOutcome where
  | clean
  | synced (acknowledged : Nat)
  | queued (pending : Nat)
  | ignored
  | inFlight
  deriving DecidableEq, Repr

def PushOutcome.isQueued : PushOutcome → Bool
  | .queued _ => true
  | _ => false

/-- What a call gives. -/
inductive CallResult where
  | done
  | pushed (outcome : PushOutcome)
  | repushed (outcomes : List PushOutcome)
  deriving DecidableEq, Repr

/-- The calls that may need the server. -/
inductive Call where
  | follow (key : EntityKey)
  | push (key : EntityKey)
  | pull (key : EntityKey)
  | delete (key : EntityKey)
  | commitAndPush (key : EntityKey) (operation : Update)
  | repush
  | goOnline
  | login (command : LoginCommand)
  | logout

/-- A push as it was sent. -/
structure PushJob where
  key : EntityKey
  versionId : Option String
  origin : Document
  commits : List Update

/-- A repush in the middle of the push of one entity. -/
structure Repush where
  key : EntityKey
  count : UInt64
  remaining : List (EntityKey × UInt64)
  outcomes : List PushOutcome

/-- How a client brings an entity up to date. -/
inductive PullKind where
  | fetch
  | since (versionId : String)

/-- What a suspended call waits for. -/
inductive Flight where
  | follow (key : EntityKey)
  | pull (key : EntityKey) (kind : PullKind)
  | push (job : PushJob) (next : Option Repush)
  | catchUp (job : PushJob) (kind : PullKind) (next : Option Repush)
  | login (command : LoginCommand)
  | logout (session : Session)
  | delete (key : EntityKey)

def PushJob.request (job : PushJob) : PushRequest :=
  ⟨job.key.entityName, job.key.id, job.versionId, job.commits⟩

abbrev PullKind.request (key : EntityKey) : PullKind → Request
  | .fetch => .get key
  | .since versionId => .pull key versionId

/-- The request whose answer a suspended call waits for. -/
abbrev Flight.request : Flight → Request
  | .follow key => .get key
  | .pull key kind => kind.request key
  | .push job _ => .push job.request
  | .catchUp job kind _ => kind.request job.key
  | .login command => .login command
  | .logout session => .logout session.id
  | .delete key => .delete key

structure Suspended where
  tag : String
  flight : Flight

/-- How far a call has come. -/
inductive Progress where
  | finished (result : CallResult)
  | waiting (suspended : Suspended)

namespace Client

/-- Record a request and wait for its answer. -/
def waitFor (flight : Flight) : ClientM Progress :=
  return .waiting ⟨← openRequest, flight⟩

/-- Start to follow what the server has sent. -/
def settleFollow (key : EntityKey) (tag : String) (response : Except RemoteError Fetched) :
    ClientM Unit := do
  if ← closeRequest tag then
    match response with
    | .ok fetched => dispatch (.follow key.entityName fetched.entity (some fetched.versionId))
    | .error error => fail tag error

/-- Rebase an entity on the operations that the server has sent. -/
def settleRebase (tag : String) (response : Except RemoteError PushCommand) :
    ClientM Unit := do
  if ← closeRequest tag then
    match response with
    | .ok command => dispatch (.rebase command)
    | .error error => fail tag error

def settlePull (key : EntityKey) (tag : String) :
    (kind : PullKind) → (kind.request key).Response → ClientM Unit
  | .fetch, response => settleFollow key tag response
  | .since _, response => settleRebase tag response

/-- How a pull of an entity goes about it: one without a version is fetched. -/
def pullKind (key : EntityKey) : ClientM PullKind := do
  match (← entityInfo key).versionId with
  | none => return .fetch
  | some versionId => return .since versionId

def settleLogin (tag : String) (response : Except RemoteError LoginResponse) :
    ClientM Unit := do
  if ← closeRequest tag then
    match response with
    | .ok response =>
        dispatch (.setSession response.session (some response.user) (some response.versionId))
    | .error error => fail tag error

def settleLogout (session : Session) (tag : String) (response : Except RemoteError Unit) :
    ClientM Unit := do
  if ← closeRequest tag then
    match response with
    | .error error => fail tag error
    | .ok () =>
        dispatch .unsetSession
        match session.userId with
        | some userId => unfollowIfFollowed ⟨session.entityName, userId⟩
        | none => return ()

def settleDelete (key : EntityKey) (tag : String) (response : Except RemoteError Unit) :
    ClientM Unit := do
  if ← closeRequest tag then
    match response with
    | .ok () => unfollowIfFollowed key
    | .error error => fail tag error

/-- A push that has just begun: it ends at once or is on its way. -/
inductive PushStart where
  | ended (outcome : PushOutcome)
  | sent (tag : String) (job : PushJob)

/-- How many commits to send under a bound. -/
def batchSize (limit : Option Nat) (pending : Nat) : Nat :=
  match limit with
  | none => pending
  | some bound => Nat.min bound pending

/-- Queue the commits of an entity and send them, if there are any and the
client is online. -/
def sendCommits (key : EntityKey) (limit : Option Nat) : ClientM PushStart := do
  let state ← snapshot
  let info ← entityInfo key
  let count := batchSize limit info.commits.length
  if count = 0 then
    return .ended .clean
  dispatch (.addUnreachedCommits ⟨key.entityName, key.id, UInt64.ofNat count⟩)
  if !state.network.isOnline then
    return .ended (.queued count)
  let tag ← openRequest
  return .sent tag ⟨key, info.versionId, info.origin, info.commits.take count⟩

/-- Begin to push an entity, unless a push of it is in flight.  The mark stays
while the push is on its way. -/
def beginPush (key : EntityKey) (limit : Option Nat) : ClientM PushStart := do
  if (← get).inFlight.contains key then
    return .ended .inFlight
  claim key
  match ← releaseOnError key (sendCommits key limit) with
  | .ended outcome =>
      release key
      return .ended outcome
  | .sent tag job => return .sent tag job

/-- How the answer to a push has been settled. -/
inductive PushSettled where
  | ended (outcome : PushOutcome)
  | moved

/-- Settle the answer to a push.  When the entity has moved in the meantime, a
pull has to follow. -/
def settlePush (job : PushJob) (tag : String) (response : Except RemoteError PushCommand) :
    ClientM PushSettled := do
  if !(← closeRequest tag) then
    return .ended .ignored
  let count := job.commits.length
  match response with
  | .ok command =>
      let info ← entityInfo job.key
      if info.versionId = job.versionId then
        dispatch (.synchronize command job.commits)
        retire job.key (UInt64.ofNat count)
        return .ended (.synced count)
      else
        dispatch (.synchronizeFrom command job.origin job.commits)
        retire job.key (UInt64.ofNat count)
        return .moved
  | .error (.network message) =>
      recordFailure tag (.network message)
      return .ended (.queued count)
  | .error error =>
      retire job.key (UInt64.ofNat count)
      fail tag error

/-- The entities with queued commits, each with the number of them, in order of
their first entries. -/
def queuedEntities (entries : List UnreachedCommit) : List (EntityKey × UInt64) :=
  entries.foldl (fun queued entry => add queued ⟨entry.entityName, entry.id⟩ entry.commitCount) []
where
  /-- Add commits of one entity. -/
  add (queued : List (EntityKey × UInt64)) (key : EntityKey) (count : UInt64) :
      List (EntityKey × UInt64) :=
    match queued with
    | [] => [(key, count)]
    | (other, total) :: rest =>
        if other = key then (other, total + count) :: rest else (other, total) :: add rest key count

/-- Push one entity after another.  Entries of entities that are not followed,
or have no commits, are removed; the server being out of reach ends it. -/
def repushEach (outcomes : List PushOutcome) :
    List (EntityKey × UInt64) → ClientM Progress
  | [] => return .finished (.repushed outcomes)
  | (key, count) :: remaining => do
      if !(← snapshot).hasEntity key.entityName key.id then
        retire key count
        repushEach outcomes remaining
      else
        match ← beginPush key (some count.toNat) with
        | .sent tag job => return .waiting ⟨tag, .push job (some ⟨key, count, remaining, outcomes⟩)⟩
        | .ended outcome =>
            if outcome = .clean then
              retire key count
            if outcome.isQueued then
              return .finished (.repushed (outcomes ++ [outcome]))
            else
              repushEach (outcomes ++ [outcome]) remaining

/-- Go on after a push has ended. -/
def afterPush (outcome : PushOutcome) : Option Repush → ClientM Progress
  | none => return .finished (.pushed outcome)
  | some repush => do
      if outcome = .clean then
        retire repush.key repush.count
      if outcome.isQueued then
        return .finished (.repushed (repush.outcomes ++ [outcome]))
      else
        repushEach (repush.outcomes ++ [outcome]) repush.remaining

/-- Begin the pull that catches up after a push.  An error does not matter. -/
def beginCatchUp (job : PushJob) (next : Option Repush) : ClientM Progress := do
  let begun : Option (PullKind × String) ← try
    let kind ← pullKind job.key
    let tag ← openRequest
    pure (some (kind, tag))
  catch _ => pure none
  match begun with
  | some (kind, tag) => return .waiting ⟨tag, .catchUp job kind next⟩
  | none =>
      release job.key
      afterPush (.synced job.commits.length) next

/-- Push an entity, as a call of its own. -/
def startPush (key : EntityKey) : ClientM Progress := do
  match ← beginPush key (← get).maxPushBatch with
  | .ended outcome => return .finished (.pushed outcome)
  | .sent tag job => return .waiting ⟨tag, .push job none⟩

/-- Push every entity with queued commits. -/
def startRepush : ClientM Progress := do
  repushEach [] (queuedEntities (← snapshot).unreachedCommits)

/-- Run a call until it ends or needs an answer. -/
def start : Call → ClientM Progress
  | .follow key => waitFor (.follow key)
  | .push key => startPush key
  | .pull key => do waitFor (.pull key (← pullKind key))
  | .delete key => waitFor (.delete key)
  | .commitAndPush key operation => do
      commit key operation
      startPush key
  | .repush => startRepush
  | .goOnline => do
      dispatch .online
      startRepush
  | .login command => waitFor (.login command)
  | .logout => do
      match (← snapshot).session with
      | none => return .finished .done
      | some session => waitFor (.logout session)

/-- Let a suspended call go on with the answer it has waited for. -/
def resume (tag : String) :
    (flight : Flight) → flight.request.Response → ClientM Progress
  | .follow key, response => do
      settleFollow key tag response
      return .finished .done
  | .pull key kind, response => do
      settlePull key tag kind response
      return .finished .done
  | .login _, response => do
      settleLogin tag response
      return .finished .done
  | .logout session, response => do
      settleLogout session tag response
      return .finished .done
  | .delete key, response => do
      settleDelete key tag response
      return .finished .done
  | .push job next, response => do
      match ← releaseOnError job.key (settlePush job tag response) with
      | .moved => beginCatchUp job next
      | .ended outcome =>
          release job.key
          afterPush outcome next
  | .catchUp job kind next, response => do
      try
        settlePull job.key tag kind response
      catch _ => pure ()
      release job.key
      afterPush (.synced job.commits.length) next

/-- Give up a suspended call.  The mark of its push is removed; its tag and its
queue entries stay. -/
def abandon (client : Client) : Flight → Client
  | .push job _ => { client with inFlight := client.inFlight.erase job.key }
  | .catchUp job _ _ => { client with inFlight := client.inFlight.erase job.key }
  | _ => client

end Client

/-- A bound on the requests that a suspended call may still make, with the one it
waits for.  Each push may be followed by one pull. -/
def Flight.requestsLeft : Flight → Nat
  | .push _ next => 2 + left next
  | .catchUp _ _ next => 1 + left next
  | _ => 1
where
  left : Option Repush → Nat
    | none => 0
    | some repush => 2 * repush.remaining.length

end LocalFirst
