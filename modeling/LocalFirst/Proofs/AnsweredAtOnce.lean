import LocalFirst.Proofs.LoneCalls
import LocalFirst.Proofs.Scenes
import LocalFirst.Proofs.WithEntity
import LocalFirst.Proofs.WorldSteps

/-!
# Pushes that are answered at once

A push that nothing crosses sends some of the commits, and the server answers before anything else
happens.  The client then folds the answer and these commits into the origin.
-/

namespace LocalFirst

namespace Client

variable {client : Client} {key : EntityKey} {info : EntityInfo} {limit : Option Nat}

/-- A request is recorded under the next tag. -/
theorem run_openRequest (queue : client.state.QueueReads) :
    ∃ tag ids store,
      client.run openRequest = (.ok tag, { client with store := store, ids := ids }) ∧
      store.state.entities = client.state.entities ∧
      store.state.network.isOnline = client.state.network.isOnline ∧
      store.state.isPending tag = true ∧ store.state.QueueReads := by
  let tag := client.ids.next.1
  let issued : Client := { client with ids := client.ids.next.2 }
  obtain ⟨next, reduced, reads⟩ :=
    LocalState.exists_reduce_networkRequest queue client.clock tag
  obtain ⟨store, rfl, ran⟩ := @run_dispatch_reduces issued _ _ reduced
  have network := LocalState.reduce_networkRequest reduced
  refine ⟨tag, client.ids.next.2, store, ?_,
    LocalState.entities_of_reduce_beside (by exact trivial) reduced, by rw [network], ?_, reads⟩
  · change issued.run (dispatch (.networkRequest tag) >>= fun _ => pure tag) = _
    rw [run_bind_ok ran, run_pure]
  · rw [LocalState.isPending, network]
    simp

/-- A client that is online sends the first commits of an entity, as many as the limit lets it. -/
theorem run_sendCommits (known : client.state.find? key.entityName key.id = some info)
    (online : client.state.network.isOnline = true) (queue : client.state.QueueReads)
    (nonzero : batchSize limit info.commits.length ≠ 0) (few : info.commits.length < Nat.pow 2 63) :
    ∃ tag ids store,
      client.run (sendCommits key limit) = (.ok (.sent tag ⟨key, info.versionId, info.origin,
          info.commits.take (batchSize limit info.commits.length)⟩),
        { client with store := store, ids := ids }) ∧
      store.state.entities = client.state.entities ∧ store.state.network.isOnline = true ∧
      store.state.isPending tag = true ∧ store.state.QueueReads := by
  let count := batchSize limit info.commits.length
  let entry : UnreachedCommit := ⟨key.entityName, key.id, UInt64.ofNat count⟩
  have small : entry.commitCount.toNat < Nat.pow 2 63 := by
    have fewer : count < Nat.pow 2 63 := Nat.lt_of_le_of_lt (batchSize_le _ _) few
    have isWord : count < UInt64.size := Nat.lt_trans fewer (by decide)
    change (UInt64.ofNat count).toNat < Nat.pow 2 63
    rwa [UInt64.toNat_ofNat_of_lt' isWord]
  obtain ⟨next, reduced⟩ :=
    LocalState.exists_reduce_addUnreachedCommits queue client.clock small
  obtain ⟨queued, rfl, queues⟩ := run_dispatch_reduces reduced
  have sameNetwork := LocalState.network_of_reduce (by rintro ⟨⟩) reduced
  obtain ⟨tag, ids, store, opens, entities, stays, pending, reads⟩ :=
    @run_openRequest { client with store := queued } (queue.reduce (by exact trivial) reduced)
  refine ⟨tag, ids, store, ?_, ?_, ?_, pending, reads⟩
  · simp only [sendCommits, snapshot, run_bind, run_get, run_pure, run_entityInfo_ok known]
    rw [if_neg nonzero, run_bind_ok queues, if_neg (by simp [online]), run_bind_ok opens, run_pure]
  · exact entities.trans (LocalState.entities_of_reduce_beside (by exact trivial) reduced)
  · exact stays.trans ((congrArg NetworkState.isOnline sameNetwork).trans online)

/-- A push of an entity of which none is in flight is sent, and its entity is marked. -/
theorem run_startPush (free : key ∉ client.inFlight)
    (known : client.state.find? key.entityName key.id = some info)
    (online : client.state.network.isOnline = true) (queue : client.state.QueueReads)
    (nonzero : batchSize client.maxPushBatch info.commits.length ≠ 0)
    (few : info.commits.length < Nat.pow 2 63) :
    ∃ tag ids store,
      client.run (startPush key) = (.ok (.waiting ⟨tag, .push ⟨key, info.versionId, info.origin,
          info.commits.take (batchSize client.maxPushBatch info.commits.length)⟩ none⟩),
        { client with store := store, ids := ids, inFlight := key :: client.inFlight }) ∧
      store.state.entities = client.state.entities ∧ store.state.network.isOnline = true ∧
      store.state.isPending tag = true ∧ store.state.QueueReads := by
  let job : PushJob := ⟨key, info.versionId, info.origin,
    info.commits.take (batchSize client.maxPushBatch info.commits.length)⟩
  let claimed : Client := { client with inFlight := key :: client.inFlight }
  obtain ⟨tag, ids, store, sends, entities, stays, pending, reads⟩ :=
    @run_sendCommits claimed key info client.maxPushBatch known online queue nonzero few
  let sent : Client := { claimed with store := store, ids := ids }
  have begins : client.run (beginPush key client.maxPushBatch) = (.ok (.sent tag job), sent) := by
    rw [run_beginPush_of_notMem free, run_bind_ok (run_releaseOnError_ok sends), run_pure]
  refine ⟨tag, ids, store, ?_, entities, stays, pending, reads⟩
  rw [startPush, run_bind, run_get]
  dsimp only
  rw [run_bind_ok begins, run_pure]

/-- A push that would send nothing leaves the client as it was. -/
theorem run_startPush_clean (free : key ∉ client.inFlight)
    (known : client.state.find? key.entityName key.id = some info)
    (none : batchSize client.maxPushBatch info.commits.length = 0) :
    client.run (startPush key) = (.ok (.finished (.pushed .clean)), client) := by
  let claimed : Client := { client with inFlight := key :: client.inFlight }
  have claimedKnown : claimed.state.find? key.entityName key.id = some info := known
  have sends : claimed.run (sendCommits key client.maxPushBatch) =
      (.ok (.ended .clean), claimed) := by
    simp only [sendCommits, snapshot, run_bind, run_get, run_pure, run_entityInfo_ok claimedKnown]
    rw [if_pos none, run_pure]
  have begins : client.run (beginPush key client.maxPushBatch) = (.ok (.ended .clean), client) := by
    rw [run_beginPush_of_notMem free, run_bind_ok (run_releaseOnError_ok sends)]
    change (_, claimed.releasing key) = _
    rw [releasing, List.erase_cons_head]
  rw [startPush, run_bind, run_get]
  dsimp only
  rw [run_bind_ok begins, run_pure]

theorem queueReads_of_openRequest {tag : String} {after : Client}
    (opens : client.run openRequest = (.ok tag, after)) : client.state.QueueReads := by
  have reads := (gives_openRequest_queueReads client trivial).2.2 tag (by rw [opens])
  exact reads.of_unreachedCommits (spares_openRequest client).queue.symm

/-- What it takes to send the commits of an entity. -/
theorem sends_of_sendCommits {tag : String} {job : PushJob} {after : Client}
    (known : client.state.find? key.entityName key.id = some info)
    (sends : client.run (sendCommits key limit) = (.ok (.sent tag job), after)) :
    batchSize limit info.commits.length ≠ 0 ∧ client.state.network.isOnline = true ∧
      client.state.QueueReads := by
  let entry : UnreachedCommit :=
    ⟨key.entityName, key.id, UInt64.ofNat (batchSize limit info.commits.length)⟩
  simp only [sendCommits, snapshot, run_bind, run_get, run_pure, run_entityInfo_ok known] at sends
  split at sends
  · cases sends
  next nonzero =>
  obtain ⟨next, reduced, queued, queues, rfl⟩ | ⟨_, _, _, failed, _⟩ :=
    run_dispatch client (.addUnreachedCommits entry)
  · rw [run_bind_ok queues] at sends
    split at sends
    · cases sends
    next online =>
    refine ⟨nonzero, by simpa using online, ?_⟩
    rcases opens : queued.run openRequest with ⟨_ | opened, last⟩
    · rw [run_bind_error opens] at sends
      cases sends
    · intro commit member
      refine queueReads_of_openRequest opens commit ?_
      rw [LocalState.reduce_addUnreachedCommits reduced]
      exact List.mem_append_left _ member
  · rw [run_bind_error failed] at sends
    cases sends

/-- What it takes for a push to wait for an answer. -/
theorem sends_of_startPush {suspended : Suspended} {after : Client}
    (known : client.state.find? key.entityName key.id = some info)
    (waits : client.run (startPush key) = (.ok (.waiting suspended), after)) :
    key ∉ client.inFlight ∧ batchSize client.maxPushBatch info.commits.length ≠ 0 ∧
      client.state.network.isOnline = true ∧ client.state.QueueReads := by
  let claimed : Client := { client with inFlight := key :: client.inFlight }
  rw [startPush, run_bind, run_get] at waits
  dsimp only at waits
  by_cases marked : key ∈ client.inFlight
  · rw [run_bind_ok (run_beginPush_of_mem marked _)] at waits
    cases waits
  refine ⟨marked, ?_⟩
  rw [run_bind, run_beginPush_of_notMem marked] at waits
  rcases sends : claimed.run (sendCommits key client.maxPushBatch) with
    ⟨error | ⟨outcome | ⟨tag, job⟩⟩, sent⟩
  · rw [run_bind_error (run_releaseOnError_error sends)] at waits
    cases waits
  · rw [run_bind_ok (run_releaseOnError_ok sends)] at waits
    cases waits
  · exact @sends_of_sendCommits claimed _ _ _ _ _ _ known sends

/-- An accepted push of an entity that has not moved folds its commits into the origin when the
answer and all commits can be replayed, and its mark goes away. -/
theorem run_resume_accepted {job : PushJob} {tag versionId : String}
    {operations rest : List Update} {synced head : Document}
    (awaited : client.state.isPending tag = true) (queue : client.state.QueueReads)
    (known : client.state.find? job.key.entityName job.key.id = some info)
    (unmoved : info.versionId = job.versionId)
    (addressable : (entityPath job.key.entityName job.key.id).fault? = none)
    (pending : info.commits = job.commits ++ rest)
    (replayed : Update.applyAll client.clock info.origin (operations ++ job.commits) = .ok synced)
    (headOk : LocalState.headOf client.clock synced rest = .ok head)
    (written : ∀ commit ∈ rest, commit.stored = .ok commit) :
    ∃ store : Store,
      client.run (resume tag (.push job none)
          (.ok ⟨job.key.entityName, job.key.id, versionId, operations⟩)) =
        (.ok (.finished (.pushed (.synced job.commits.length))),
          { client with store := store, inFlight := client.inFlight.erase job.key }) ∧
      store.state.find? job.key.entityName job.key.id = some (EntityInfo.settled
        ⟨synced, some versionId, rest, if head.isNull then none else some head⟩) ∧
      store.state.network.isOnline = client.state.network.isOnline ∧ store.state.QueueReads := by
  obtain ⟨closed, entities, stays, reads, settles⟩ := run_settlePush_unmoved
    ⟨job.key.entityName, job.key.id, versionId, operations⟩ awaited queue known unmoved
  let closing : Client := { client with store := closed }
  have found : closed.state.find? job.key.entityName job.key.id = some info :=
    (LocalState.find?_of_entities entities _ _).trans known
  have reduced := LocalState.reduce_synchronize_of_replays reads addressable found pending replayed
    headOk written versionId
  obtain ⟨synchronized, isNext, synchronizes⟩ := @run_dispatch_reduces closing _ _ reduced
  have nextReads : synchronized.state.QueueReads := by
    rw [isNext]
    exact reads.reduce (by exact trivial) reduced
  obtain ⟨store, retires, storeEntities, storeNetwork, storeReads, _⟩ :=
    @run_retire_eq job.key (UInt64.ofNat job.commits.length)
      { client with store := synchronized } nextReads
  have ran : client.run (settlePush job tag
      (.ok ⟨job.key.entityName, job.key.id, versionId, operations⟩)) =
        (.ok (.ended (.synced job.commits.length)), { client with store := store }) := by
    rw [settles, run_bind_ok synchronizes, run_bind_ok retires, run_pure]
  obtain ⟨error, failed, _⟩ | ⟨outcome, ended, goesOn⟩ := run_resume_settled_push none ran (by simp)
  · cases failed
  cases ended
  have network : synchronized.state.network = closed.state.network := by
    rw [isNext]
    rfl
  refine ⟨store, goesOn, ?_, ?_, storeReads⟩
  · rw [LocalState.find?_of_entities storeEntities]
    change synchronized.state.find? job.key.entityName job.key.id = _
    rw [isNext, LocalState.find?_withEntity_self]
  · rw [storeNetwork]
    change synchronized.state.network.isOnline = _
    rw [network, stays]

end Client

namespace Scene

/-- Answer what a call waits for, until it ends or has made the requests that it may. -/
def settle : Nat → Scene → Suspended → Except ClientError Progress × Scene
  | 0, scene, suspended => (.ok (.waiting suspended), scene)
  | allowance + 1, scene, ⟨tag, flight⟩ =>
      let answered := scene.ask flight.request
      match answered.2.run (Client.resume tag flight answered.1) with
      | (.ok (.waiting next), scene) => settle allowance scene next
      | ended => ended

/-- A call that runs to its end while nothing else happens. -/
def call (scene : Scene) (call : Call) : Except ClientError Progress × Scene :=
  match scene.run (Client.start call) with
  | (.ok (.waiting suspended), scene) => settle suspended.flight.requestsLeft scene suspended
  | ended => ended

/-- The client of a scene is a peer of a world with the same server, and its answers are not
scripted. -/
structure Shows (name : String) (scene : Scene) (world : World) : Prop where
  server : scene.server = world.server
  peer : ∃ peer, world.peers.get? name = some peer ∧ peer.script = [] ∧ peer.client = scene.client

/-- A round trip in a world is one of the scene. -/
theorem shows_exchange {name : String} {scene : Scene} {world : World} {peer : Peer}
    (server : scene.server = world.server) (noScript : peer.script = [])
    (client : peer.client = scene.client) (suspended : Suspended) :
    let answered := scene.ask suspended.flight.request
    let resumed := answered.2.run (Client.resume suspended.tag suspended.flight answered.1)
    resumed.1 = (world.exchange name peer suspended).1 ∧
      Shows name resumed.2 (world.exchange name peer suspended).2 := by
  intro answered resumed
  have same : resumed.1 = (world.resumed peer suspended).1 ∧
      resumed.2.client = (world.resumed peer suspended).2 := by
    rw [World.resumed, client, ← server]
    exact ⟨rfl, rfl⟩
  refine ⟨same.1, ?_, _, (World.get?_exchange ..).trans (if_pos rfl), noScript, same.2.symm⟩
  rw [World.server_exchange, ← server]
  rfl

theorem Shows.settle {name : String} {scene : Scene} {world : World}
    (shows : Shows name scene world) (allowance : Nat) (suspended : Suspended) :
    (scene.settle allowance suspended).1 = (world.settle name allowance suspended).1.result ∧
      Shows name (scene.settle allowance suspended).2
        (world.settle name allowance suspended).2 := by
  induction allowance generalizing scene world suspended with
  | zero => exact ⟨rfl, shows⟩
  | succ allowance ih =>
      obtain ⟨server, peer, found, noScript, client⟩ := shows
      obtain ⟨tag, flight⟩ := suspended
      obtain ⟨same, shows⟩ := @shows_exchange name _ _ _ server noScript client ⟨tag, flight⟩
      rw [World.settle_succ found noScript, Scene.settle]
      generalize (scene.ask flight.request).2.run _ = resumed at same shows ⊢
      generalize world.exchange name peer ⟨tag, flight⟩ = exchanged at same shows ⊢
      obtain ⟨result, sceneAfter⟩ := resumed
      obtain ⟨_, worldAfter⟩ := exchanged
      cases same
      rcases result with error | value | next
      · exact ⟨rfl, shows⟩
      · exact ⟨rfl, shows⟩
      · exact ih shows next

/-- A call of a scene is the call of its peer in a world. -/
theorem shows_call {name : String} {scene : Scene} {world : World} {peer : Peer}
    (server : scene.server = world.server) (noScript : peer.script = [])
    (client : peer.client = scene.client) (call : Call) :
    (scene.call call).1 = (world.call name peer call).1.result ∧
      Shows name (scene.call call).2 (world.call name peer call).2 := by
  have starts : Shows name (scene.run (Client.start call)).2
      (world.runPeer name peer (Client.start call)).2 := by
    refine ⟨server, _, (World.get?_runPeer ..).trans (if_pos rfl), noScript, ?_⟩
    rw [client]
    rfl
  have same : (scene.run (Client.start call)).1 =
      (world.runPeer name peer (Client.start call)).1 := by
    rw [World.runPeer, client]
    rfl
  rw [World.call_eq, Scene.call]
  generalize scene.run (Client.start call) = started at same starts ⊢
  generalize world.runPeer name peer (Client.start call) = ran at same starts ⊢
  obtain ⟨result, sceneAfter⟩ := started
  obtain ⟨_, worldAfter⟩ := ran
  cases same
  rcases result with error | value | next
  · exact ⟨rfl, starts⟩
  · exact ⟨rfl, starts⟩
  · exact starts.settle next.flight.requestsLeft next

/-- A call ends at the first answer when nothing is left for it to wait for. -/
theorem call_of_resume {scene waiting answered ended : Scene} {call : Call} {tag : String}
    {flight : Flight} {response : flight.request.Response} {result : CallResult}
    (starts : scene.run (Client.start call) = (.ok (.waiting ⟨tag, flight⟩), waiting))
    (asks : waiting.ask flight.request = (response, answered))
    (ends : answered.run (Client.resume tag flight response) = (.ok (.finished result), ended)) :
    scene.call call = (.ok (.finished result), ended) := by
  rw [Scene.call, starts]
  obtain ⟨allowance, more⟩ :=
    Nat.exists_eq_succ_of_ne_zero (Nat.ne_of_gt (World.requestsLeft_pos flight))
  dsimp only
  rw [more, settle, asks, ends]

end Scene

end LocalFirst
