import LocalFirst.Proofs.EntityEffects
import LocalFirst.Proofs.QuietParts
import LocalFirst.Proofs.ReadyActions
import LocalFirst.Sync.Call

/-!
# Settling an accepted push

The queue of a client that waits for an answer can be read, so that settling the answer comes down
to one action on the entity.
-/

namespace LocalFirst

namespace Client

/-- The state in which a request was recorded has been read from a document. -/
theorem gives_openRequest_queueReads :
    Gives (fun _ => True) openRequest fun _ state => state.QueueReads := by
  have fresh : Quiet freshId := fun _ _ => ⟨rfl, by rintro _ ⟨⟩, fun _ _ => trivial⟩
  refine fresh.thenGives fun tag => Gives.bind (?_ : Gives _ _ fun _ state => state.QueueReads)
    fun _ => gives_pure fun _ queue => queue
  refine gives_dispatch (by exact trivial) fun now state next _ reduced => ?_
  have applied : state.applyCommand now (LocalState.addRequest tag) = .ok next := reduced
  exact LocalState.queueReads_of_applyCommand rfl applied

theorem gives_sendCommits_queueReads (key : EntityKey) (limit : Option Nat) :
    Gives (fun _ => True) (sendCommits key limit) fun start state =>
      ∀ tag job, start = .sent tag job → state.QueueReads := by
  have ended : ∀ outcome, Gives (fun _ => True) (pure (.ended outcome) : ClientM PushStart)
      fun start state => ∀ tag job, start = .sent tag job → state.QueueReads :=
    fun outcome => gives_pure fun _ _ _ _ sent => by cases sent
  refine quiet_snapshot.thenGives fun before =>
    (gives_entityInfo key).bind fun info =>
      Gives.weaken ?_ (fun _ _ => trivial) fun _ _ good => good
  dsimp only
  split
  · exact ended _
  · refine (quiet_dispatch (by exact trivial)).thenGives fun _ => ?_
    split
    · exact ended _
    · exact gives_openRequest_queueReads.bind fun tag => gives_pure fun _ queue _ _ _ => queue

theorem gives_beginPush_queueReads (key : EntityKey) (limit : Option Nat) :
    Gives (fun _ => True) (beginPush key limit) fun start state =>
      ∀ tag job, start = .sent tag job → state.QueueReads := by
  refine quiet_get.thenGives fun client => ?_
  split
  · exact gives_pure fun _ _ _ _ sent => by cases sent
  · refine (quiet_claim key).thenGives fun _ =>
      Gives.bind ((gives_sendCommits_queueReads key limit).releaseOnError key) fun start => ?_
    cases start with
    | ended outcome =>
        refine Gives.weaken ((quiet_release key).thenGives fun _ => gives_pure ?_)
          (fun _ _ => trivial) fun _ _ good => good
        exact fun _ _ _ _ sent => by cases sent
    | sent tag job =>
        exact gives_pure fun _ queue _ _ _ => queue tag job rfl

/-- A request that is awaited can be closed. -/
theorem run_closeRequest_awaited {client : Client} {tag : String}
    (awaited : client.state.isPending tag = true) (queue : client.state.QueueReads) :
    ∃ store : Store, client.run (closeRequest tag) = (.ok true, { client with store := store }) ∧
      store.state.entities = client.state.entities ∧
      store.state.network.isOnline = client.state.network.isOnline ∧ store.state.QueueReads := by
  obtain ⟨next, reduced, nextQueue⟩ :=
    LocalState.exists_reduce_removeNetworkRequest queue client.clock tag
  obtain ⟨store, rfl, runs⟩ := run_dispatch_reduces reduced
  have closes : client.run (closeRequest tag) = client.run (do
      dispatch (.removeNetworkRequest tag)
      return true) := by
    simp only [closeRequest, snapshot, run_bind, run_get, run_pure, awaited, if_true]
  refine ⟨store, ?_, LocalState.entities_of_reduce_beside (by exact trivial) reduced, ?_,
    nextQueue⟩
  · rw [closes, run_bind_ok runs, run_pure]
  · rw [LocalState.reduce_removeNetworkRequest reduced]

theorem run_entityInfo_ok {client : Client} {key : EntityKey} {info : EntityInfo}
    (known : client.state.find? key.entityName key.id = some info) :
    client.run (entityInfo key) = (.ok info, client) := by
  simp [entityInfo, snapshot, run_bind, run_get, LocalState.entityInfo_of_find? known]

section Accepted

variable {client : Client} {job : PushJob} {tag : String} {info : EntityInfo}
  (command : PushCommand) (awaited : client.state.isPending tag = true)
  (queue : client.state.QueueReads)
  (known : client.state.find? job.key.entityName job.key.id = some info)
  (unmoved : info.versionId = job.versionId)

include awaited queue known unmoved

/-- To settle an accepted push of an entity that has not moved is to synchronise the entity, when
the request is closed. -/
theorem run_settlePush_unmoved :
    ∃ store : Store, store.state.entities = client.state.entities ∧
      store.state.network.isOnline = client.state.network.isOnline ∧ store.state.QueueReads ∧
      client.run (settlePush job tag (.ok command)) = Client.run { client with store := store } (do
        dispatch (.synchronize command job.commits)
        retire job.key (UInt64.ofNat job.commits.length)
        return PushSettled.ended (.synced job.commits.length)) := by
  obtain ⟨store, ran, sameEntities, sameOnline, storeQueue⟩ :=
    run_closeRequest_awaited awaited queue
  let between : Client := { client with store := store }
  have closes : client.run (closeRequest tag) = (.ok true, between) := ran
  have betweenKnown : between.state.find? job.key.entityName job.key.id = some info :=
    (LocalState.find?_of_entities sameEntities _ _).trans known
  refine ⟨store, sameEntities, sameOnline, storeQueue, ?_⟩
  simp only [settlePush, run_bind_ok closes, Bool.not_true, Bool.false_eq_true, if_false,
    run_bind_ok (run_entityInfo_ok betweenKnown), unmoved, if_true, between]

/-- An accepted push of an entity that has not moved comes down to one synchronisation. -/
theorem run_settlePush_accepted :
    let settled := client.run (settlePush job tag (.ok command))
    ∃ start : LocalState, start.entities = client.state.entities ∧ start.QueueReads ∧
      ((∃ next, Action.reduce client.clock start (.synchronize command job.commits) = .ok next ∧
          settled.2.state.entities = next.entities) ∨
        (∃ fault, Action.reduce client.clock start (.synchronize command job.commits) =
            .error fault ∧
          settled.1 = .error (.state fault) ∧
          settled.2.state.entities = client.state.entities)) := by
  intro settled
  obtain ⟨store, sameEntities, _, storeQueue, settles⟩ :=
    run_settlePush_unmoved command awaited queue known unmoved
  let between : Client := { client with store := store }
  refine ⟨store.state, sameEntities, storeQueue, ?_⟩
  rw [show settled = _ from settles]
  rcases run_dispatch between (.synchronize command job.commits) with
    ⟨next, reduced, after, runs, rfl⟩ | ⟨fault, reduced, after, runs, same⟩
  · refine .inl ⟨_, reduced, ?_⟩
    rw [run_bind_ok runs]
    exact ((quiet_retire job.key _).bind fun _ => quiet_pure _).entities after
  · refine .inr ⟨fault, reduced, ?_⟩
    rw [run_bind_error runs]
    exact ⟨rfl, (congrArg LocalState.entities same).trans sameEntities⟩

end Accepted

end Client

end LocalFirst
