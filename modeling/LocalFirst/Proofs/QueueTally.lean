import LocalFirst.Proofs.OpenedTrips
import LocalFirst.Proofs.PendingCounts

/-!
# The count of the queue

The queue is tallied when it holds no more commits of an entity than are pending, nor more than a
ceiling allows.  Parts of calls that change neither pending commits nor the queue keep the tally,
and so does removing entries; an action keeps it unless it takes commits away.
-/

namespace LocalFirst

namespace Client

variable {α β : Type}

/-- Nothing has changed on which the count of the queue depends. -/
structure Alike (before after : Client) : Prop where
  entities : after.state.entities = before.state.entities
  queue : after.state.unreachedCommits = before.state.unreachedCommits
  limit : after.maxPushBatch = before.maxPushBatch

theorem Alike.refl (client : Client) : Alike client client :=
  ⟨rfl, rfl, rfl⟩

theorem Alike.trans {before between after : Client} (first : Alike before between)
    (second : Alike between after) : Alike before after :=
  ⟨second.entities.trans first.entities, second.queue.trans first.queue,
    second.limit.trans first.limit⟩

theorem alike_of_state {before after : Client} (same : after.state = before.state)
    (limit : after.maxPushBatch = before.maxPushBatch) : Alike before after :=
  ⟨congrArg LocalState.entities same, congrArg LocalState.unreachedCommits same, limit⟩

/-- A part of a call after which the client is alike. -/
def Spares (call : ClientM α) : Prop :=
  ∀ client : Client, Alike client (client.run call).2

theorem spares_pure (value : α) : Spares (pure value) :=
  fun client => .refl client

theorem spares_throw (error : ClientError) : Spares (throw error : ClientM α) :=
  fun client => .refl client

theorem Spares.bind {first : ClientM α} {next : α → ClientM β} (spares : Spares first)
    (rest : ∀ value, Spares (next value)) : Spares (first >>= next) := by
  intro client
  have alike := spares client
  rw [run_bind]
  rcases ran : client.run first with ⟨error | value, between⟩ <;> rw [ran] at alike
  · exact alike
  · exact alike.trans (rest value between)

theorem spares_get : Spares get :=
  fun client => .refl client

theorem spares_snapshot : Spares snapshot :=
  fun client => .refl client

theorem spares_claim (key : EntityKey) : Spares (claim key) :=
  fun _ => ⟨rfl, rfl, rfl⟩

theorem spares_release (key : EntityKey) : Spares (release key) :=
  fun _ => ⟨rfl, rfl, rfl⟩

theorem spares_dispatch {action : Action} (beside : action.IsBeside)
    (outside : ¬ action.ReachesField .unreachedCommits) : Spares (dispatch action) := by
  intro client
  obtain ⟨result, store, ran, ⟨_, reduced⟩ | ⟨same, _⟩⟩ := run_dispatch_store client action <;>
    rw [ran]
  · exact ⟨LocalState.entities_of_reduce_beside beside reduced,
      LocalState.unreachedCommits_of_reduce outside reduced, rfl⟩
  · exact alike_of_state same rfl

theorem spares_openRequest : Spares openRequest := by
  have spares_freshId : Spares freshId := fun _ => ⟨rfl, rfl, rfl⟩
  exact spares_freshId.bind fun _ =>
    (spares_dispatch (by exact trivial) (by rintro ⟨⟩)).bind fun _ => spares_pure _

theorem spares_closeRequest (tag : String) : Spares (closeRequest tag) := by
  refine spares_snapshot.bind fun state => ?_
  split
  · exact (spares_dispatch (by exact trivial) (by rintro ⟨⟩)).bind fun _ => spares_pure _
  · exact spares_pure _

theorem spares_recordFailure (tag : String) (error : RemoteError) :
    Spares (recordFailure tag error) := by
  unfold recordFailure
  split <;> exact spares_dispatch (by exact trivial) (by rintro ⟨⟩)

theorem spares_fail (tag : String) (error : RemoteError) : Spares (fail tag error : ClientM α) :=
  (spares_recordFailure tag error).bind fun _ => spares_throw _

theorem spares_waitFor (flight : Flight) : Spares (waitFor flight) :=
  spares_openRequest.bind fun _ => spares_pure _

theorem spares_entityInfo (key : EntityKey) : Spares (entityInfo key) := by
  refine spares_snapshot.bind fun state => ?_
  split
  · exact spares_pure _
  · exact spares_throw _

theorem spares_pullKind (key : EntityKey) : Spares (pullKind key) := by
  refine (spares_entityInfo key).bind fun info => ?_
  split <;> exact spares_pure _

/-- The queue can be read back, holds no more commits of an entity than are pending, nor more than
a ceiling for it, and the pending commits can be counted in a word. -/
structure Tallied (limit : Option Nat) (ceiling : EntityKey → Option Nat) (client : Client) :
    Prop where
  config : client.maxPushBatch = limit
  reads : client.state.QueueReads
  covered : ∀ key, client.state.queued key ≤ (client.state.pending key).length
  bounded : ∀ key bound, ceiling key = some bound → client.state.queued key ≤ bound
  fits : ∀ key, (client.state.pending key).length < UInt64.size

variable {limit : Option Nat} {ceiling : EntityKey → Option Nat}

theorem Tallied.alike {before after : Client} (tallied : Tallied limit ceiling before)
    (alike : Alike before after) : Tallied limit ceiling after where
  config := alike.limit.trans tallied.config
  reads := tallied.reads.of_unreachedCommits alike.queue
  covered key := by
    rw [LocalState.queued_of_unreachedCommits alike.queue,
      LocalState.pending_of_entities alike.entities]
    exact tallied.covered key
  bounded key bound isBound := by
    rw [LocalState.queued_of_unreachedCommits alike.queue]
    exact tallied.bounded key bound isBound
  fits key := by
    rw [LocalState.pending_of_entities alike.entities]
    exact tallied.fits key

/-- The entries of an entity were removed, all of them if a count covers them. -/
structure Retired (key : EntityKey) (count : Nat) (before after : Client) : Prop where
  entities : after.state.entities = before.state.entities
  limit : after.maxPushBatch = before.maxPushBatch
  reads : after.state.QueueReads
  fewer : after.state.unreachedCommits.Sublist before.state.unreachedCommits
  cleared : before.state.queued key ≤ count → after.state.entriesOf key = []

/-- The entries in front are removed as long as the count covers them, and with them all entries
that equal one of them. -/
theorem run_retireEntries (entries : List UnreachedCommit) (remaining : UInt64) {client : Client}
    (reads : client.state.QueueReads) :
    ∃ store : Store,
      client.run (retireEntries remaining entries) = (.ok (), { client with store := store }) ∧
      store.state.entities = client.state.entities ∧
      store.state.network = client.state.network ∧ store.state.QueueReads ∧
      store.state.unreachedCommits = client.state.unreachedCommits.filter
        (· ∉ UnreachedCommit.covered remaining.toNat entries) := by
  induction entries generalizing client remaining with
  | nil => exact ⟨client.store, rfl, rfl, rfl, reads, by simp [UnreachedCommit.covered, state]⟩
  | cons entry rest ih =>
      by_cases short : remaining < entry.commitCount
      · refine ⟨client.store, ?_, rfl, rfl, reads, ?_⟩
        · rw [retireEntries, if_pos short]
          rfl
        · rw [UnreachedCommit.covered, if_pos (UInt64.lt_iff_toNat_lt.1 short)]
          simp [state]
      obtain ⟨next, reduced⟩ :=
        LocalState.exists_reduce_removeUnreachedCommits reads client.clock entry
      obtain ⟨between, rfl, ran⟩ := run_dispatch_reduces reduced
      obtain ⟨store, restRan, entities, network, storeReads, queue⟩ :=
        @ih (remaining - entry.commitCount) { client with store := between }
          (reads.reduce (by exact trivial) reduced)
      have sameNetwork : between.state.network = client.state.network :=
        LocalState.network_of_reduce (by rintro ⟨⟩) reduced
      refine ⟨store, ?_, ?_, network.trans sameNetwork, storeReads, ?_⟩
      · rw [retireEntries, if_neg short, run_bind_ok ran, restRan]
      · exact entities.trans (LocalState.entities_of_reduce_beside (by exact trivial) reduced)
      · have covers := UInt64.le_iff_toNat_le.1 (UInt64.not_lt.1 short)
        rw [queue, state, LocalState.reduce_removeUnreachedCommits reduced, List.filter_filter,
          UInt64.toNat_sub_of_le _ _ (UInt64.not_lt.1 short), UnreachedCommit.covered,
          if_neg (Nat.not_lt.2 covers)]
        refine List.filter_congr fun other _ => ?_
        simp [Bool.and_comm]

theorem run_retire_eq (key : EntityKey) (count : UInt64) {client : Client}
    (reads : client.state.QueueReads) :
    ∃ store : Store, client.run (retire key count) = (.ok (), { client with store := store }) ∧
      store.state.entities = client.state.entities ∧
      store.state.network = client.state.network ∧ store.state.QueueReads ∧
      store.state.unreachedCommits = client.state.unreachedCommits.filter
        (· ∉ UnreachedCommit.covered count.toNat (client.state.entriesOf key)) :=
  run_retireEntries (client.state.entriesOf key) count reads

theorem run_retire (key : EntityKey) (count : UInt64) {client : Client}
    (reads : client.state.QueueReads) :
    ∃ after, client.run (retire key count) = (.ok (), after) ∧
      Retired key count.toNat client after := by
  obtain ⟨store, ran, entities, _, storeReads, queue⟩ := run_retire_eq key count reads
  refine ⟨_, ran, entities, rfl, storeReads, queue ▸ List.filter_sublist, fun covers => ?_⟩
  refine List.eq_nil_iff_forall_not_mem.2 fun entry member => ?_
  obtain ⟨inQueue, isKey⟩ := LocalState.mem_entriesOf.1 member
  rw [UnreachedCommit.covered_of_total_le covers] at queue
  rw [state, queue, List.mem_filter, decide_eq_true_iff] at inQueue
  exact inQueue.2 (LocalState.mem_entriesOf.2 ⟨inQueue.1, isKey⟩)

theorem Retired.queued_le {key : EntityKey} {count : Nat} {before after : Client}
    (retired : Retired key count before after) (other : EntityKey) :
    after.state.queued other ≤ before.state.queued other :=
  UnreachedCommit.total_le (retired.fewer.filter _)

theorem Tallied.retired {key : EntityKey} {count : Nat} {before after : Client}
    (tallied : Tallied limit ceiling before) (retired : Retired key count before after) :
    Tallied limit ceiling after where
  config := retired.limit.trans tallied.config
  reads := retired.reads
  covered other := by
    rw [LocalState.pending_of_entities retired.entities]
    exact Nat.le_trans (retired.queued_le other) (tallied.covered other)
  bounded other bound isBound :=
    Nat.le_trans (retired.queued_le other) (tallied.bounded other bound isBound)
  fits other := by
    rw [LocalState.pending_of_entities retired.entities]
    exact tallied.fits other

/-- From a client whose queue is tallied, in a state that meets a condition, a part of a call leads
to such a client, and what it gives meets another condition. -/
def Tallies (limit : Option Nat) (ceiling : EntityKey → Option Nat) (start : LocalState → Prop)
    (call : ClientM α) (good : α → LocalState → Prop) : Prop :=
  ∀ client, Tallied limit ceiling client → start client.state →
    Tallied limit ceiling (client.run call).2 ∧
      ∀ value, (client.run call).1 = .ok value → good value (client.run call).2.state

theorem tallies_pure {start : LocalState → Prop} {good : α → LocalState → Prop} {value : α}
    (meets : ∀ state, start state → good value state) :
    Tallies limit ceiling start (pure value) good :=
  fun client tallied holds => ⟨tallied, by simpa using meets client.state holds⟩

theorem Tallies.bind {start : LocalState → Prop} {call : ClientM α}
    {between : α → LocalState → Prop} {next : α → ClientM β} {good : β → LocalState → Prop}
    (first : Tallies limit ceiling start call between)
    (rest : ∀ value, Tallies limit ceiling (between value) (next value) good) :
    Tallies limit ceiling start (call >>= next) good := by
  intro client tallied holds
  obtain ⟨firstTallied, gave⟩ := first client tallied holds
  rw [run_bind]
  rcases runs : client.run call with ⟨error | value, after⟩ <;> rw [runs] at firstTallied gave
  · exact ⟨firstTallied, by simp⟩
  · exact rest value after firstTallied (gave value rfl)

/-- What is known of the entities and the queue stays known. -/
theorem Spares.tallies {call : ClientM α} (spares : Spares call) {about : LocalState → Prop}
    (depends : ∀ state next, next.entities = state.entities →
      next.unreachedCommits = state.unreachedCommits → about state → about next) :
    Tallies limit ceiling about call fun _ state => about state := by
  intro client tallied holds
  have alike := spares client
  exact ⟨tallied.alike alike, fun _ _ => depends _ _ alike.entities alike.queue holds⟩

theorem Spares.keepsTally {call : ClientM α} (spares : Spares call) {start : LocalState → Prop} :
    Tallies limit ceiling start call fun _ _ => True :=
  fun client tallied _ => ⟨tallied.alike (spares client), fun _ _ => trivial⟩

theorem Spares.thenTallies {call : ClientM α} {next : α → ClientM β}
    {good : β → LocalState → Prop} (spares : Spares call)
    (rest : ∀ value, Tallies limit ceiling (fun _ => True) (next value) good) :
    Tallies limit ceiling (fun _ => True) (call >>= next) good :=
  spares.keepsTally.bind rest

theorem Tallies.releaseOnError {start : LocalState → Prop} {call : ClientM α}
    {good : α → LocalState → Prop} (tallies : Tallies limit ceiling start call good)
    (key : EntityKey) : Tallies limit ceiling start (releaseOnError key call) good := by
  intro client tallied holds
  obtain ⟨after, gave⟩ := tallies client tallied holds
  rcases ran : client.run call with ⟨error | value, between⟩ <;> rw [ran] at after gave
  · rw [run_releaseOnError_error ran]
    exact ⟨after.alike ⟨rfl, rfl, rfl⟩, by simp⟩
  · rw [run_releaseOnError_ok ran]
    exact ⟨after, gave⟩

/-- An action that leaves the queue alone may give and take pending commits above what is
queued. -/
theorem tallies_dispatch {start : LocalState → Prop} {action : Action}
    (incremental : action.Incremental) (outside : ¬ action.ReachesField .unreachedCommits)
    (enough : ∀ (client : Client) (next : LocalState), Tallied limit ceiling client →
      start client.state → action.reduce client.clock client.state = .ok next →
        ∀ key, client.state.queued key ≤ (next.pending key).length ∧
          (next.pending key).length < UInt64.size) :
    Tallies limit ceiling start (dispatch action) fun _ _ => True := by
  intro client tallied holds
  refine ⟨?_, fun _ _ => trivial⟩
  obtain ⟨result, store, ran, ⟨_, reduced⟩ | ⟨same, _⟩⟩ := run_dispatch_store client action <;>
    rw [ran]
  · have sameQueue := LocalState.unreachedCommits_of_reduce outside reduced
    have sameCount := LocalState.queued_of_unreachedCommits sameQueue
    have counts := enough client store.state tallied holds reduced
    exact {
      config := tallied.config
      reads := tallied.reads.reduce incremental reduced
      covered := fun key => by
        rw [Client.state, sameCount key]
        exact (counts key).1
      bounded := fun key bound isBound => by
        rw [Client.state, sameCount key]
        exact tallied.bounded key bound isBound
      fits := fun key => (counts key).2 }
  · exact tallied.alike (alike_of_state same rfl)

/-- An action that changes no number of pending commits. -/
theorem tallies_dispatch_of_length {start : LocalState → Prop} {action : Action}
    (incremental : action.Incremental) (outside : ¬ action.ReachesField .unreachedCommits)
    (sameLength : ∀ (now : Instant) (state next : LocalState),
      action.reduce now state = .ok next → ∀ key,
        (next.pending key).length = (state.pending key).length) :
    Tallies limit ceiling start (dispatch action) fun _ _ => True :=
  tallies_dispatch incremental outside fun client next tallied _ reduced key => by
    rw [sameLength _ _ _ reduced]
    exact ⟨tallied.covered key, tallied.fits key⟩

theorem tallies_retire (key : EntityKey) (count : UInt64) :
    Tallies limit ceiling (fun _ => True) (retire key count) fun _ _ => True := by
  intro client tallied _
  obtain ⟨after, ran, retired⟩ := run_retire key count tallied.reads
  rw [ran]
  exact ⟨tallied.retired retired, fun _ _ => trivial⟩

end Client

end LocalFirst
