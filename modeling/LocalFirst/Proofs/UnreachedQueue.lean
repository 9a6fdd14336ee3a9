import LocalFirst.Proofs.AcceptedPush
import LocalFirst.Proofs.QueueTally

/-!
# What the queue counts

Before a push sends commits, the queue is raised to their number, and when the server has answered,
the entries of the entity are removed one after another, as long as the answer covers them.  So the
queue never holds more commits of an entity than are pending, nor more than a push may send, and
after a push that was answered it holds none of them.

What keeps the queue below the pending commits is that these only go away together with their
entries.  To fetch an entity that has pending commits would drop them and leave the entries.
-/

namespace LocalFirst

namespace Client

variable {limit : Option Nat} {ceiling : EntityKey → Option Nat}

/-- A push that was sent covers what is queued of its entity. -/
def PushStart.Covers (state : LocalState) : PushStart → Prop
  | .ended _ => True
  | .sent _ job => job.Covers state

theorem batchSize_le (limit : Option Nat) (pending : Nat) : batchSize limit pending ≤ pending := by
  cases limit with
  | none => exact Nat.le_refl _
  | some bound => exact Nat.min_le_right bound pending

theorem batchSize_le_bound (bound pending : Nat) : batchSize (some bound) pending ≤ bound :=
  Nat.min_le_left bound pending

/-- What is queued of an entity is not more than a batch of its commits, as nothing above the
ceiling is queued. -/
theorem Tallied.queued_le_batchSize {client : Client} (tallied : Tallied limit ceiling client)
    (key : EntityKey) :
    client.state.queued key ≤ batchSize (ceiling key) (client.state.pending key).length := by
  cases isBound : ceiling key with
  | none => exact tallied.covered key
  | some bound => exact Nat.le_min.2 ⟨tallied.bounded key bound isBound, tallied.covered key⟩

/-- A batch of the commits of an entity may be queued. -/
theorem tallies_queueBatch (key : EntityKey) (info : EntityInfo) :
    let count := batchSize (ceiling key) info.commits.length
    Tallies limit ceiling (fun state => state.find? key.entityName key.id = some info)
      (dispatch (.addUnreachedCommits ⟨key.entityName, key.id, UInt64.ofNat count⟩))
      fun _ state => state.find? key.entityName key.id = some info ∧ state.queued key ≤ count := by
  intro count client tallied known
  have pending : (client.state.pending key).length = info.commits.length :=
    congrArg List.length (LocalState.pending_of_find? known)
  have covers := tallied.queued_le_batchSize key
  rw [pending] at covers
  have atMost : count ≤ (client.state.pending key).length := by
    rw [pending]
    exact batchSize_le _ _
  obtain ⟨result, store, ran, ⟨_, reduced⟩ | ⟨same, error, rfl⟩⟩ := run_dispatch_store client
    (.addUnreachedCommits ⟨key.entityName, key.id, UInt64.ofNat count⟩) <;> rw [ran]
  · have beside := LocalState.pending_of_reduce_beside (by exact trivial) reduced
    have counted := LocalState.queued_of_reduce_addUnreachedCommits covers
      (Nat.lt_of_le_of_lt atMost (tallied.fits key)) reduced
    refine ⟨?_, fun _ _ => ⟨?_, Nat.le_of_eq ((counted key).trans (if_pos rfl))⟩⟩
    rotate_left
    · exact (LocalState.find?_of_entities
        (LocalState.entities_of_reduce_beside (by exact trivial) reduced) _ _).trans known
    exact {
      config := tallied.config
      reads := tallied.reads.reduce (by exact trivial) reduced
      covered := fun other => by
        rw [Client.state, counted other, beside]
        split
        next same =>
          subst same
          exact atMost
        · exact tallied.covered other
      bounded := fun other bound isBound => by
        rw [Client.state, counted other]
        split
        next same =>
          subst same
          rw [isBound]
          exact batchSize_le_bound _ _
        · exact tallied.bounded other bound isBound
      fits := fun other => by
        rw [Client.state, beside]
        exact tallied.fits other }
  · exact ⟨tallied.alike (alike_of_state same rfl), by simp⟩

theorem tallies_sendCommits (key : EntityKey) :
    Tallies limit ceiling (fun _ => True) (sendCommits key (ceiling key))
      fun start state => start.Covers state := by
  have knows : Tallies limit ceiling (fun _ => True) (entityInfo key) fun info state =>
      state.find? key.entityName key.id = some info := fun client tallied _ =>
    ⟨tallied.alike (spares_entityInfo key client), (gives_entityInfo key client trivial).2.2⟩
  refine spares_snapshot.thenTallies fun before => knows.bind fun info => ?_
  dsimp only
  split
  · exact tallies_pure fun _ _ => trivial
  · refine (tallies_queueBatch key info).bind fun _ => ?_
    split
    · exact tallies_pure fun _ _ => trivial
    · refine (spares_openRequest.tallies fun state next sameEntities sameQueue queues => ?_).bind
        fun tag => tallies_pure fun state ⟨known, atMost⟩ => ⟨⟨info, _, known, rfl, rfl, rfl⟩, ?_⟩
      · rwa [LocalState.find?_of_entities sameEntities,
          LocalState.queued_of_unreachedCommits sameQueue]
      · rwa [List.length_take, Nat.min_eq_left (batchSize_le _ _)]

theorem tallies_beginPush (key : EntityKey) :
    Tallies limit ceiling (fun _ => True) (beginPush key (ceiling key))
      fun start state => start.Covers state := by
  refine spares_get.thenTallies fun client => ?_
  split
  · exact tallies_pure fun _ _ => trivial
  · refine (spares_claim key).thenTallies fun _ =>
      ((tallies_sendCommits key).releaseOnError key).bind fun start => ?_
    cases start with
    | ended outcome =>
        refine Tallies.bind ((spares_release key).tallies fun _ _ _ _ holds => holds) fun _ => ?_
        exact tallies_pure fun _ _ => trivial
    | sent tag job => exact tallies_pure fun _ covers => covers

/-- Commits may go away with all entries of their entity. -/
theorem Tallied.synchronized {key : EntityKey} {count : Nat} {before between after : Client}
    (tallied : Tallied limit ceiling before) (covers : before.state.queued key ≤ count)
    (sameQueue : between.state.unreachedCommits = before.state.unreachedCommits)
    (sameLimit : between.maxPushBatch = before.maxPushBatch)
    (dropped : ∀ other, (between.state.pending other).length =
      if other = key then (before.state.pending other).length - count
      else (before.state.pending other).length)
    (retired : Retired key count between after) : Tallied limit ceiling after := by
  have sameCount := LocalState.queued_of_unreachedCommits sameQueue
  have fewer : ∀ other, after.state.queued other ≤ before.state.queued other := fun other =>
    Nat.le_trans (retired.queued_le other) (Nat.le_of_eq (sameCount other))
  have pending : ∀ other, (after.state.pending other).length =
      if other = key then (before.state.pending other).length - count
      else (before.state.pending other).length := fun other => by
    rw [LocalState.pending_of_entities retired.entities, dropped]
  exact {
    config := retired.limit.trans (sameLimit.trans tallied.config)
    reads := retired.reads
    covered := fun other => by
      rw [pending other]
      split
      next same =>
        subst same
        rw [LocalState.queued, retired.cleared (sameCount other ▸ covers)]
        exact Nat.zero_le _
      · exact Nat.le_trans (fewer other) (tallied.covered other)
    bounded := fun other bound isBound =>
      Nat.le_trans (fewer other) (tallied.bounded other bound isBound)
    fits := fun other => by
      have small := tallied.fits other
      rw [pending other]
      split <;> omega }

/-- How a client has settled the answer to a push that was sent alone. -/
structure Settled (limit : Option Nat) (ceiling : EntityKey → Option Nat) (key : EntityKey)
    (outcome : Except ClientError PushSettled × Client) : Prop where
  tallied : Tallied limit ceiling outcome.2
  unmoved : outcome.1 ≠ .ok .moved
  cleared : (∃ count, outcome.1 = .ok (.ended (.synced count))) ∨
    (∃ error, outcome.1 = .error (.remote error)) → outcome.2.state.entriesOf key = []

/-- A client whose queue is as tallied as before has settled nothing of an entity. -/
theorem settled_of_alike {before : Client} (tallied : Tallied limit ceiling before)
    (key : EntityKey) {outcome : Except ClientError PushSettled × Client}
    (alike : Alike before outcome.2)
    (nothing : ∀ settled, outcome.1 = .ok settled →
      ∃ ended, settled = .ended ended ∧ ∀ count, ended ≠ .synced count)
    (faults : ∀ error, outcome.1 = .error error → ∃ fault, error = .state fault) :
    Settled limit ceiling key outcome where
  tallied := tallied.alike alike
  unmoved moved := by
    obtain ⟨ended, isEnded, _⟩ := nothing _ moved
    cases isEnded
  cleared := by
    rintro (⟨count, synced⟩ | ⟨error, failed⟩)
    · obtain ⟨ended, isEnded, unsynced⟩ := nothing _ synced
      cases isEnded
      exact absurd rfl (unsynced count)
    · obtain ⟨fault, isFault⟩ := faults _ failed
      cases isFault

theorem Tallied.toNat_length {client : Client} (tallied : Tallied limit ceiling client)
    {job : PushJob} (fits : job.Fits client.state) :
    (UInt64.ofNat job.commits.length).toNat = job.commits.length := by
  obtain ⟨info, known, shorter, _⟩ := fits.commits_eq
  have small := tallied.fits job.key
  rw [LocalState.pending_of_find? known] at small
  exact UInt64.toNat_ofNat_of_lt' (Nat.lt_of_le_of_lt shorter small)

section Answered

variable {client : Client} (tallied : Tallied limit ceiling client) {job : PushJob}
  (covers : job.Covers client.state)

include tallied covers

/-- An accepted push of an entity that has not moved synchronises it, and empties its queue. -/
theorem settled_of_accepted {command : PushCommand}
    (truthful : (⟨command.entityName, command.id⟩ : EntityKey) = job.key) :
    Settled limit ceiling job.key (client.run (do
      dispatch (.synchronize command job.commits)
      retire job.key (UInt64.ofNat job.commits.length)
      return .ended (.synced job.commits.length))) := by
  obtain ⟨result, store, ran, ⟨rfl, reduced⟩ | ⟨same, error, rfl⟩⟩ :=
    run_dispatch_store client (.synchronize command job.commits)
  · let between : Client := { client with store := store }
    have reads : between.state.QueueReads := tallied.reads.reduce (by exact trivial) reduced
    have sameQueue : between.state.unreachedCommits = client.state.unreachedCommits :=
      LocalState.unreachedCommits_of_reduce (by rintro ⟨⟩) reduced
    have dropped := LocalState.length_pending_of_synchronize reduced
    rw [truthful] at dropped
    obtain ⟨after, retires, retired⟩ :=
      run_retire job.key (UInt64.ofNat job.commits.length) reads
    rw [tallied.toNat_length covers.fits] at retired
    rw [run_bind_ok ran, run_bind_ok retires, run_pure]
    exact {
      tallied := tallied.synchronized covers.queued sameQueue rfl dropped retired
      unmoved := by simp
      cleared := fun _ => retired.cleared
        (LocalState.queued_of_unreachedCommits sameQueue _ ▸ covers.queued) }
  · rw [run_bind_error ran]
    exact settled_of_alike tallied _ (alike_of_state same rfl) (by simp) (by simp)

/-- A push that is refused empties the queue as well, so that it is not sent again. -/
theorem settled_of_refused (tag : String) (error : RemoteError) :
    Settled limit ceiling job.key (client.run (do
      retire job.key (UInt64.ofNat job.commits.length)
      fail tag error)) := by
  obtain ⟨between, retires, retired⟩ :=
    run_retire job.key (UInt64.ofNat job.commits.length) tallied.reads
  rw [tallied.toNat_length covers.fits] at retired
  have alike : Alike between (between.run (fail tag error : ClientM PushSettled)).2 :=
    spares_fail tag error between
  have fails : ∀ settled, (between.run (fail tag error : ClientM PushSettled)).1 ≠ .ok settled := by
    intro settled
    rw [fail, run_bind]
    rcases between.run (recordFailure tag error) with ⟨_ | _, _⟩ <;> rintro ⟨⟩
  rw [run_bind_ok retires]
  exact {
    tallied := (tallied.retired retired).alike alike
    unmoved := fails _
    cleared := fun _ => by
      rw [LocalState.entriesOf, alike.queue]
      exact retired.cleared covers.queued }

/-- Settling the answer to a push that was sent alone never finds the entity moved. -/
theorem settled_settlePush (tag : String) {response : Except RemoteError PushCommand}
    (truthful : ∀ command, response = .ok command →
      (⟨command.entityName, command.id⟩ : EntityKey) = job.key) :
    Settled limit ceiling job.key (client.run (settlePush job tag response)) := by
  have alike := spares_closeRequest tag client
  have errors := (quiet_closeRequest tag client trivial).2.1
  rw [settlePush, run_bind]
  rcases ran : client.run (closeRequest tag) with ⟨error | awaited, between⟩ <;>
    rw [ran] at alike errors
  · exact settled_of_alike tallied _ alike (by simp) (by simpa using errors)
  have stillTallied := tallied.alike alike
  have stillCovers := covers.of_same alike.entities alike.queue
  cases awaited with
  | false => exact settled_of_alike tallied _ alike (by simp) (by simp)
  | true =>
      cases response with
      | ok command =>
          obtain ⟨info, _, known, sameVersion, _⟩ := stillCovers.fits
          have accepted := settled_of_accepted stillTallied stillCovers (truthful command rfl)
          simpa [run_bind_ok (run_entityInfo_ok known), sameVersion] using accepted
      | error error =>
          cases error with
          | network message =>
              let settles : ClientM PushSettled := do
                recordFailure tag (.network message)
                return .ended (.queued job.commits.length)
              have spares : Spares settles :=
                (spares_recordFailure tag _).bind fun _ => spares_pure _
              have gives : Gives (fun _ => True) settles fun settled _ =>
                  ∃ ended, settled = .ended ended ∧ ∀ count, ended ≠ .synced count :=
                (quiet_recordFailure tag _).thenGives fun _ =>
                  gives_pure fun _ _ => ⟨_, rfl, by simp⟩
              obtain ⟨_, faults, nothing⟩ := gives between trivial
              exact settled_of_alike stillTallied _ (spares between) nothing faults
          | _ => exact settled_of_refused stillTallied stillCovers tag _

end Answered

end Client

end LocalFirst
