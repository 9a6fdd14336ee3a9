import LocalFirst.Proofs.LeftQueued

/-!
# What is known when a part of a call succeeds

A repush goes on only after parts that have succeeded.  Where they have, a push that is completed
has taken from the queue what its commits cover, and nothing of any other entity.
-/

namespace LocalFirst

/-- A push has brought the server to hold what it was to send, if there was anything. -/
def PushOutcome.Completes : PushOutcome → Prop
  | .clean | .synced _ => True
  | _ => False

theorem PushOutcome.Completes.not_isQueued {outcome : PushOutcome} (completes : outcome.Completes) :
    ¬ outcome.isQueued = true := by
  cases outcome <;> first | exact completes.elim | exact Bool.false_ne_true

/-- A repush waits for the answer to a push of the first of the entities that remain. -/
structure Repush.Awaits (before state : LocalState) (job : PushJob) (repush : Repush) : Prop where
  counted : state.Counted
  fits : job.Fits state
  drains : (∀ outcome ∈ repush.outcomes, outcome.Completes) →
    before.Draining ((repush.key, repush.count) :: repush.remaining) state ∧
      job.key = repush.key ∧ job.commits.length = before.retirable repush.key

/-- A repush has come so far, and if all pushes so far were completed, then the queue is as far
drained. -/
def Progress.Drains (before state : LocalState) : Progress → Prop
  | .finished (.repushed outcomes) =>
      (∀ outcome ∈ outcomes, outcome.Completes) → before.Draining [] state
  | .waiting ⟨_, .push job (some repush)⟩ => Repush.Awaits before state job repush
  | _ => False

namespace Client

variable {α β : Type}

/-- From a client that meets a condition, a part of a call that succeeds leads to one that meets
another, together with the value. -/
def Yields (start : Client → Prop) (call : ClientM α) (good : α → Client → Prop) : Prop :=
  ∀ client : Client, start client → ∀ value after, client.run call = (.ok value, after) →
    good value after

theorem yields_pure {start : Client → Prop} {good : α → Client → Prop} {value : α}
    (meets : ∀ client, start client → good value client) : Yields start (pure value) good := by
  rintro client begins _ _ ⟨⟩
  exact meets client begins

theorem Yields.bind {start : Client → Prop} {first : ClientM α} {between : α → Client → Prop}
    {next : α → ClientM β} {good : β → Client → Prop} (yields : Yields start first between)
    (rest : ∀ value, Yields (between value) (next value) good) :
    Yields start (first >>= next) good := by
  intro client begins value after ran
  rw [run_bind] at ran
  rcases runs : client.run first with ⟨error | middle, halfway⟩ <;> rw [runs] at ran
  · cases ran
  · exact rest middle halfway (yields client begins middle halfway runs) value after ran

theorem Spares.yields {call : ClientM α} (spares : Spares call) (base : Client) :
    Yields (Alike base) call fun _ => Alike base := by
  intro client alike value after ran
  have spared := spares client
  rw [ran] at spared
  exact alike.trans spared

/-- A part of a call that never succeeds yields anything. -/
theorem yields_fail {start : Client → Prop} {good : α → Client → Prop} (tag : String)
    (error : RemoteError) : Yields start (fail tag error) good := by
  intro client _ value after ran
  rw [fail, run_bind] at ran
  rcases runs : client.run (recordFailure tag error) with ⟨_ | _, _⟩ <;> rw [runs] at ran <;>
    cases ran

variable {base : Client}

theorem yields_entityInfo (key : EntityKey) :
    Yields (Alike base) (entityInfo key) fun info client =>
      Alike base client ∧ base.state.find? key.entityName key.id = some info := by
  intro client alike info after ran
  have same := (spares_entityInfo key).yields base client alike info after ran
  have known := (gives_entityInfo key client trivial).2.2
  rw [ran] at known
  exact ⟨same, (LocalState.find?_of_entities same.entities _ _).symm.trans (known info rfl)⟩

/-- To queue no more commits than are queued changes nothing. -/
theorem yields_queueAgain {key : EntityKey} {count : Nat} (counted : base.state.Counted)
    (queued : count ≤ base.state.queued key) :
    Yields (Alike base)
      (dispatch (.addUnreachedCommits ⟨key.entityName, key.id, UInt64.ofNat count⟩))
      fun _ => Alike base := by
  intro client alike value after ran
  obtain ⟨result, store, runs, ⟨_, reduced⟩ | ⟨_, error, failed⟩⟩ := run_dispatch_store client
    (.addUnreachedCommits ⟨key.entityName, key.id, UInt64.ofNat count⟩)
  · cases ran.symm.trans runs
    have isWord : (UInt64.ofNat count).toNat = count :=
      UInt64.toNat_ofNat_of_lt' (Nat.lt_of_le_of_lt queued (counted.queued key))
    have enqueued : (client.state.enqueuedCommitCount key.entityName key.id).toNat =
        base.state.queued key := by
      have same := LocalState.queued_of_unreachedCommits alike.queue key
      rw [LocalState.toNat_enqueuedCommitCount (same ▸ counted.queued key), same]
    have nothing : client.state.added ⟨key.entityName, key.id, UInt64.ofNat count⟩ = [] :=
      if_pos (UInt64.le_iff_toNat_le.2 (isWord.symm ▸ enqueued.symm ▸ queued))
    have grown := LocalState.reduce_addUnreachedCommits reduced
    rw [nothing, List.append_nil] at grown
    exact alike.trans
      ⟨LocalState.entities_of_reduce_beside (by exact trivial) reduced, grown, rfl⟩
  · cases ran.symm.trans (failed ▸ runs)

/-- A push of as many commits as are queued sends them, as far as they are pending. -/
def PushStart.Sends (base : LocalState) (key : EntityKey) : PushStart → Prop
  | .ended outcome => outcome.Completes →
      outcome = .clean ∧ min (base.queued key) (base.pending key).length = 0
  | .sent _ job => job.key = key ∧ 0 < job.commits.length ∧
      job.commits.length = min (base.queued key) (base.pending key).length

theorem yields_sendCommits (counted : base.state.Counted) (key : EntityKey) :
    Yields (Alike base) (sendCommits key (some (base.state.queued key))) fun start client =>
      Alike base client ∧ start.Sends base.state key := by
  refine (spares_snapshot.yields base).bind fun state =>
    (yields_entityInfo key).bind fun info => ?_
  dsimp only
  let count := batchSize (some (base.state.queued key)) info.commits.length
  have pending : base.state.find? key.entityName key.id = some info →
      count = min (base.state.queued key) (base.state.pending key).length := fun known => by
    rw [LocalState.pending_of_find? known]
    rfl
  split
  next none =>
    refine yields_pure fun client ⟨alike, known⟩ => ⟨alike, fun _ => ⟨rfl, ?_⟩⟩
    exact (pending known).symm.trans none
  next positive =>
    rintro client ⟨alike, known⟩
    have most : count ≤ base.state.queued key := Nat.min_le_left _ _
    refine ((yields_queueAgain counted most).bind fun _ => ?_) client alike
    split
    · exact yields_pure fun client alike => ⟨alike, False.elim⟩
    · refine (spares_openRequest.yields base).bind fun tag =>
        yields_pure fun client alike => ⟨alike, rfl, ?_, ?_⟩
      all_goals rw [List.length_take, Nat.min_eq_left (batchSize_le _ _)]
      · exact Nat.pos_of_ne_zero positive
      · exact pending known

theorem Yields.releaseOnError {start : Client → Prop} {call : ClientM α}
    {good : α → Client → Prop} (yields : Yields start call good) (key : EntityKey) :
    Yields start (releaseOnError key call) good := by
  intro client begins value after ran
  rcases runs : client.run call with ⟨error | given, between⟩
  · rw [run_releaseOnError_error runs] at ran
    cases ran
  · rw [run_releaseOnError_ok runs] at ran
    cases ran
    exact yields client begins value after runs

theorem yields_beginPush (counted : base.state.Counted) (key : EntityKey) :
    Yields (Alike base) (beginPush key (some (base.state.queued key))) fun start client =>
      Alike base client ∧ start.Sends base.state key := by
  refine (spares_get.yields base).bind fun client => ?_
  split
  · exact yields_pure fun client alike => ⟨alike, False.elim⟩
  refine ((spares_claim key).yields base).bind fun _ =>
    ((yields_sendCommits counted key).releaseOnError key).bind fun start => ?_
  cases start with
  | ended outcome =>
      rintro client ⟨alike, sends⟩
      exact (((spares_release key).yields base).bind fun _ =>
        yields_pure fun _ alike => ⟨alike, sends⟩) client alike
  | sent tag job => exact yields_pure fun _ sends => sends

theorem yields_retire {key : EntityKey} {count : UInt64} (reads : base.state.QueueReads)
    (nonePending :
      (base.state.pending key).length - count.toNat = (base.state.pending key).length) :
    Yields (Alike base) (retire key count) fun _ client =>
      base.state.Takes key count.toNat client.state := by
  intro client alike value after ran
  obtain ⟨retired, runs, entities, _, nowReads, queue⟩ :=
    run_retire_eq key count (reads.of_unreachedCommits alike.queue)
  cases ran.symm.trans runs
  change base.state.Takes key count.toNat retired.state
  refine ⟨nowReads, fun other => ?_, ?_⟩
  · rw [LocalState.pending_of_entities (entities.trans alike.entities)]
    split
    next here => rw [here, nonePending]
    · rfl
  · rw [queue, LocalState.entriesOf, alike.queue]
    rfl

/-- When its answer has completed a push, what was pushed is taken from the pending commits and from
the queue.  No answer finds the entity moved. -/
def PushSettled.Takes (before : LocalState) (job : PushJob) (settled : PushSettled)
    (after : LocalState) : Prop :=
  ∃ outcome, settled = .ended outcome ∧ outcome ≠ .clean ∧
    (outcome.Completes → before.Takes job.key job.commits.length after)

theorem PushSettled.takes_of_incomplete {before after : LocalState} {job : PushJob}
    {outcome : PushOutcome} (incomplete : ¬ outcome.Completes) :
    (PushSettled.ended outcome).Takes before job after := by
  refine ⟨outcome, rfl, ?_, fun completes => absurd completes incomplete⟩
  rintro rfl
  exact incomplete trivial

/-- To synchronise with pushed commits and to retire them takes them. -/
theorem yields_synchronize (counted : base.state.Counted) {job : PushJob} {command : PushCommand}
    (truthful : (⟨command.entityName, command.id⟩ : EntityKey) = job.key)
    (isWord : job.commits.length < UInt64.size) :
    Yields (Alike base) (do
      dispatch (.synchronize command job.commits)
      retire job.key (UInt64.ofNat job.commits.length)
      return PushSettled.ended (.synced job.commits.length)) fun settled client =>
        settled.Takes base.state job client.state := by
  intro client alike settled after ran
  obtain ⟨result, store, runs, ⟨rfl, reduced⟩ | ⟨_, error, rfl⟩⟩ :=
    run_dispatch_store client (.synchronize command job.commits)
  · let between : Client := { client with store := store }
    have sameQueue : between.state.unreachedCommits = base.state.unreachedCommits :=
      (LocalState.unreachedCommits_of_reduce (by rintro ⟨⟩) reduced).trans alike.queue
    obtain ⟨retired, retires, entities, _, reads, queue⟩ := run_retire_eq job.key
      (UInt64.ofNat job.commits.length) (counted.reads.of_unreachedCommits sameQueue)
    rw [run_bind_ok runs, run_bind_ok retires] at ran
    cases ran
    suffices takes : base.state.Takes job.key job.commits.length retired.state from
      ⟨_, rfl, by simp, fun _ => takes⟩
    refine ⟨reads, fun other => ?_, ?_⟩
    · have lengths : (between.state.pending other).length = _ :=
        LocalState.length_pending_of_synchronize reduced other
      rw [LocalState.pending_of_entities entities, lengths, truthful,
        LocalState.pending_of_entities alike.entities]
    · rw [queue, UInt64.toNat_ofNat_of_lt' isWord, LocalState.entriesOf, sameQueue]
      rfl
  · rw [run_bind_error runs] at ran
    cases ran

theorem yields_settlePush (counted : base.state.Counted) {job : PushJob}
    (fits : job.Fits base.state) (tag : String) {response : Except RemoteError PushCommand}
    (truthful : ∀ command, response = .ok command →
      (⟨command.entityName, command.id⟩ : EntityKey) = job.key) :
    Yields (Alike base) (settlePush job tag response) fun settled client =>
      settled.Takes base.state job client.state := by
  refine ((spares_closeRequest tag).yields base).bind fun awaited => ?_
  split
  · exact yields_pure fun _ _ => PushSettled.takes_of_incomplete id
  dsimp only
  cases response with
  | error error =>
      cases error with
      | network message =>
          exact ((spares_recordFailure tag _).yields base).bind fun _ =>
            yields_pure fun _ _ => PushSettled.takes_of_incomplete id
      | rejected error =>
          have retires : Yields (Alike base) (retire job.key (UInt64.ofNat job.commits.length))
            fun _ _ => True := fun _ _ _ _ _ => trivial
          exact retires.bind fun _ => yields_fail tag _
  | ok command =>
      obtain ⟨info, known, shorter, _⟩ := fits.commits_eq
      obtain ⟨other, _, alsoKnown, sameVersion, _⟩ := fits
      obtain rfl := Option.some.inj (known.symm.trans alsoKnown)
      have isWord : job.commits.length < UInt64.size :=
        Nat.lt_of_le_of_lt (LocalState.pending_of_find? known ▸ shorter) (counted.pending job.key)
      refine (yields_entityInfo job.key).bind fun found => ?_
      rintro client ⟨alike, isFound⟩
      obtain rfl := Option.some.inj (known.symm.trans isFound)
      rw [if_pos sameVersion.symm]
      exact yields_synchronize counted (truthful command rfl) isWord client alike

end Client

end LocalFirst
