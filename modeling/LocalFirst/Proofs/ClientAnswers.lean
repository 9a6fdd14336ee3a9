import LocalFirst.Proofs.ClientSteps
import LocalFirst.Proofs.SettledCalls

/-!
# What answers do to a client

Whatever a call was waiting for, its answer is settled before anything else happens, and what the
call then goes on with leaves the entities alone.  So an answer of the server leads to at most one
action on an entity.
-/

namespace LocalFirst

namespace Client

/-- How a push goes on from what settling its answer has given: with the error, with the rest
of its repush, or with a pull when the entity has moved. -/
def SettledGoesOn (job : PushJob) (next : Option Repush)
    (resumed : Except ClientError Progress × Client) : Except ClientError PushSettled → Prop
  | .error error => resumed.1 = .error error
  | .ok settled =>
      (∀ error, resumed.1 = .error error → ∃ fault, error = .state fault) ∧
      ∀ progress, resumed.1 = .ok progress →
        progress.Fits resumed.2.state ∧
        progress.Within (1 + Flight.requestsLeft.left next) ∧
        (next = none → match settled with
          | .ended outcome => progress = .finished (.pushed outcome)
          | .moved => progress = .finished (.pushed (.synced job.commits.length)) ∨
              ∃ tag kind, progress = .waiting ⟨tag, .catchUp job kind none⟩)

theorem run_resume_settled (client : Client) (tag : String) (job : PushJob) (next : Option Repush)
    (response : Except RemoteError PushCommand) :
    let resumed := client.run (resume tag (.push job next) response)
    let settled := client.run (settlePush job tag response)
    resumed.2.state.entities = settled.2.state.entities ∧
      SettledGoesOn job next resumed settled.1 := by
  intro resumed settled
  obtain ⟨sameResult, sameState⟩ :=
    run_releaseOnError job.key (settlePush job tag response) client
  rw [← sameResult, ← sameState]
  simp only [resumed, resume, run_bind]
  rcases client.run (releaseOnError job.key (settlePush job tag response)) with
    ⟨error | settled, between⟩
  · exact ⟨rfl, rfl⟩
  · cases settled with
    | moved => exact gives_beginCatchUp job next between trivial
    | ended outcome =>
        obtain ⟨same, errors, gives⟩ := Gives.bind (quiet_release job.key)
          (fun _ => gives_afterPush outcome next) between trivial
        refine ⟨same, errors, fun progress ran => ?_⟩
        obtain ⟨fits, within, ends⟩ := gives progress ran
        exact ⟨fits, within.mono (Nat.le_add_left _ _), ends⟩

/-- How a push goes on when its answer has been settled. -/
theorem run_resume_push (client : Client) (tag : String) (job : PushJob) (next : Option Repush)
    (response : Except RemoteError PushCommand) :
    let resumed := client.run (resume tag (.push job next) response)
    ∃ settled between, SettlesPush job client.state tag response settled between ∧
      resumed.2.state.entities = between.entities ∧ SettledGoesOn job next resumed settled :=
  ⟨_, _, settlesPush job tag response client, run_resume_settled client tag job next response⟩

/-- How a push goes on after its pull. -/
theorem run_resume_catchUp (client : Client) (tag : String) (job : PushJob) (kind : PullKind)
    (next : Option Repush) (response : (kind.request job.key).Response) :
    let resumed := client.run (resume tag (.catchUp job kind next) response)
    (resumed.2.state.entities = client.state.entities ∨
      ∃ action, kind.Performs job.key response action ∧
        client.state.Undergoes action resumed.2.state) ∧
    (∀ error, resumed.1 = .error error → ∃ fault, error = .state fault) ∧
    ∀ progress, resumed.1 = .ok progress →
      progress.Fits resumed.2.state ∧ progress.Within (Flight.requestsLeft.left next) ∧
        (next = none → progress = .finished (.pushed (.synced job.commits.length))) := by
  intro resumed
  have settled := run_settlePull client job.key tag kind response
  have goesOn : ∀ between : Client, (between.run (do
      release job.key
      afterPush (.synced job.commits.length) next)) = resumed →
      (client.run (settlePull job.key tag kind response)).2.state = between.state →
      (resumed.2.state.entities = client.state.entities ∨
        ∃ action, kind.Performs job.key response action ∧
          client.state.Undergoes action resumed.2.state) ∧
      (∀ error, resumed.1 = .error error → ∃ fault, error = .state fault) ∧
      ∀ progress, resumed.1 = .ok progress →
        progress.Fits resumed.2.state ∧ progress.Within (Flight.requestsLeft.left next) ∧
          (next = none → progress = .finished (.pushed (.synced job.commits.length))) := by
    intro between runs sameState
    obtain ⟨same, errors, gives⟩ := Gives.bind (quiet_release job.key)
      (fun _ => gives_afterPush (.synced job.commits.length) next) between trivial
    rw [sameState] at settled
    rw [runs] at same errors gives
    refine ⟨?_, errors, gives⟩
    obtain ⟨unchanged, _⟩ | ⟨action, performs, undergoes⟩ := settled
    · exact .inl (same.trans unchanged)
    · exact .inr ⟨action, performs, undergoes.of_entities same⟩
  rcases runs : client.run (settlePull job.key tag kind response) with ⟨error | value, between⟩
  · refine goesOn between ?_ (by rw [runs])
    simp only [resumed, resume, run_bind, run_tryCatch, runs]
    rfl
  · refine goesOn between ?_ (by rw [runs])
    simp only [resumed, resume, run_bind, run_tryCatch, runs]

/-- A call that is done after its answer. -/
theorem run_thenDone (client : Client) (body : ClientM Unit) :
    let done := client.run (do
      body
      return Progress.finished .done)
    done.2 = (client.run body).2 ∧ ∀ progress, done.1 = .ok progress →
      progress = .finished .done ∧ (client.run body).1 = .ok () := by
  simp only [run_bind]
  rcases client.run body with ⟨_ | _, after⟩
  · exact ⟨rfl, by simp⟩
  · exact ⟨rfl, by simp [eq_comm]⟩

/-- Whatever a call has waited for, its answer leads to one action at most.  Only a push goes on
to wait, and what it waits for next fits the entities again. -/
theorem run_resume (client : Client) (tag : String) (flight : Flight)
    (response : flight.request.Response) :
    let resumed := client.run (resume tag flight response)
    (resumed.2.state.entities = client.state.entities ∨
      ∃ action, flight.Performs client.state response action ∧
        client.state.Undergoes action resumed.2.state) ∧
    ∀ suspended, resumed.1 = .ok (.waiting suspended) →
      resumed.2.state.isPending suspended.tag = true ∧
        suspended.flight.Fits resumed.2.state ∧ flight.IsPushing ∧
        suspended.flight.IsPushing ∧ suspended.flight.requestsLeft < flight.requestsLeft := by
  have done : ∀ (body : ClientM Unit),
      (∀ settled, client.run body = settled →
        settled.2.state.entities = client.state.entities ∨
          ∃ action, flight.Performs client.state response action ∧
            client.state.Undergoes action settled.2.state) →
      ∀ resumed, client.run (do
        body
        return Progress.finished .done) = resumed →
      (resumed.2.state.entities = client.state.entities ∨
        ∃ action, flight.Performs client.state response action ∧
          client.state.Undergoes action resumed.2.state) ∧
      ∀ suspended, resumed.1 = .ok (.waiting suspended) →
        resumed.2.state.isPending suspended.tag = true ∧
          suspended.flight.Fits resumed.2.state ∧ flight.IsPushing ∧
          suspended.flight.IsPushing ∧ suspended.flight.requestsLeft < flight.requestsLeft := by
    rintro body settles _ rfl
    obtain ⟨sameClient, ends⟩ := run_thenDone client body
    rw [sameClient]
    exact ⟨settles _ rfl, fun suspended ran => absurd (ends _ ran).1 (by simp)⟩
  intro resumed
  cases flight with
  | follow key =>
      refine done _ ?_ _ rfl
      rintro _ rfl
      exact (run_settlePull client key tag .fetch response).imp_left And.left
  | pull key kind =>
      refine done _ ?_ _ rfl
      rintro _ rfl
      exact (run_settlePull client key tag kind response).imp_left And.left
  | login command =>
      refine done _ ?_ _ rfl
      rintro _ rfl
      refine (run_settleLogin client tag response).imp_right ?_
      rintro ⟨answer, responseEq, undergoes⟩
      exact ⟨_, ⟨answer, responseEq, rfl⟩, undergoes⟩
  | logout session =>
      refine done _ ?_ _ rfl
      rintro _ rfl
      refine (run_settleLogout client session tag response).imp_right ?_
      rintro ⟨userId, userEq, undergoes⟩
      exact ⟨_, ⟨userId, userEq, rfl⟩, undergoes⟩
  | delete key =>
      refine done _ ?_ _ rfl
      rintro _ rfl
      exact (run_settleDelete client key tag response).imp_right fun undergoes =>
        ⟨_, rfl, undergoes⟩
  | push job next =>
      obtain ⟨settled, between, settles, same, goesOn⟩ :=
        run_resume_push client tag job next response
      refine ⟨?_, fun suspended ran => ?_⟩
      · cases settles with
        | ignored _ unchanged | failed unchanged | unreachable unchanged | refused unchanged =>
            exact .inl (same.trans unchanged)
        | @performed command _ origin _ basis undergoes _ =>
            exact .inr ⟨_, ⟨command, origin, rfl, rfl, basis⟩, undergoes.of_entities same⟩
      · cases settled with
        | error error => exact absurd (goesOn.symm.trans ran) (by simp)
        | ok settled =>
            obtain ⟨fits, within, _⟩ := goesOn.2 _ ran
            exact ⟨fits.1, fits.2, trivial, within.1, Nat.lt_of_le_of_lt within.2 (by
              simp only [Flight.requestsLeft]
              omega)⟩
  | catchUp job kind next =>
      obtain ⟨performs, _, goesOn⟩ := run_resume_catchUp client tag job kind next response
      refine ⟨performs, fun suspended ran => ?_⟩
      obtain ⟨fits, within, _⟩ := goesOn _ ran
      exact ⟨fits.1, fits.2, trivial, within.1, Nat.lt_of_le_of_lt within.2 (by
        simp only [Flight.requestsLeft]
        omega)⟩

/-- Until its first answer a call leaves the entities as they are, but for its commit. -/
theorem run_start (client : Client) (call : Call) :
    let started := client.run (start call)
    (started.2.state.entities = client.state.entities ∨ ∃ key operation,
      call = .commitAndPush key operation ∧
        client.state.Undergoes (.commit key.entityName key.id operation) started.2.state) ∧
    ∀ suspended, started.1 = .ok (.waiting suspended) →
      started.2.state.isPending suspended.tag = true ∧
        suspended.flight.Fits started.2.state ∧ call.Awaits suspended.flight := by
  by_cases commits : ∃ key operation, call = .commitAndPush key operation
  · obtain ⟨key, operation, rfl⟩ := commits
    have pushes := gives_startPush key
    have dispatched := run_dispatch_entities client (.commit key.entityName key.id operation)
    have parts : start (.commitAndPush key operation) =
        dispatch (.commit key.entityName key.id operation) >>= fun _ => startPush key := rfl
    rcases committed : client.run (dispatch (.commit key.entityName key.id operation)) with
      ⟨error | value, after⟩
    · rw [committed] at dispatched
      obtain ⟨impossible, _⟩ | ⟨_, same⟩ := dispatched
      · cases impossible
      · rw [parts, run_bind_error committed]
        exact ⟨.inl same, by simp⟩
    · rw [committed] at dispatched
      obtain ⟨_, undergoes⟩ | ⟨⟨_, impossible⟩, _⟩ := dispatched
      · obtain ⟨same, _, waits⟩ := pushes after trivial
        rw [parts, run_bind_ok committed]
        refine ⟨.inr ⟨key, operation, rfl, undergoes.of_entities same⟩, fun suspended ran => ?_⟩
        obtain ⟨_, ended, _⟩ | ⟨tag, job, waiting, _, pending, fits⟩ := waits _ ran
        · cases ended
        · cases waiting
          exact ⟨pending, fits, job, none, rfl⟩
      · cases impossible
  · obtain ⟨same, _, waits⟩ := gives_start (fun key operation same =>
      commits ⟨key, operation, same⟩) client trivial
    refine ⟨.inl same, fun suspended ran => ?_⟩
    obtain ⟨fits, awaited⟩ := waits _ ran
    exact ⟨fits.1, fits.2, awaited⟩

end Client

end LocalFirst
