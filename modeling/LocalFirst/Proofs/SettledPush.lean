import LocalFirst.Proofs.EntityEffects
import LocalFirst.Proofs.QuietParts
import LocalFirst.Sync.Call

/-!
# How a push is settled

A push that the server has answered folds its commits into the origin that it was sent with:
whichever way it is settled, what follows can only be an error of the state.
-/

namespace LocalFirst

namespace Client

variable {α : Type}

theorem run_dispatch_entities (client : Client) (action : Action) :
    ((client.run (dispatch action)).1 = .ok () ∧
      client.state.Undergoes action (client.run (dispatch action)).2.state) ∨
    ((∃ fault, (client.run (dispatch action)).1 = .error (.state fault)) ∧
      (client.run (dispatch action)).2.state.entities = client.state.entities) := by
  rcases run_dispatch client action with
    ⟨next, reduced, after, runs, rfl⟩ | ⟨error, _, after, runs, same⟩
  · rw [runs]
    exact .inl ⟨rfl, client.clock, client.state, _, rfl, reduced, rfl⟩
  · rw [runs, same]
    exact .inr ⟨⟨error, rfl⟩, rfl⟩

/-- Closing a request gives whether its answer was still awaited. -/
theorem run_closeRequest (client : Client) (tag : String) :
    (client.run (closeRequest tag)).2.state.entities = client.state.entities ∧
      ((client.run (closeRequest tag)).1 = .ok (client.state.isPending tag) ∨
        ∃ fault, (client.run (closeRequest tag)).1 = .error (.state fault)) := by
  refine ⟨(quiet_closeRequest tag).entities client, ?_⟩
  have runs : client.run (closeRequest tag) = client.run (if client.state.isPending tag then do
      dispatch (.removeNetworkRequest tag)
      return true
    else return false) := rfl
  rw [runs]
  cases pending : client.state.isPending tag with
  | false => exact .inl rfl
  | true =>
      simp only [if_true, run_bind]
      rcases run_dispatch client (.removeNetworkRequest tag) with
        ⟨_, _, after, runs, _⟩ | ⟨error, _, after, runs, _⟩
      · rw [runs]
        exact .inl rfl
      · rw [runs]
        exact .inr ⟨error, rfl⟩

theorem run_fail (client : Client) (tag : String) (error : RemoteError) :
    (client.run (fail tag error : ClientM α)).2.state.entities = client.state.entities ∧
      ((client.run (fail tag error : ClientM α)).1 = .error (.remote error) ∨
        ∃ fault, (client.run (fail tag error : ClientM α)).1 = .error (.state fault)) := by
  obtain ⟨same, errors, _⟩ := quiet_recordFailure tag error client trivial
  rw [fail, run_bind]
  rcases runs : client.run (recordFailure tag error) with ⟨failure | _, after⟩
  · rw [runs] at same errors
    obtain ⟨fault, rfl⟩ := errors failure rfl
    exact ⟨same, .inr ⟨fault, rfl⟩⟩
  · rw [runs] at same
    exact ⟨same, .inl rfl⟩

/-- The answer to a request is settled only when it is awaited. -/
theorem run_awaited (client : Client) (tag : String) (body : ClientM Unit) :
    let settled := client.run (do if ← closeRequest tag then body)
    (settled.2.state.entities = client.state.entities ∧
        (client.state.isPending tag = true → ∃ error, settled.1 = .error error)) ∨
      ∃ after : Client, after.state.entities = client.state.entities ∧ settled = after.run body := by
  intro settled
  obtain ⟨closedSame, closed⟩ := run_closeRequest client tag
  simp only [settled, run_bind]
  rcases runs : client.run (closeRequest tag) with ⟨error | awaited, after⟩
  · rw [runs] at closedSame
    exact .inl ⟨closedSame, fun _ => ⟨error, rfl⟩⟩
  rw [runs] at closedSame closed
  obtain rfl : awaited = client.state.isPending tag := by simpa using closed
  cases pending : client.state.isPending tag with
  | false => exact .inl ⟨closedSame, by simp⟩
  | true => exact .inr ⟨after, closedSame, rfl⟩

/-- An answer of the server leads to an action, or to an error that leaves the entities alone. -/
theorem run_awaited_dispatch (client : Client) (tag : String) (action : Action) :
    let settled := client.run (do if ← closeRequest tag then dispatch action)
    (settled.2.state.entities = client.state.entities ∧
        (client.state.isPending tag = true → ∃ error, settled.1 = .error error)) ∨
      client.state.Undergoes action settled.2.state := by
  rcases run_awaited client tag (dispatch action) with same | ⟨after, closedSame, settles⟩
  · exact .inl same
  · intro settled
    rw [show settled = _ from settles]
    rcases run_dispatch_entities after action with
      ⟨_, now, start, stop, starts, reduced⟩ | ⟨⟨fault, fails⟩, same⟩
    · exact .inr ⟨now, start, stop, starts.trans closedSame, reduced⟩
    · exact .inl ⟨same.trans closedSame, fun _ => ⟨_, fails⟩⟩

theorem run_awaited_fail (client : Client) (tag : String) (error : RemoteError) :
    let settled := client.run (do if ← closeRequest tag then fail tag error)
    settled.2.state.entities = client.state.entities ∧
      (client.state.isPending tag = true → ∃ error, settled.1 = .error error) := by
  rcases run_awaited client tag (fail tag error) with same | ⟨after, closedSame, settles⟩
  · exact same
  · intro settled
    rw [show settled = _ from settles]
    obtain ⟨same, fails⟩ := run_fail (α := Unit) after tag error
    refine ⟨same.trans closedSame, fun _ => ?_⟩
    obtain fails | ⟨_, fails⟩ := fails <;> exact ⟨_, fails⟩

/-- What a push has come to when its answer has been settled.  An answer of the server folds
the pushed commits into the stored origin, or into that of the push when the entity has moved;
an error of the state may follow. -/
inductive SettlesPush (job : PushJob) (before : LocalState) (tag : String) :
    Except RemoteError PushCommand → Except ClientError PushSettled → LocalState → Prop
  | ignored {response : Except RemoteError PushCommand} {after : LocalState}
      (notPending : before.isPending tag = false) (same : after.entities = before.entities) :
      SettlesPush job before tag response (.ok (.ended .ignored)) after
  | failed {response : Except RemoteError PushCommand} {after : LocalState} {fault : StateError}
      (same : after.entities = before.entities) :
      SettlesPush job before tag response (.error (.state fault)) after
  | performed {command : PushCommand} {after : LocalState} {origin : Document}
      {result : Except ClientError PushSettled}
      (basis : origin = job.origin ∨ ∃ info known,
        before.find? job.key.entityName job.key.id = some info ∧
          info.versionId = job.versionId ∧
          before.find? command.entityName command.id = some known ∧ origin = known.origin)
      (undergoes : before.Undergoes (.synchronizeFrom command origin job.commits) after)
      (ends : (result = .ok (.ended (.synced job.commits.length)) ∨ result = .ok .moved) ∨
        ∃ fault, result = .error (.state fault)) :
      SettlesPush job before tag (.ok command) result after
  | unreachable {message : String} {after : LocalState}
      (same : after.entities = before.entities) :
      SettlesPush job before tag (.error (.network message))
        (.ok (.ended (.queued job.commits.length))) after
  | refused {error : RemoteError} {after : LocalState}
      (same : after.entities = before.entities) :
      SettlesPush job before tag (.error error) (.error (.remote error)) after

theorem run_performAndRetire (client : Client) (action : Action) (key : EntityKey)
    (acknowledged : UInt64) (value : α) :
    let performed := client.run (do
      dispatch action
      retire key acknowledged
      return value)
    (client.state.Undergoes action performed.2.state ∧
        (performed.1 = .ok value ∨ ∃ fault, performed.1 = .error (.state fault))) ∨
      (performed.2.state.entities = client.state.entities ∧
        ∃ fault, performed.1 = .error (.state fault)) := by
  intro performed
  simp only [performed, run_bind]
  have dispatched := run_dispatch_entities client action
  rcases runs : client.run (dispatch action) with ⟨error | value, after⟩
  · rw [runs] at dispatched
    obtain ⟨impossible, _⟩ | ⟨⟨fault, fails⟩, same⟩ := dispatched
    · cases impossible
    · cases fails
      exact .inr ⟨same, fault, rfl⟩
  · rw [runs] at dispatched
    obtain ⟨_, undergoes⟩ | ⟨⟨fault, fails⟩, _⟩ := dispatched
    · obtain ⟨same, errors, _⟩ := quiet_retire key acknowledged after trivial
      dsimp only
      rcases retires : after.run (retire key acknowledged) with ⟨error | _, last⟩
      · rw [retires] at same errors
        obtain ⟨fault, rfl⟩ := errors error rfl
        exact .inl ⟨undergoes.of_entities same, .inr ⟨fault, rfl⟩⟩
      · rw [retires] at same
        exact .inl ⟨undergoes.of_entities same, .inl rfl⟩
    · cases fails

-- An answer that is still awaited is settled on a state that has the entities of the state before,
-- as only the request was closed in between.

section Awaited

variable {client : Client} {before : LocalState} (job : PushJob) (tag : String)
  (same : client.state.entities = before.entities)

include same

theorem settlesPush_unreachable (message : String) :
    let settled := client.run (do
      recordFailure tag (.network message)
      return PushSettled.ended (.queued job.commits.length))
    SettlesPush job before tag (.error (.network message)) settled.1 settled.2.state := by
  intro settled
  obtain ⟨failureSame, errors, _⟩ := quiet_recordFailure tag (.network message) client trivial
  simp only [settled, run_bind]
  rcases records : client.run (recordFailure tag (.network message)) with ⟨error | _, last⟩
  · rw [records] at failureSame errors
    obtain ⟨fault, rfl⟩ := errors error rfl
    exact .failed (failureSame.trans same)
  · rw [records] at failureSame
    exact .unreachable (failureSame.trans same)

theorem settlesPush_refused (error : RemoteError) :
    let settled := client.run (do
      retire job.key (UInt64.ofNat job.commits.length)
      fail (α := PushSettled) tag error)
    SettlesPush job before tag (.error error) settled.1 settled.2.state := by
  intro settled
  obtain ⟨retireSame, errors, _⟩ :=
    quiet_retire job.key (UInt64.ofNat job.commits.length) client trivial
  simp only [settled, run_bind]
  rcases retires : client.run (retire job.key (UInt64.ofNat job.commits.length)) with
    ⟨error | _, last⟩
  · rw [retires] at retireSame errors
    obtain ⟨fault, rfl⟩ := errors error rfl
    exact .failed (retireSame.trans same)
  · rw [retires] at retireSame
    obtain ⟨failSame, fails⟩ := run_fail (α := PushSettled) last tag error
    have sameAll := failSame.trans (retireSame.trans same)
    dsimp only
    obtain fails | ⟨fault, fails⟩ := fails
    · rw [fails]
      exact .refused sameAll
    · rw [fails]
      exact .failed sameAll

theorem settlesPush_accepted (command : PushCommand) :
    let settled := client.run (do
      let info ← entityInfo job.key
      if info.versionId = job.versionId then
        dispatch (.synchronize command job.commits)
        retire job.key (UInt64.ofNat job.commits.length)
        return PushSettled.ended (.synced job.commits.length)
      else
        dispatch (.synchronizeFrom command job.origin job.commits)
        retire job.key (UInt64.ofNat job.commits.length)
        return PushSettled.moved)
    SettlesPush job before tag (.ok command) settled.1 settled.2.state := by
  intro settled
  obtain ⟨lookSame, errors, known⟩ := gives_entityInfo job.key client trivial
  simp only [settled, run_bind]
  rcases looks : client.run (entityInfo job.key) with ⟨error | info, last⟩
  · rw [looks] at lookSame errors
    obtain ⟨fault, rfl⟩ := errors error rfl
    exact .failed (lookSame.trans same)
  · rw [looks] at lookSame known
    have found := known info rfl
    have sameEntities := lookSame.trans same
    have starts : ∀ {action : Action} {next : LocalState},
        last.state.Undergoes action next → before.Undergoes action next :=
      fun ⟨now, start, stop, starts, reduced⟩ =>
        ⟨now, start, stop, starts.trans sameEntities, reduced⟩
    dsimp only
    split
    next unmoved =>
      obtain ⟨undergoes, ends⟩ | ⟨sameAfter, fault, fails⟩ :=
        run_performAndRetire last (.synchronize command job.commits) job.key
          (UInt64.ofNat job.commits.length)
          (PushSettled.ended (.synced job.commits.length))
      · obtain ⟨now, start, stop, startSame, reduced, stopSame⟩ := starts undergoes
        obtain ⟨knownInfo, knownFound, reducedFrom⟩ := LocalState.reduce_synchronize reduced
        refine .performed (.inr ⟨info, knownInfo, ?_, unmoved, ?_, rfl⟩)
          ⟨now, start, stop, startSame, reducedFrom, stopSame⟩ (ends.imp_left .inl)
        · rwa [LocalState.find?, ← sameEntities]
        · rwa [LocalState.find?, ← startSame]
      · rw [fails]
        exact .failed (sameAfter.trans sameEntities)
    next =>
      obtain ⟨undergoes, ends⟩ | ⟨sameAfter, fault, fails⟩ :=
        run_performAndRetire last (.synchronizeFrom command job.origin job.commits)
          job.key (UInt64.ofNat job.commits.length) PushSettled.moved
      · exact .performed (.inl rfl) (starts undergoes) (ends.imp_left .inr)
      · rw [fails]
        exact .failed (sameAfter.trans sameEntities)

end Awaited

theorem settlesPush (job : PushJob) (tag : String) (response : Except RemoteError PushCommand)
    (client : Client) :
    SettlesPush job client.state tag response (client.run (settlePush job tag response)).1
      (client.run (settlePush job tag response)).2.state := by
  obtain ⟨closedSame, closed⟩ := run_closeRequest client tag
  simp only [settlePush, run_bind]
  rcases runs : client.run (closeRequest tag) with ⟨error | awaited, after⟩
  · rw [runs] at closedSame closed
    obtain ⟨fault, fails⟩ := closed.resolve_left (by simp)
    cases fails
    exact .failed closedSame
  rw [runs] at closedSame closed
  obtain rfl : awaited = client.state.isPending tag := by simpa using closed
  cases pending : client.state.isPending tag with
  | false => exact .ignored pending closedSame
  | true =>
      match response with
      | .error (.network message) => exact settlesPush_unreachable job tag closedSame message
      | .error (.rejected error) => exact settlesPush_refused job tag closedSame (.rejected error)
      | .ok command => exact settlesPush_accepted job tag closedSame command

end Client

end LocalFirst
