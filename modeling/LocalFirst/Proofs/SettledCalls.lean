import LocalFirst.Proofs.SettledPush

/-!
# How the other calls are settled

The answer to a pull, a login, a logout or a deletion leads to at most one action on an entity, and
an answer that is no longer awaited to none.
-/

namespace LocalFirst

/-- The action that a pull of an entity performs with an answer. -/
def PullKind.Performs (key : EntityKey) :
    (kind : PullKind) → (kind.request key).Response → Action → Prop
  | .fetch, response, action => ∃ fetched : Fetched, response = .ok fetched ∧
      action = .follow key.entityName fetched.entity (some fetched.versionId)
  | .since _, response, action => ∃ command : PushCommand, response = .ok command ∧
      action = .rebase command

/-- The actions on entities that a call may perform with an answer. -/
def Flight.Performs (state : LocalState) :
    (flight : Flight) → flight.request.Response → Action → Prop
  | .follow key, response, action => PullKind.Performs key .fetch response action
  | .pull key kind, response, action => kind.Performs key response action
  | .push job _, response, action => ∃ (command : PushCommand) (origin : Document),
      response = .ok command ∧ action = .synchronizeFrom command origin job.commits ∧
        (origin = job.origin ∨ ∃ info known,
          state.find? job.key.entityName job.key.id = some info ∧
            info.versionId = job.versionId ∧
            state.find? command.entityName command.id = some known ∧ origin = known.origin)
  | .catchUp job kind _, response, action => kind.Performs job.key response action
  | .login _, response, action => ∃ answer : LoginResponse, response = .ok answer ∧
      action = .setSession answer.session (some answer.user) (some answer.versionId)
  | .logout session, _, action => ∃ userId, session.userId = some userId ∧
      action = .unfollow session.entityName userId
  | .delete key, _, action => action = .unfollow key.entityName key.id

namespace Client

theorem run_settlePull (client : Client) (key : EntityKey) (tag : String) (kind : PullKind)
    (response : (kind.request key).Response) :
    ((client.run (settlePull key tag kind response)).2.state.entities = client.state.entities ∧
        (client.state.isPending tag = true →
          ∃ error, (client.run (settlePull key tag kind response)).1 = .error error)) ∨
      ∃ action, kind.Performs key response action ∧
        client.state.Undergoes action (client.run (settlePull key tag kind response)).2.state := by
  cases kind with
  | fetch =>
      cases response with
      | error error => exact .inl (run_awaited_fail client tag error)
      | ok fetched =>
          refine (run_awaited_dispatch client tag _).imp_right fun undergoes => ?_
          exact ⟨_, ⟨fetched, rfl, rfl⟩, undergoes⟩
  | since version =>
      cases response with
      | error error => exact .inl (run_awaited_fail client tag error)
      | ok command =>
          refine (run_awaited_dispatch client tag _).imp_right fun undergoes => ?_
          exact ⟨_, ⟨command, rfl, rfl⟩, undergoes⟩

/-- A diff of the server leads to a patch, or to nothing. -/
theorem run_applyVersionDiff (client : Client) (diff : VersionDiff) :
    let applied := client.run (applyVersionDiff diff)
    applied.2.state.entities = client.state.entities ∨
      client.state.Undergoes (.patch diff) applied.2.state := by
  intro applied
  have begins : applied = client.run (snapshot >>= fun state =>
      if !state.hasEntity diff.entityName diff.id then pure false else _) := rfl
  cases followed : client.state.hasEntity diff.entityName diff.id with
  | false => exact .inl (by simp [begins, run_bind, snapshot, run_get, followed])
  | true =>
      cases staleness : client.state.isStale diff with
      | error error => exact .inl (by
          simp [begins, run_bind, snapshot, run_get, followed, staleness, run_throw])
      | ok stale =>
          cases stale with
          | true => exact .inl (by
              simp [begins, run_bind, snapshot, run_get, followed, staleness])
          | false =>
              have runs : applied = client.run (dispatch (.patch diff) >>= fun _ => pure true) := by
                simp [begins, run_bind, snapshot, run_get, followed, staleness]
              have dispatched := run_dispatch_entities client (.patch diff)
              rcases ran : client.run (dispatch (.patch diff)) with ⟨error | value, after⟩
              · rw [ran] at dispatched
                rw [runs, run_bind_error ran]
                exact .inl (dispatched.resolve_left (by simp)).2
              · rw [ran] at dispatched
                rw [runs, run_bind_ok ran]
                exact .inr (dispatched.resolve_right (by simp)).2

theorem run_unfollowIfFollowed (client : Client) (key : EntityKey) :
    let unfollowed := client.run (unfollowIfFollowed key)
    unfollowed.2.state.entities = client.state.entities ∨
      client.state.Undergoes (.unfollow key.entityName key.id) unfollowed.2.state := by
  have runs : client.run (unfollowIfFollowed key) =
      client.run (if client.state.hasEntity key.entityName key.id then
        dispatch (.unfollow key.entityName key.id) else pure ()) := rfl
  dsimp only
  rw [runs]
  split
  · rcases run_dispatch_entities client (.unfollow key.entityName key.id) with
      ⟨_, undergoes⟩ | ⟨_, same⟩
    · exact .inr undergoes
    · exact .inl same
  · exact .inl rfl

theorem run_settleDelete (client : Client) (key : EntityKey) (tag : String)
    (response : Except RemoteError Unit) :
    let settled := client.run (settleDelete key tag response)
    settled.2.state.entities = client.state.entities ∨
      client.state.Undergoes (.unfollow key.entityName key.id) settled.2.state := by
  cases response with
  | error error => exact .inl (run_awaited_fail client tag error).1
  | ok answer =>
      rcases run_awaited client tag (unfollowIfFollowed key) with same | ⟨after, same, settles⟩
      · exact .inl same.1
      · intro settled
        rw [show settled = _ from settles]
        rcases run_unfollowIfFollowed after key with
          unchanged | ⟨now, start, stop, starts, reduced⟩
        · exact .inl (unchanged.trans same)
        · exact .inr ⟨now, start, stop, starts.trans same, reduced⟩

theorem run_settleLogout (client : Client) (session : Session) (tag : String)
    (response : Except RemoteError Unit) :
    let settled := client.run (settleLogout session tag response)
    settled.2.state.entities = client.state.entities ∨
      ∃ userId, session.userId = some userId ∧
        client.state.Undergoes (.unfollow session.entityName userId) settled.2.state := by
  cases response with
  | error error => exact .inl (run_awaited_fail client tag error).1
  | ok answer =>
      obtain ⟨leaves, calls, leavesNone, leavesUser⟩ : ∃ leaves,
          settleLogout session tag (.ok answer) =
            (do if ← closeRequest tag then (dispatch .unsetSession >>= fun _ => leaves)) ∧
          (session.userId = none → leaves = pure ()) ∧ ∀ userId, session.userId = some userId →
            leaves = unfollowIfFollowed ⟨session.entityName, userId⟩ :=
        ⟨_, rfl, fun noUser => by rw [noUser], fun userId user => by rw [user]⟩
      rw [calls]
      rcases run_awaited client tag (dispatch .unsetSession >>= fun _ => leaves) with
        same | ⟨after, same, settles⟩
      · exact .inl same.1
      · intro settled
        rw [show settled = _ from settles, run_bind]
        have unset : Quiet (dispatch .unsetSession) := quiet_dispatch (by exact trivial)
        have unsetSame := unset.entities after
        rcases runs : after.run (dispatch .unsetSession) with ⟨error | _, last⟩
        · rw [runs] at unsetSame
          exact .inl (unsetSame.trans same)
        · rw [runs] at unsetSame
          cases userEq : session.userId with
          | none =>
              rw [leavesNone userEq]
              exact .inl (unsetSame.trans same)
          | some userId =>
              rw [leavesUser userId userEq]
              rcases run_unfollowIfFollowed last ⟨session.entityName, userId⟩ with
                unchanged | ⟨now, start, stop, starts, reduced⟩
              · exact .inl (unchanged.trans (unsetSame.trans same))
              · exact .inr ⟨userId, rfl, now, start, stop, starts.trans (unsetSame.trans same),
                  reduced⟩

theorem run_settleLogin (client : Client) (tag : String)
    (response : Except RemoteError LoginResponse) :
    let settled := client.run (settleLogin tag response)
    settled.2.state.entities = client.state.entities ∨
      ∃ answer, response = .ok answer ∧ client.state.Undergoes
        (.setSession answer.session (some answer.user) (some answer.versionId))
        settled.2.state := by
  cases response with
  | error error => exact .inl (run_awaited_fail client tag error).1
  | ok answer =>
      rcases run_awaited_dispatch client tag
        (.setSession answer.session (some answer.user) (some answer.versionId)) with
        same | undergoes
      · exact .inl same.1
      · exact .inr ⟨answer, rfl, undergoes⟩

end Client

end LocalFirst
