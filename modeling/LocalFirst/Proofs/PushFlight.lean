import LocalFirst.Proofs.CatchUp
import LocalFirst.Proofs.Snapshots

/-!
# A push on its way

A push of an entity is sent with the first commits and the origin of the time of sending,
reaches the server, and its answer reaches the client.  Between these, commits and diffs
go on.  An answer that is no error leads from the origin on which the client settles it
to the version that the server returns, so that the commits that were pushed are folded
into the origin.
-/

namespace LocalFirst

/-- A push of an entity on its way: the request is sent, reaches the server, and its answer
reaches the client. -/
structure PushFlight (key : EntityKey) (sending : Scene) where
  tag : String
  job : PushJob
  starts : (sending.run (Client.start (.push key))).1 = .ok (.waiting ⟨tag, .push job none⟩)
  arriving : Scene
  outward : Scene.Steps key (sending.run (Client.start (.push key))).2 arriving
  responding : Scene
  inward : Scene.Steps key (arriving.ask (.push job.request)).2 responding

namespace PushFlight

variable {key : EntityKey} {sending : Scene} (flight : PushFlight key sending)

/-- The answer of the server. -/
def response : Except RemoteError PushCommand :=
  (flight.arriving.ask (.push flight.job.request)).1

/-- The server when it has answered. -/
def answered : Scene :=
  (flight.arriving.ask (.push flight.job.request)).2

/-- The diffs that the push makes the server broadcast. -/
def diffs : List VersionDiff :=
  (flight.arriving.server.answer (.push flight.job.request)).2.1

/-- The client when it has settled the answer. -/
def resumed : Except ClientError Progress × Scene :=
  flight.responding.run (Client.resume flight.tag (.push flight.job none) flight.response)

/-- The push was sent with the first commits of the entity as it was stored. -/
theorem job_fits : flight.job.key = key ∧ flight.job.Fits sending.client.state ∧
    (sending.run (Client.start (.push key))).2.client.state.entities =
      sending.client.state.entities := by
  obtain ⟨same, _, waits⟩ := Client.gives_startPush key sending.client trivial
  obtain ⟨_, ended, _⟩ | ⟨tag, job, waiting, sameKey, _, fits⟩ := waits _ flight.starts
  · cases ended
  · cases waiting
    exact ⟨sameKey, fits.of_entities same.symm, same⟩

theorem ready_arriving (ready : sending.Ready key) : flight.arriving.Ready key :=
  (ready.run flight.job_fits.2.2).steps flight.outward

/-- The push holds what the server has held. -/
theorem backed (ready : sending.Ready key) : flight.job.Backed flight.arriving.history := by
  obtain ⟨sameKey, ⟨info, count, found, versionEq, originEq, commitsEq⟩, _⟩ := flight.job_fits
  rw [sameKey] at found
  obtain ⟨⟨version, infoVersion, held⟩, timeless⟩ := ready.mirrors info found
  refine ⟨⟨version, key, versionEq.trans infoVersion, ?_⟩, fun commit member => ?_⟩
  · rw [originEq]
    exact held.mono (Scene.extends_of_steps flight.outward)
  · exact timeless commit (List.mem_of_mem_take (commitsEq ▸ member))

theorem timeless (ready : sending.Ready key) : (Request.push flight.job.request).Timeless :=
  (flight.backed ready).timeless

theorem ready_responding (ready : sending.Ready key) : flight.responding.Ready key :=
  ((flight.ready_arriving ready).ask (flight.timeless ready)).steps flight.inward

/-- The answer of the server leads from the origin on which the push is settled to the version
that it returns. -/
theorem leads (ready : sending.Ready key) {command : PushCommand} {origin : Document}
    (ok : flight.response = .ok command)
    (basis : origin = flight.job.origin ∨ ∃ info known,
      flight.responding.client.state.find? flight.job.key.entityName flight.job.key.id =
          some info ∧
        info.versionId = flight.job.versionId ∧
        flight.responding.client.state.find? command.entityName command.id = some known ∧
        origin = known.origin) :
    (⟨command.entityName, command.id⟩ : EntityKey) = key ∧ ∃ version,
      flight.responding.history.Leads key version origin
        (command.operations ++ flight.job.commits) command.versionId := by
  have sameKey := flight.job_fits.1
  have arriving := flight.ready_arriving ready
  have responding := flight.ready_responding ready
  have grows := Scene.extends_of_steps flight.inward
  have truthful : (Request.push flight.job.request).Truthful
      (flight.arriving.history.logged flight.diffs) flight.response :=
    arriving.accounts.truthful (flight.timeless ready) rfl
  rw [ok] at truthful
  have leads := leads_of_push responding.accounts
    ((flight.backed ready).mono ((flight.arriving.history.extends_logged _).trans grows))
    (fun info found => ⟨key, responding.mirrors info (by rwa [sameKey] at found)⟩)
    (truthful.mono grows) basis
  rwa [sameKey] at leads

theorem accounts_resumed (ready : sending.Ready key) :
    flight.resumed.2.history.Accounts flight.resumed.2.server :=
  (flight.ready_responding ready).accounts

/-- The commits that were pushed are folded into the origin. -/
theorem knows_of_performed (ready : sending.Ready key) {command : PushCommand}
    {origin : Document} {after : Scene} (ok : flight.response = .ok command)
    (basis : origin = flight.job.origin ∨ ∃ info known,
      flight.responding.client.state.find? flight.job.key.entityName flight.job.key.id =
          some info ∧
        info.versionId = flight.job.versionId ∧
        flight.responding.client.state.find? command.entityName command.id = some known ∧
        origin = known.origin)
    (undergoes : flight.responding.client.state.Undergoes
      (.synchronizeFrom command origin flight.job.commits) after.client.state)
    (sameHistory : after.history = flight.responding.history) :
    ∃ before commits,
      flight.responding.client.state.find? key.entityName key.id = some before ∧
      (before.commits.drop flight.job.commits.length).mapM Update.stored = .ok commits ∧
      after.Knows key commits command.versionId := by
  obtain ⟨rfl, _, result, _, applied, resultHeld⟩ := flight.leads ready ok basis
  obtain ⟨_, time, before, now, known, nowKnown, nowVersion, nowApplied, read⟩ :=
    undergoes.synchronizeFrom
  obtain rfl := Except.ok.inj ((applied time).symm.trans nowApplied)
  refine ⟨before, now.commits, known, read, now, command.versionId, nowKnown, rfl, nowVersion,
    ?_, ?_⟩
  · exact .refl
  · exact sameHistory ▸ resultHeld

/-- An answer that is an error leaves the server as it was. -/
theorem answered_of_error {error : RemoteError} (failed : flight.response = .error error) :
    flight.answered.server = flight.arriving.server ∧ flight.diffs = [] := by
  rw [response, Scene.ask] at failed
  rw [answered, Scene.ask, diffs]
  obtain ⟨_, _, _, _, answers⟩ | ⟨_, answers⟩ :=
    Server.answer_push_eq flight.arriving.server flight.job.request
  · rw [answers] at failed
    cases failed
  · rw [answers]
    exact ⟨rfl, rfl⟩

/-- An answer that is no error comes from a push that the server has performed. -/
theorem answered_of_ok {command : PushCommand} (ok : flight.response = .ok command) :
    flight.arriving.server.push flight.job.request =
      .ok (command, flight.diffs, flight.answered.server) :=
  Scene.pushed_of_ok ok

theorem commits_eq {info : EntityInfo}
    (known : sending.client.state.find? key.entityName key.id = some info) :
    flight.job.commits.length ≤ info.commits.length ∧
      flight.job.commits = info.commits.take flight.job.commits.length := by
  obtain ⟨sameKey, fits, _⟩ := flight.job_fits
  obtain ⟨other, found, commits⟩ := fits.commits_eq
  rw [sameKey] at found
  obtain rfl := Option.some.inj (known.symm.trans found)
  exact commits

/-- Commits that are as they are read back are dropped as they are. -/
theorem pending_eq {before : EntityInfo} {count : Nat} {commits : List Update}
    (stored : sending.client.state.CommitsStored key.entityName key.id)
    (known : flight.responding.client.state.find? key.entityName key.id = some before)
    (read : (before.commits.drop count).mapM Update.stored = .ok commits) :
    commits = before.commits.drop count := by
  have sent := stored.of_entities flight.job_fits.2.2
  have arriving := Scene.commitsStored_of_steps sent flight.outward
  have answered : flight.answered.client.state.CommitsStored key.entityName key.id := arriving
  have responding := Scene.commitsStored_of_steps answered flight.inward
  have fixed : ∀ commit ∈ before.commits.drop count, commit.stored = .ok commit :=
    fun commit member => responding before known commit (List.mem_of_mem_drop member)
  exact (Except.ok.inj ((Update.mapM_stored_eq_ok fixed).symm.trans read)).symm

end PushFlight

end LocalFirst
