import LocalFirst.Proofs.MirroredEntities
import LocalFirst.Proofs.ServerHistory
import LocalFirst.Proofs.SettledCalls

/-!
# One entity between a client and the server

While a call of a client waits for its answer, commits to an entity and diffs of it may
be dispatched, and the server goes on with whatever it does.  All of this keeps the
origin of the entity a document that the server has held at the stored version.
-/

namespace LocalFirst

/-- The operations that answer a pull come from the log, and do not read the clock. -/
theorem History.Accounts.timeless_of_pull {history : History} {server : Server} {key : EntityKey}
    {version : String} {command : PushCommand} (accounts : history.Accounts server)
    (pulled : server.pull key version = .ok command) :
    ∀ operation ∈ command.operations, operation.Timeless := by
  obtain ⟨stored, operations, found, since, rfl⟩ := Server.pull_eq_ok pulled
  obtain ⟨document, later, _, rfl, follows, _⟩ := accounts.operationsSince found since
  exact follows.timeless accounts.timeless

/-- A server with all that it has issued, and one of its clients. -/
structure Scene where
  history : History
  server : Server
  client : Client

namespace Scene

/-- The client runs a part of a call. -/
def run {α : Type} (scene : Scene) (part : ClientM α) : Except ClientError α × Scene :=
  ((scene.client.run part).1, { scene with client := (scene.client.run part).2 })

/-- The server answers a request. -/
def ask (scene : Scene) (request : Request) : request.Response × Scene :=
  ((scene.server.answer request).1,
    ⟨scene.history.logged (scene.server.answer request).2.1, (scene.server.answer request).2.2,
      scene.client⟩)

/-- What may happen while a request about an entity is on its way: commits to the entity, diffs of
it that the server has broadcast, and whatever the server does. -/
inductive Step (key : EntityKey) : Scene → Scene → Prop
  | commit {scene : Scene} {operation : Update} (timeless : operation.Timeless) :
      Step key scene (scene.run (Client.commit key operation)).2
  | patch {scene : Scene} {diff : VersionDiff} (member : diff ∈ scene.history.diffs)
      (sameKey : diff.key = key) : Step key scene (scene.run (Client.dispatch (.patch diff))).2
  | applyDiff {scene : Scene} {diff : VersionDiff} (member : diff ∈ scene.history.diffs)
      (sameKey : diff.key = key) : Step key scene (scene.run (Client.applyVersionDiff diff)).2
  | serve {scene : Scene} {longer : History} {next : Server}
      (happens : Server.Step scene.history scene.server longer next) :
      Step key scene { scene with history := longer, server := next }
  | wake {scene : Scene} {client : Client} (sameStore : client.store = scene.client.store) :
      Step key scene { scene with client := client }

/-- What may happen in any number of steps. -/
abbrev Steps (key : EntityKey) : Scene → Scene → Prop :=
  Relation.ReflTransGen (Step key)

/-- To answer is a step of the server like others. -/
theorem Step.ask {key : EntityKey} {scene : Scene} {request : Request}
    (timeless : request.Timeless) : Step key scene (scene.ask request).2 :=
  .serve (.answer timeless rfl)

/-- The history is complete, and the entity mirrors that of the server if it is followed. -/
structure Ready (key : EntityKey) (scene : Scene) : Prop where
  accounts : scene.history.Accounts scene.server
  mirrors : scene.client.state.MirrorsAt scene.history key key

/-- A part of a call that leaves the entities alone keeps the mirror. -/
theorem Ready.run {key : EntityKey} {scene : Scene} (ready : scene.Ready key)
    {α : Type} {part : ClientM α}
    (same : (scene.client.run part).2.state.entities = scene.client.state.entities) :
    (scene.run part).2.Ready key :=
  ⟨ready.accounts, ready.mirrors.of_entities same⟩

/-- So does an answer of the server. -/
theorem Ready.ask {key : EntityKey} {scene : Scene} (ready : scene.Ready key)
    {request : Request} (timeless : request.Timeless) : (scene.ask request).2.Ready key :=
  ⟨ready.accounts.step (.answer timeless rfl),
    ready.mirrors.mono (scene.history.extends_logged _)⟩

theorem Ready.patched {key : EntityKey} {scene : Scene} (ready : scene.Ready key)
    {diff : VersionDiff} (member : diff ∈ scene.history.diffs) (sameKey : diff.key = key)
    {α : Type} {part : ClientM α}
    (performs : (scene.client.run part).2.state.entities = scene.client.state.entities ∨
      scene.client.state.Undergoes (.patch diff) (scene.client.run part).2.state) :
    (scene.run part).2.Ready key := by
  obtain same | ⟨now, start, stop, starts, reduced, stops⟩ := performs
  · exact ready.run same
  · subst sameKey
    refine ⟨ready.accounts, LocalState.MirrorsAt.of_entities ?_ stops⟩
    obtain rfl | patched :=
      (ready.mirrors.of_entities starts).patch ready.accounts member reduced
    · exact ready.mirrors.of_entities starts
    · exact patched

/-- Whatever happens on the way, the entity goes on to mirror that of the server. -/
theorem Ready.step {key : EntityKey} {scene next : Scene} (ready : scene.Ready key)
    (happens : Step key scene next) : next.Ready key := by
  cases happens with
  | @commit operation timeless =>
      refine ⟨ready.accounts, ?_⟩
      obtain ⟨_, now, start, stop, starts, reduced, stops⟩ | ⟨_, same⟩ :=
        Client.run_dispatch_entities scene.client (.commit key.entityName key.id operation)
      · exact ((ready.mirrors.of_entities starts).commit timeless reduced).of_entities stops
      · exact ready.mirrors.of_entities same
  | @patch diff member sameKey =>
      refine ready.patched member sameKey ?_
      obtain ⟨_, undergoes⟩ | ⟨_, same⟩ :=
        Client.run_dispatch_entities scene.client (.patch diff)
      · exact .inr undergoes
      · exact .inl same
  | @applyDiff diff member sameKey =>
      exact ready.patched member sameKey (Client.run_applyVersionDiff scene.client diff)
  | serve happens =>
      exact ⟨ready.accounts.step happens, ready.mirrors.mono happens.extends⟩
  | wake sameStore =>
      refine ⟨ready.accounts, ?_⟩
      rw [Client.state, sameStore]
      exact ready.mirrors

theorem Ready.steps {key : EntityKey} {scene next : Scene} (ready : scene.Ready key)
    (happen : Steps key scene next) : next.Ready key := by
  induction happen with
  | refl => exact ready
  | tail _ happens ih => exact ih.step happens

/-- Commits that are as they are read back stay so. -/
theorem commitsStored_of_steps {key : EntityKey} {scene next : Scene}
    (stored : scene.client.state.CommitsStored key.entityName key.id)
    (happen : Steps key scene next) :
    next.client.state.CommitsStored key.entityName key.id := by
  induction happen with
  | refl => exact stored
  | @tail scene _ _ happens ih =>
      cases happens with
      | @commit operation _ =>
          obtain ⟨_, undergoes⟩ | ⟨_, same⟩ :=
            Client.run_dispatch_entities scene.client (.commit key.entityName key.id operation)
          · exact undergoes.commitsStored_of_commit
          · exact ih.of_entities same
      | @patch diff _ sameKey =>
          subst sameKey
          obtain ⟨_, undergoes⟩ | ⟨_, same⟩ :=
            Client.run_dispatch_entities scene.client (.patch diff)
          · exact undergoes.commitsStored_of_patch ih
          · exact ih.of_entities same
      | @applyDiff diff _ sameKey =>
          subst sameKey
          obtain same | undergoes := Client.run_applyVersionDiff scene.client diff
          · exact ih.of_entities same
          · exact undergoes.commitsStored_of_patch ih
      | serve => exact ih
      | wake sameStore =>
          rw [Client.state, sameStore]
          exact ih

theorem Step.extends {key : EntityKey} {scene next : Scene} (happens : Step key scene next) :
    scene.history.Extends next.history := by
  cases happens with
  | serve happens => exact happens.extends
  | _ => exact .refl _

theorem extends_of_steps {key : EntityKey} {scene next : Scene}
    (happen : Steps key scene next) : scene.history.Extends next.history := by
  induction happen with
  | refl => exact .refl _
  | tail _ happens ih => exact ih.trans happens.extends

/-- An answer that is no error comes from a push that the server has performed. -/
theorem pushed_of_ok {scene : Scene} {request : PushRequest} {command : PushCommand}
    (ok : (scene.ask (.push request)).1 = .ok command) :
    scene.server.push request =
      .ok (command, (scene.server.answer (.push request)).2.1,
        (scene.ask (.push request)).2.server) := by
  rw [ask] at ok ⊢
  obtain ⟨_, _, _, pushed, answers⟩ | ⟨_, answers⟩ :=
    Server.answer_push_eq scene.server request
  · rw [answers] at ok
    cases ok
    rw [answers]
    exact pushed
  · rw [answers] at ok
    cases ok

/-- What the server has issued stays complete. -/
theorem accounts_of_steps {key : EntityKey} {scene next : Scene} (happen : Steps key scene next)
    (accounts : scene.history.Accounts scene.server) : next.history.Accounts next.server := by
  induction happen with
  | refl => exact accounts
  | tail _ happens ih =>
      cases happens with
      | serve happens => exact ih.step happens
      | _ => exact ih

/-- A pull that is settled replays its operations on the origin that is stored then.  They lead from
the document at the version that was asked for to the one at the version of the answer, whether or
not the entity has moved in the meantime. -/
theorem rebased {key : EntityKey} {asking answering : Scene} {since : String} {base : Document}
    {command : PushCommand} {after : LocalState}
    (accounts : asking.history.Accounts asking.server) (held : asking.history.Held key since base)
    (pulled : asking.server.pull key since = .ok command)
    (inward : Steps key (asking.ask (.pull key since)).2 answering)
    (snapshot : ∀ before, answering.client.state.find? key.entityName key.id = some before →
      ∃ version, before.versionId = some version ∧
        answering.history.Held key version before.origin)
    (undergoes : answering.client.state.Undergoes (.rebase command) after) :
    ∃ before now expected,
      answering.client.state.find? key.entityName key.id = some before ∧
      after.find? key.entityName key.id = some now ∧
      before.commits.mapM Update.stored = .ok now.commits ∧
      now.versionId = some command.versionId ∧
      answering.history.Later key since command.versionId ∧
      answering.history.Held key command.versionId expected ∧
      (∀ time, Update.applyAll time base command.operations = .ok expected ∧
        Update.applyAll time before.origin command.operations = .ok now.origin) ∧
      (before.versionId = some since → now.origin = expected) := by
  have grows : asking.history.Extends answering.history :=
    (asking.history.extends_logged _).trans (extends_of_steps inward)
  have asksNothing : (Request.pull key since).Timeless := trivial
  have answeringAccounts := accounts_of_steps (.head (.ask asksNothing) inward) accounts
  obtain ⟨document, expected, nameEq, idEq, documentHeld, applied, expectedHeld, goesOn, _⟩ :=
    accounts.answer_pull pulled
  obtain ⟨_, rfl⟩ := held.unique accounts.nodup documentHeld
  obtain ⟨_, time, before, now, beforeKnown, nowKnown, nowVersion, replayed, read, _⟩ :=
    undergoes.rebase
  rw [nameEq, idEq] at beforeKnown nowKnown
  have timeless := accounts.timeless_of_pull pulled
  refine ⟨before, now, expected, beforeKnown, nowKnown, read, nowVersion,
    History.Later.mono grows goesOn, expectedHeld.mono grows,
    fun later => ⟨applied later, ?_⟩, fun unmoved => ?_⟩
  · rw [Update.applyAll_eq_of_timeless timeless later time, replayed]
  · obtain ⟨version, versionEq, beforeHeld⟩ := snapshot before beforeKnown
    obtain rfl : version = since := Option.some.inj (versionEq.symm.trans unmoved)
    have sameOrigin := ((held.mono grows).unique answeringAccounts.nodup beforeHeld).2
    rw [← sameOrigin, applied time] at replayed
    exact (Except.ok.inj replayed).symm

/-- A followed entity whose origin the server has held at the stored version mirrors it. -/
theorem ready_of_served {key : EntityKey} {scene : Scene} {info : EntityInfo}
    {version : String} (served : Server.Served scene.history scene.server)
    (known : scene.client.state.find? key.entityName key.id = some info)
    (versionEq : info.versionId = some version)
    (held : scene.history.Held key version info.origin)
    (timeless : ∀ commit ∈ info.commits, commit.Timeless) : scene.Ready key := by
  refine ⟨History.accounts_of_served served, fun other found => ?_⟩
  obtain rfl := Option.some.inj (known.symm.trans found)
  exact ⟨⟨version, versionEq, held⟩, timeless⟩

end Scene

/-- What a call has come to, once it waits for nothing more. -/
def Progress.finished? : Progress → Option CallResult
  | .finished result => some result
  | .waiting _ => none

theorem Progress.finished_of_finished? {ended : Except ClientError Progress} {result : CallResult}
    (finished : ended.toOption.bind finished? = some result) : ended = .ok (.finished result) := by
  rcases ended with error | (outcome | suspended)
  · cases finished
  · cases finished
    rfl
  · cases finished

end LocalFirst
