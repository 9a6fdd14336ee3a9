import LocalFirst.Proofs.AnsweredAtOnce
import LocalFirst.Proofs.ServerLog

/-!
# Rounds of pushing

A push that nothing crosses is one round: some of the commits go to the server, which logs them
behind what it has, and the client folds its answer and these commits into the origin.  A round
goes through when the commits apply to the document of the server, and then the next one does, as
the commits that are left apply to the document that the server has made.  Where everything can be
pushed at once, it can therefore be pushed part by part.
-/

namespace LocalFirst

namespace Scene

/-- A push of an entity that sends no more commits than a limit. -/
def push (scene : Scene) (key : EntityKey) (limit : Option Nat) :
    Except ClientError Progress × Scene :=
  call { scene with client := { scene.client with maxPushBatch := limit } } (.push key)

/-- Everything that is pending of an entity can be pushed: the client is online and free to push it,
its origin is what the server has held at the stored version, and its commits apply to what the
server holds now. -/
structure Poised (key : EntityKey) (scene : Scene) (info : EntityInfo) (stored : StoredEntity) :
    Prop where
  accounts : scene.history.Accounts scene.server
  reachable : scene.server.isReachable = true
  found : scene.server.stored? key = some stored
  listed : ∃ version ∈ stored.versions.map Version.id, info.versionId = some version ∧
    scene.history.Held key version info.origin
  applies : ∃ document, ∀ now, Update.applyAll now stored.current info.commits = .ok document
  known : scene.client.state.find? key.entityName key.id = some info
  written : ∀ commit ∈ info.commits, commit.stored = .ok commit
  timeless : ∀ commit ∈ info.commits, commit.Timeless
  few : info.commits.length < Nat.pow 2 63
  addressable : (entityPath key.entityName key.id).fault? = none
  online : scene.client.state.network.isOnline = true
  reads : scene.client.state.QueueReads
  free : key ∉ scene.client.inFlight

/-- The first commits of an entity are in the log of the server, and the origin is the document that
the server has with them. -/
structure Moved (key : EntityKey) (count : Nat) (before : Scene) (info : EntityInfo)
    (stored : StoredEntity) (after : Scene) (now : EntityInfo) (grown : StoredEntity) : Prop where
  origin : now.origin = grown.current
  commits : now.commits = info.commits.drop count
  clean : now.commits = [] → now.head = none
  log : after.server.log key = before.server.log key ++ info.commits.take count
  current : ∀ time, Update.applyAll time stored.current (info.commits.take count) =
    .ok grown.current
  others : ∀ other ≠ key, after.server.stored? other = before.server.stored? other

variable {key : EntityKey} {scene : Scene} {info : EntityInfo} {stored : StoredEntity}
  {limit : Option Nat}

theorem ask_push {request : PushRequest} {command : PushCommand} {diffs : List VersionDiff}
    {next : Server} (pushed : scene.server.push request = .ok (command, diffs, next)) :
    scene.ask (.push request) =
      (.ok command, ⟨scene.history.logged diffs, next, scene.client⟩) := by
  simp only [ask, Server.answer, pushed, Server.settle]

/-- What the server makes of a batch of the commits, and what it answers. -/
structure Logs (key : EntityKey) (scene : Scene) (info : EntityInfo) (stored : StoredEntity)
    (batch : List Update) (command : PushCommand) (diffs : List VersionDiff) (next : Server)
    (grown : StoredEntity) : Prop where
  pushed : scene.server.push ⟨key.entityName, key.id, info.versionId, batch⟩ =
    .ok (command, diffs, next)
  about : command = ⟨key.entityName, key.id, command.versionId, command.operations⟩
  folds : ∀ now, Update.applyAll now info.origin (command.operations ++ batch) = .ok grown.current
  current : ∀ now, Update.applyAll now stored.current batch = .ok grown.current
  log : next.log key = scene.server.log key ++ batch
  listed : command.versionId ∈ grown.versions.map Version.id
  entities : ∀ other, next.stored? other =
    if other = key then some grown else scene.server.stored? other
  reachable : next.isReachable = true
  accounts : (scene.history.logged diffs).Accounts next
  held : (scene.history.logged diffs).Held key command.versionId grown.current

/-- What the server makes of commits that are pushed with an origin that it has held. -/
theorem logs_of_push {version : String} {current : Document} {batch : List Update}
    {command : PushCommand} {diffs : List VersionDiff} {next : Server}
    (accounts : scene.history.Accounts scene.server)
    (found : scene.server.stored? key = some stored) (versionEq : info.versionId = some version)
    (held : scene.history.Held key version info.origin)
    (timeless : ∀ commit ∈ batch, commit.Timeless)
    (applied : ∀ now, Update.applyAll now stored.current batch = .ok current)
    (pushed : scene.server.push ⟨key.entityName, key.id, info.versionId, batch⟩ =
      .ok (command, diffs, next)) :
    Logs key scene info stored batch command diffs next
      ⟨current, stored.versions ++ diffs.map VersionDiff.version⟩ := by
  let grown : StoredEntity := ⟨current, stored.versions ++ diffs.map VersionDiff.version⟩
  let request : PushRequest := ⟨key.entityName, key.id, info.versionId, batch⟩
  have requestFound : scene.server.stored? request.key = some stored := found
  have accepted := Server.accepts_of_push (accounts.logs _ _ requestFound) requestFound pushed
  obtain ⟨logged, loggedApplied, entities⟩ := accepted.logged
  obtain rfl : logged = current := Except.ok.inj (loggedApplied.symm.trans (applied _))
  have grownFound : next.stored? key = some grown := (entities key).trans (if_pos rfl)
  -- the answer leads from the origin to what the server holds now
  obtain ⟨since, base, result, sinceEq, sameName, sameId, baseHeld, folds, resultHeld, _, entity⟩ :=
    accounts.answer_push timeless pushed
  obtain rfl : since = version := Option.some.inj (sinceEq.symm.trans versionEq)
  obtain ⟨_, rfl⟩ := held.unique accounts.nodup baseHeld
  have foundResult : next.entity? key = some result := entity
  rw [Server.entity?, grownFound] at foundResult
  obtain rfl : logged = result := Option.some.inj foundResult
  -- its version is the latest one
  have latest : next.version? key = some command.versionId := accepted.latest
  rw [Server.version?, grownFound] at latest
  have sameVersion : grown.versionId = command.versionId := Option.some.inj latest
  have nextAccounts := accounts.push timeless pushed
  obtain ⟨log, ofKey⟩ := Server.log_of_push pushed key
  have isBatch : VersionDiff.operationsOn key diffs = batch := ofKey.trans (if_pos rfl)
  have reachable := Server.reachable_of_push pushed
  obtain ⟨_, _, _, _, _, _, _, _, _, _, _, nextEq⟩ := Server.push_eq_ok pushed
  exact {
    pushed := pushed
    about := by
      obtain ⟨_, _, _, _⟩ := command
      cases sameName
      cases sameId
      rfl
    folds := folds
    current := applied
    log := log.trans (congrArg _ isBatch)
    listed := sameVersion ▸ (nextAccounts.logs key grown grownFound).versionId_mem
    entities := entities
    reachable := by
      rw [nextEq]
      exact reachable
    accounts := nextAccounts
    held := resultHeld }

/-- The server accepts the first commits of an entity that is poised, and the others apply to what
it makes of them. -/
theorem Poised.logs (poised : Poised key scene info stored) {batch rest : List Update}
    (pending : info.commits = batch ++ rest) :
    ∃ command diffs next grown, Logs key scene info stored batch command diffs next grown ∧
      ∃ document, ∀ now, Update.applyAll now grown.current rest = .ok document := by
  obtain ⟨version, listed, versionEq, held⟩ := poised.listed
  obtain ⟨document, applies⟩ := poised.applies
  have timeless := poised.timeless
  have whole := applies default
  rw [pending] at timeless whole
  obtain ⟨current, applied, restApplies⟩ := Update.exists_applyAll_of_append timeless whole
  let request : PushRequest := ⟨key.entityName, key.id, info.versionId, batch⟩
  have found : scene.server.stored? request.key = some stored := poised.found
  obtain ⟨command, diffs, next, pushed⟩ :=
    Server.exists_push poised.reachable versionEq found listed (applied _)
  exact ⟨command, diffs, next, _,
    logs_of_push poised.accounts poised.found versionEq held (List.forall_mem_append.1 timeless).1
      applied pushed,
    document, restApplies⟩

/-- A push of an entity that is poised synchronises the batch that the server logs. -/
theorem Poised.push_of_logs (poised : Poised key scene info stored)
    (nonzero : Client.batchSize limit info.commits.length ≠ 0) {rest : List Update}
    (restEq : info.commits.drop (Client.batchSize limit info.commits.length) = rest)
    {command : PushCommand} {diffs : List VersionDiff} {next : Server} {grown : StoredEntity}
    (logs : Logs key scene info stored
      (info.commits.take (Client.batchSize limit info.commits.length)) command diffs next grown)
    {head : Document}
    (headOk : LocalState.headOf scene.client.clock grown.current rest = .ok head) :
    ∃ client : Client,
      scene.push key limit =
        (.ok (.finished (.pushed (.synced (Client.batchSize limit info.commits.length)))),
          ⟨scene.history.logged diffs, next, client⟩) ∧
      client.state.find? key.entityName key.id = some (EntityInfo.settled
        ⟨grown.current, command.versionId, rest, if head.isNull then none else head⟩) ∧
      client.state.network.isOnline = true ∧ client.state.QueueReads ∧
      client.inFlight = scene.client.inFlight := by
  let count := Client.batchSize limit info.commits.length
  let job : PushJob := ⟨key, info.versionId, info.origin, info.commits.take count⟩
  have sentAll : job.commits.length = count := by
    rw [List.length_take, Nat.min_eq_left (Client.batchSize_le _ _)]
  -- the client sends the batch
  let limited : Client := { scene.client with maxPushBatch := limit }
  obtain ⟨tag, ids, store, starts, entities, online, awaited, reads⟩ :=
    @Client.run_startPush limited key info poised.free poised.known poised.online poised.reads
      nonzero poised.few
  let sent : Client :=
    { limited with store := store, ids := ids, inFlight := key :: limited.inFlight }
  have sentKnown : sent.state.find? key.entityName key.id = some info :=
    (LocalState.find?_of_entities entities _ _).trans poised.known
  -- and settles the answer
  have pending : info.commits = job.commits ++ rest := by
    rw [← restEq]
    exact (List.take_append_drop _ _).symm
  have written : ∀ commit ∈ rest, commit.stored = .ok commit := fun commit member =>
    poised.written commit (pending ▸ List.mem_append_right _ member)
  obtain ⟨ended, resumes, known, stays, endedReads⟩ :=
    @Client.run_resume_accepted sent info job tag command.versionId command.operations rest
      grown.current head awaited reads sentKnown rfl poised.addressable pending (logs.folds _)
      headOk written
  have begins : Scene.run ⟨scene.history, scene.server, limited⟩ (Client.start (.push key)) =
      (.ok (.waiting ⟨tag, .push job none⟩), ⟨scene.history, scene.server, sent⟩) := by
    rw [Scene.run, Client.start, starts]
  have asks : Scene.ask ⟨scene.history, scene.server, sent⟩ (.push job.request) = _ :=
    @ask_push ⟨scene.history, scene.server, sent⟩ _ _ _ _ logs.pushed
  let settled : Client := { sent with store := ended, inFlight := sent.inFlight.erase key }
  have ends : Scene.run ⟨scene.history.logged diffs, next, sent⟩
      (Client.resume tag (.push job none) (.ok command)) =
        (.ok (.finished (.pushed (.synced count))),
          ⟨scene.history.logged diffs, next, settled⟩) := by
    rw [logs.about, Scene.run, resumes, sentAll]
  exact ⟨settled, call_of_resume begins asks ends, known, stays.trans online, endedReads,
    List.erase_cons_head _ _⟩

/-- A push of an entity that is poised synchronises a batch, and leaves the entity poised. -/
theorem Poised.push (poised : Poised key scene info stored) (limit : Option Nat)
    (nonzero : Client.batchSize limit info.commits.length ≠ 0) :
    let count := Client.batchSize limit info.commits.length
    ∃ now grown,
      (scene.push key limit).1 = .ok (.finished (.pushed (.synced count))) ∧
      Poised key (scene.push key limit).2 now grown ∧
      Moved key count scene info stored (scene.push key limit).2 now grown := by
  intro count
  let rest := info.commits.drop count
  obtain ⟨command, diffs, next, grown, logs, document, restApplies⟩ :=
    poised.logs (List.take_append_drop count info.commits).symm
  obtain ⟨head, headOk⟩ :
      ∃ head, LocalState.headOf scene.client.clock grown.current rest = .ok head := by
    unfold LocalState.headOf
    split
    · exact ⟨_, rfl⟩
    · exact ⟨document, by rw [restApplies]; rfl⟩
  obtain ⟨client, outcome, known, online, reads, inFlight⟩ :=
    poised.push_of_logs nonzero rfl logs headOk
  let now : EntityInfo := EntityInfo.settled
    ⟨grown.current, command.versionId, rest, if head.isNull then none else some head⟩
  have remains : ∀ commit ∈ rest, commit ∈ info.commits := fun _ => List.mem_of_mem_drop
  rw [outcome]
  refine ⟨now, grown, rfl, ?_, ?_⟩
  · exact {
      accounts := logs.accounts
      reachable := logs.reachable
      found := (logs.entities key).trans (if_pos rfl)
      listed := ⟨_, logs.listed, rfl, logs.held⟩
      applies := ⟨document, restApplies⟩
      known := known
      written := fun commit member => poised.written commit (remains commit member)
      timeless := fun commit member => poised.timeless commit (remains commit member)
      few := Nat.lt_of_le_of_lt (List.drop_sublist _ _).length_le poised.few
      addressable := poised.addressable
      online := online
      reads := reads
      free := inFlight ▸ poised.free }
  · exact {
      origin := rfl
      commits := rfl
      clean := fun done => by
        have done : rest = [] := done
        rw [done] at headOk
        obtain rfl : Document.null = head := Except.ok.inj headOk
        rfl
      log := logs.log
      current := logs.current
      others := fun other distinct => (logs.entities other).trans (if_neg distinct) }

/-- A push of an entity that has nothing to send says so and changes nothing. -/
theorem Poised.push_clean (poised : Poised key scene info stored) (limit : Option Nat)
    (none : info.commits = []) :
    scene.push key limit =
      (.ok (.finished (.pushed .clean)),
        { scene with client := { scene.client with maxPushBatch := limit } }) := by
  let limited : Client := { scene.client with maxPushBatch := limit }
  have size : Client.batchSize limited.maxPushBatch info.commits.length = 0 := by
    simpa [none] using Client.batchSize_le limit info.commits.length
  have limitedKnown : limited.state.find? key.entityName key.id = some info := poised.known
  have starts : limited.run (Client.startPush key) = (.ok (.finished (.pushed .clean)), limited) :=
    Client.run_startPush_clean poised.free limitedKnown size
  rw [Scene.push, Scene.call, Scene.run, Client.start, starts]

/-- How many commits a push may send does not matter to what can be pushed. -/
theorem Poised.limited (poised : Poised key scene info stored) (limit : Option Nat) :
    Poised key { scene with client := { scene.client with maxPushBatch := limit } } info stored :=
  { poised with }

end Scene

end LocalFirst
