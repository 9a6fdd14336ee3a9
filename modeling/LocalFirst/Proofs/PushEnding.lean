import LocalFirst.Proofs.PushFlight

/-!
# How a push ends

A push ends when its answer is settled, or behind the pull that the answer asks for.
While this pull waits, commits to the entity and diffs of it may be dispatched again.
Whatever way it goes, the commits that the push says to have synchronised are those that
the server has logged with it.
-/

namespace LocalFirst

/-- A push that has performed its answer ends in an error of the state, says that it has
synchronised its commits, or lets a pull follow. -/
theorem Client.SettledGoesOn.performed {job : PushJob}
    {resumed : Except ClientError Progress × Client} {settled : Except ClientError PushSettled}
    (goesOn : SettledGoesOn job none resumed settled)
    (performs : (settled = .ok (.ended (.synced job.commits.length)) ∨ settled = .ok .moved) ∨
      ∃ fault, settled = .error (.state fault)) :
    (∃ fault, resumed.1 = .error (.state fault)) ∨
      ∃ progress, resumed.1 = .ok progress ∧ progress.Fits resumed.2.state ∧
        (progress = .finished (.pushed (.synced job.commits.length)) ∨
          ∃ tag kind, progress = .waiting ⟨tag, .catchUp job kind none⟩) := by
  rcases resumes : resumed.1 with error | progress
  · obtain (rfl | rfl) | ⟨fault, rfl⟩ := performs
    · exact .inl (by simpa using goesOn.1 error resumes)
    · exact .inl (by simpa using goesOn.1 error resumes)
    · exact .inl ⟨fault, resumes.symm.trans goesOn⟩
  · obtain (rfl | rfl) | ⟨fault, rfl⟩ := performs
    · obtain ⟨fits, _, finished⟩ := goesOn.2 progress resumes
      exact .inr ⟨progress, rfl, fits, .inl (finished rfl)⟩
    · obtain ⟨fits, _, goes⟩ := goesOn.2 progress resumes
      exact .inr ⟨progress, rfl, fits, goes rfl⟩
    · cases resumes.symm.trans goesOn

namespace PushFlight

variable {key : EntityKey} {sending : Scene}

/-- The pull behind a push on its way: the answer to the push asks for it, its request reaches the
server, and its answer reaches the client. -/
structure CatchUp (flight : PushFlight key sending) where
  next : Suspended
  waits : flight.resumed.1 = .ok (.waiting next)
  asking : Scene
  outward : Scene.Steps key flight.resumed.2 asking
  answering : Scene
  inward : Scene.Steps key (asking.ask next.flight.request).2 answering

/-- The client when it has settled the answer to the pull. -/
def CatchUp.resumed {flight : PushFlight key sending} (pull : flight.CatchUp) :
    Except ClientError Progress × Scene :=
  pull.answering.run
    (Client.resume pull.next.tag pull.next.flight (pull.asking.ask pull.next.flight.request).1)

/-- How a push ends: with its answer, or behind the pull that the answer asks for. -/
inductive Ending (flight : PushFlight key sending) where
  | settled (ended : ∀ next, flight.resumed.1 ≠ .ok (.waiting next))
  | caughtUp (pull : flight.CatchUp)

variable {flight : PushFlight key sending}

namespace Ending

/-- The client when the push has ended. -/
def resumed : flight.Ending → Except ClientError Progress × Scene
  | .settled _ => flight.resumed
  | .caughtUp pull => pull.resumed

/-- The last scene in which the push waits for an answer, once the first one is settled. -/
def waited : flight.Ending → Scene
  | .settled _ => flight.resumed.2
  | .caughtUp pull => pull.answering

end Ending

/-- Some commits have been synchronised: they are the first pending ones of the time of sending
and exactly what the push has added to the log.  Of what was pending when the answer came, as many
commits are gone from the front, and what has been committed behind the answer has joined the
rest.  The stored version is the one that the push has returned, or the server has issued it later,
and the origin is the document at it if nothing has moved the entity behind the answer. -/
structure Synchronised (info : EntityInfo) (count : Nat) (ending : flight.Ending) : Prop where
  count_le : count ≤ info.commits.length
  broadcast : flight.diffs.map VersionDiff.operation = info.commits.take count
  logged : ∃ before current versions, flight.arriving.server.stored? key = some before ∧
    flight.answered.server.stored? key = some ⟨current, before.versions ++ versions⟩ ∧
    versions.length = count ∧ versions.filterMap Version.operation = info.commits.take count
  others : ∀ other, other ≠ key →
    flight.answered.server.stored? other = flight.arriving.server.stored? other
  settled : ∃ command before commits, flight.response = .ok command ∧
    flight.responding.client.state.find? key.entityName key.id = some before ∧
    (before.commits.drop count).mapM Update.stored = .ok commits ∧
    (sending.client.state.CommitsStored key.entityName key.id →
      commits = before.commits.drop count) ∧
    Scene.CatchesUp key flight.resumed.2 ending.waited ending.resumed.2 commits command.versionId

/-- The push has not changed the server, and no pending commit is gone. -/
structure Unchanged (ending : flight.Ending) : Prop where
  server : flight.answered.server = flight.arriving.server
  diffs : flight.diffs = []
  entities : ending.resumed.2.client.state.entities = flight.responding.client.state.entities

/-- A push that waits for nothing more when its answer is settled has ended. -/
theorem Ending.of_ended (ending : flight.Ending)
    (ended : ∀ next, flight.resumed.1 ≠ .ok (.waiting next)) :
    ending.resumed = flight.resumed ∧ ending.waited = flight.resumed.2 := by
  cases ending with
  | settled => exact ⟨rfl, rfl⟩
  | caughtUp pull => exact absurd pull.waits (ended _)

theorem Ending.of_failed (ending : flight.Ending) {error : ClientError}
    (failed : flight.resumed.1 = .error error) :
    ending.resumed = flight.resumed ∧ ending.waited = flight.resumed.2 :=
  ending.of_ended fun next => by rw [failed]; simp

theorem Ending.of_finished (ending : flight.Ending) {result : CallResult}
    (finished : flight.resumed.1 = .ok (.finished result)) :
    ending.resumed = flight.resumed ∧ ending.waited = flight.resumed.2 :=
  ending.of_ended fun next => by rw [finished]; simp

/-- What a client knows when it has settled the answer, it knows in the end, behind the pull. -/
theorem Ending.catchesUp (ending : flight.Ending) (ready : sending.Ready key)
    {commits : List Update} {since : String}
    (knows : flight.resumed.2.Knows key commits since)
    (stored : ∀ commit ∈ commits, commit.stored = .ok commit)
    (goesOn : (∃ fault, flight.resumed.1 = .error (.state fault)) ∨
      ∃ progress, flight.resumed.1 = .ok progress ∧ progress.Fits flight.resumed.2.client.state ∧
        (progress = .finished (.pushed (.synced flight.job.commits.length)) ∨
          ∃ tag kind, progress = .waiting ⟨tag, .catchUp flight.job kind none⟩)) :
    Scene.CatchesUp key flight.resumed.2 ending.waited ending.resumed.2 commits since ∧
      (ending.resumed.1 = .ok (.finished (.pushed (.synced flight.job.commits.length))) ∨
        ∃ fault, ending.resumed.1 = .error (.state fault)) := by
  have accounts := flight.accounts_resumed ready
  have stays : Scene.CatchesUp key flight.resumed.2 flight.resumed.2 flight.resumed.2 commits since :=
    knows.waited stored accounts .refl rfl rfl
  obtain ⟨fault, failed⟩ | ⟨_, resumes, fits, rfl | ⟨tag, kind, rfl⟩⟩ := goesOn
  · obtain ⟨resumed, waited⟩ := ending.of_failed failed
    rw [resumed, waited]
    exact ⟨stays, .inr ⟨fault, failed⟩⟩
  · obtain ⟨resumed, waited⟩ := ending.of_finished resumes
    rw [resumed, waited]
    exact ⟨stays, .inl resumes⟩
  · cases ending with
    | settled ended => exact absurd resumes (ended _)
    | caughtUp pull =>
        obtain ⟨next, waits, asking, outward, answering, inward⟩ := pull
        obtain rfl : next = ⟨tag, .catchUp flight.job kind none⟩ :=
          Progress.waiting.inj (Except.ok.inj (waits.symm.trans resumes))
        exact knows.caughtUp flight.job_fits.1 stored accounts fits.2 outward inward tag

/-- The ways in which a push can end: ignored or with an error of the state, with commits that
were synchronised, or with an answer that was an error. -/
theorem Ending.result_cases (ending : flight.Ending) (ready : sending.Ready key) :
    (ending.resumed.1 = .ok (.finished (.pushed .ignored)) ∨
      ∃ fault, ending.resumed.1 = .error (.state fault)) ∨
    (∃ command before commits, flight.response = .ok command ∧
      flight.responding.client.state.find? key.entityName key.id = some before ∧
      (before.commits.drop flight.job.commits.length).mapM Update.stored = .ok commits ∧
      Scene.CatchesUp key flight.resumed.2 ending.waited ending.resumed.2 commits
        command.versionId ∧
      ending.resumed.1 = .ok (.finished (.pushed (.synced flight.job.commits.length)))) ∨
    ((∃ error, flight.response = .error error) ∧
      ending.resumed.2.client.state.entities = flight.responding.client.state.entities ∧
      (ending.resumed.1 = .ok (.finished (.pushed (.queued flight.job.commits.length))) ∨
        ∃ error, ending.resumed.1 = .error (.remote error))) := by
  obtain ⟨settled, between, settles, same, goesOn⟩ := Client.run_resume_push
    flight.responding.client flight.tag flight.job none flight.response
  change flight.resumed.2.client.state.entities = between.entities at same
  -- an outcome of the push itself is what the call ends with
  have ended : ∀ outcome, settled = .ok (.ended outcome) →
      (ending.resumed = flight.resumed) ∧
        (ending.resumed.1 = .ok (.finished (.pushed outcome)) ∨
          ∃ fault, ending.resumed.1 = .error (.state fault)) := by
    rintro outcome rfl
    obtain ⟨errors, gives⟩ := goesOn
    rcases resumes : flight.resumed.1 with error | progress
    · obtain ⟨fault, rfl⟩ := errors error resumes
      obtain ⟨resumed, _⟩ := ending.of_failed resumes
      exact ⟨resumed, .inr ⟨fault, by rw [resumed, resumes]⟩⟩
    · obtain rfl := (gives progress resumes).2.2 rfl
      obtain ⟨resumed, _⟩ := ending.of_finished resumes
      exact ⟨resumed, .inl (by rw [resumed, resumes])⟩
  have failed : ∀ error, settled = .error error →
      ending.resumed = flight.resumed ∧ ending.resumed.1 = .error error := by
    rintro error rfl
    obtain ⟨resumed, _⟩ := ending.of_failed goesOn
    exact ⟨resumed, resumed ▸ goesOn⟩
  generalize responseEq : flight.response = response at settles
  cases settles with
  | ignored _ _ => exact .inl (ended _ rfl).2
  | @failed _ _ fault _ => exact .inl (.inr ⟨fault, (failed _ rfl).2⟩)
  | unreachable unchanged =>
      obtain ⟨resumed, finished | faulty⟩ := ended _ rfl
      · exact .inr (.inr ⟨⟨_, rfl⟩, resumed ▸ same.trans unchanged, .inl finished⟩)
      · exact .inl (.inr faulty)
  | @refused error _ unchanged =>
      obtain ⟨resumed, refused⟩ := failed _ rfl
      exact .inr (.inr ⟨⟨_, rfl⟩, resumed ▸ same.trans unchanged, .inr ⟨error, refused⟩⟩)
  | @performed command _ origin _ basis undergoes performs =>
      obtain ⟨before, commits, known, read, knows⟩ := flight.knows_of_performed ready responseEq
        basis (undergoes.of_entities same) rfl
      obtain ⟨catchesUp, finished | faulty⟩ := ending.catchesUp ready knows
        (Update.stored_of_mapM_stored read) (goesOn.performed performs)
      · exact .inr (.inl ⟨command, before, commits, rfl, known, read, catchesUp, finished⟩)
      · exact .inl (.inr faulty)

/-- What follows a push is the pull of its entity. -/
theorem CatchUp.next_eq (pull : flight.CatchUp) :
    ∃ tag kind, pull.next = ⟨tag, .catchUp flight.job kind none⟩ := by
  obtain ⟨settled, _, _, _, goesOn⟩ := Client.run_resume_push
    flight.responding.client flight.tag flight.job none flight.response
  cases settled with
  | error error => cases pull.waits.symm.trans goesOn
  | ok settled =>
      have goes := (goesOn.2 _ pull.waits).2.2 rfl
      cases settled with
      | ended => cases goes
      | moved =>
          obtain finished | ⟨tag, kind, waiting⟩ := goes
          · cases finished
          · exact ⟨tag, kind, Progress.waiting.inj waiting⟩

/-- What the server has issued stays complete to the end. -/
theorem Ending.accounts_resumed (ending : flight.Ending) (ready : sending.Ready key) :
    ending.resumed.2.history.Accounts ending.resumed.2.server := by
  have accounts := flight.accounts_resumed ready
  cases ending with
  | settled => exact accounts
  | caughtUp pull =>
      have timeless : pull.next.flight.request.Timeless := by
        obtain ⟨tag, kind, nextEq⟩ := pull.next_eq
        rw [nextEq]
        cases kind <;> trivial
      have whole : Scene.Steps key flight.resumed.2 pull.answering :=
        (pull.outward.tail (.ask timeless)).trans pull.inward
      have answering := Scene.accounts_of_steps whole accounts
      exact answering

/-- The commits that a push says to have synchronised are the ones that it has added to the log,
and they are not pending any more. -/
theorem Ending.synchronised (ending : flight.Ending) {info : EntityInfo} {command : PushCommand}
    {before : EntityInfo} {commits : List Update}
    (known : sending.client.state.find? key.entityName key.id = some info)
    (ok : flight.response = .ok command)
    (responding : flight.responding.client.state.find? key.entityName key.id = some before)
    (read : (before.commits.drop flight.job.commits.length).mapM Update.stored = .ok commits)
    (catchesUp : Scene.CatchesUp key flight.resumed.2 ending.waited ending.resumed.2 commits
      command.versionId) : Synchronised info flight.job.commits.length ending := by
  obtain ⟨count_le, commitsEq⟩ := flight.commits_eq known
  have requestKey : flight.job.request.key = key := flight.job_fits.1
  obtain ⟨stored, current, versions, found, logged, length, operations, broadcast, _⟩ :=
    Server.logged_of_push (flight.answered_of_ok ok)
  rw [requestKey] at found logged
  refine ⟨count_le, broadcast.trans commitsEq,
    ⟨stored, current, versions, found, ?_, length, operations.trans commitsEq⟩, ?_,
    command, before, commits, ok, responding, read,
    fun stored => flight.pending_eq stored responding read, catchesUp⟩
  · rw [logged, if_pos rfl]
  · intro other differ
    rw [logged, if_neg differ]

end PushFlight

end LocalFirst
