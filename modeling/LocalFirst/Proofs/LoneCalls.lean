import LocalFirst.Proofs.ClientAnswers
import LocalFirst.Proofs.QueuedEntities

/-!
# Calls of a client that is alone

A call sends its requests to a server and goes on with the answers until it ends.  As long as
nothing else happens on the way, each call keeps the queue below the pending commits, and after a
push that was answered nothing of its entity is queued.
-/

namespace LocalFirst

namespace Client

variable {limit : Option Nat} {ceiling : EntityKey → Option Nat}

/-- Servers answer the requests of a call one after another.  Each of them may be another server,
or the same one with other contents. -/
def answered : List Server → Except ClientError Progress × Client →
    Except ClientError Progress × Client
  | server :: later, (.ok (.waiting ⟨tag, flight⟩), client) =>
      answered later (client.run (resume tag flight (server.answer flight.request).1))
  | _, outcome => outcome

/-- A call of a client that does nothing else meanwhile. -/
def perform (client : Client) (call : Call) (servers : List Server) :
    Except ClientError Progress × Client :=
  answered servers (client.run (start call))

@[simp]
theorem answered_nil (outcome : Except ClientError Progress × Client) :
    answered [] outcome = outcome :=
  rfl

@[simp]
theorem answered_error (servers : List Server) (error : ClientError) (client : Client) :
    answered servers (.error error, client) = (.error error, client) := by
  cases servers <;> rfl

@[simp]
theorem answered_finished (servers : List Server) (result : CallResult) (client : Client) :
    answered servers (.ok (.finished result), client) = (.ok (.finished result), client) := by
  cases servers <;> rfl

/-- A call that is done when it has settled an answer needs no other one. -/
theorem answered_thenDone (servers : List Server) (client : Client) (settle : ClientM Unit) :
    (answered servers (client.run (do settle; return .finished .done))).2 =
      (client.run settle).2 := by
  rw [run_bind]
  rcases client.run settle with ⟨error | _, after⟩
  · exact congrArg Prod.snd (answered_error ..)
  · exact congrArg Prod.snd (answered_finished ..)

/-- A server answers a push with a command for the entity that was pushed. -/
theorem key_of_answer {server : Server} {job : PushJob} {command : PushCommand}
    (answers : (server.answer (.push job.request)).1 = .ok command) :
    (⟨command.entityName, command.id⟩ : EntityKey) = job.key := by
  obtain ⟨_, _, _, pushed, answer⟩ | ⟨_, answer⟩ := server.answer_push_eq job.request <;>
    rw [answer] at answers <;> cases answers
  obtain ⟨_, _, _, _, _, _, _, _, _, _, rfl, _⟩ := Server.push_eq_ok pushed
  rfl

/-- How a push goes on when its answer was settled. -/
theorem run_resume_settled_push {client after : Client} {tag : String} {job : PushJob}
    (next : Option Repush) {response : Except RemoteError PushCommand}
    {result : Except ClientError PushSettled}
    (ran : client.run (settlePush job tag response) = (result, after))
    (unmoved : result ≠ .ok .moved) :
    (∃ error, result = .error error ∧ client.run (resume tag (.push job next) response) =
      (.error error, after.releasing job.key)) ∨
    ∃ outcome, result = .ok (.ended outcome) ∧
      client.run (resume tag (.push job next) response) =
        (after.releasing job.key).run (afterPush outcome next) := by
  rw [resume, run_bind]
  rcases result with error | outcome | _
  · rw [run_releaseOnError_error ran]
    exact .inl ⟨error, rfl, rfl⟩
  · rw [run_releaseOnError_ok ran]
    exact .inr ⟨outcome, rfl, rfl⟩
  · exact absurd rfl unmoved

/-- A call that only pushes has come to an outcome. -/
structure Stands (limit : Option Nat) (ceiling : EntityKey → Option Nat)
    (outcome : Except ClientError Progress × Client) : Prop where
  tallied : Tallied limit ceiling outcome.2
  covers : ∀ progress, outcome.1 = .ok progress → progress.Covers ceiling outcome.2.state

theorem Tallies.stands {call : ClientM Progress}
    (tallies : Tallies limit ceiling (fun _ => True) call
      fun progress state => progress.Covers ceiling state)
    {client : Client} (tallied : Tallied limit ceiling client) :
    Stands limit ceiling (client.run call) :=
  ⟨(tallies client tallied trivial).1, (tallies client tallied trivial).2⟩

theorem Tallied.releasing {client : Client} (tallied : Tallied limit ceiling client)
    (key : EntityKey) : Tallied limit ceiling (client.releasing key) :=
  tallied.alike ⟨rfl, rfl, rfl⟩

theorem stands_resume {client : Client} (tallied : Tallied limit ceiling client) (tag : String)
    {flight : Flight} (covers : flight.Covers ceiling client.state) (server : Server) :
    Stands limit ceiling (client.run (resume tag flight (server.answer flight.request).1)) := by
  cases flight with
  | push job next =>
      obtain ⟨jobCovers, keepsTo⟩ := covers
      have settled : Settled limit ceiling job.key
          (client.run (settlePush job tag (server.answer (.push job.request)).1)) :=
        settled_settlePush tallied jobCovers tag fun _ => key_of_answer
      rcases ran : client.run (settlePush job tag (server.answer (.push job.request)).1) with
        ⟨result, after⟩
      rw [ran] at settled
      obtain ⟨error, _, fails⟩ | ⟨outcome, _, goesOn⟩ :=
        run_resume_settled_push next ran settled.unmoved
      · rw [fails]
        exact ⟨settled.tallied.releasing _, by simp⟩
      · rw [goesOn]
        exact (tallies_afterPush outcome keepsTo).stands (settled.tallied.releasing _)
  | _ => exact covers.elim

theorem Stands.answered {outcome : Except ClientError Progress × Client}
    (stands : Stands limit ceiling outcome) (servers : List Server) :
    Stands limit ceiling (answered servers outcome) := by
  induction servers generalizing outcome with
  | nil => exact stands
  | cons server later ih =>
      rcases outcome with ⟨error | result | ⟨tag, flight⟩, client⟩
      · exact stands
      · exact stands
      · exact ih (stands_resume stands.tallied tag (stands.covers _ rfl) server)

/-- A call may read what the client is configured with. -/
theorem tallies_get {α : Type} {next : Client → ClientM α} {start : LocalState → Prop}
    {good : α → LocalState → Prop} (rest : ∀ client, client.maxPushBatch = limit →
      Tallies limit ceiling start (next client) good) :
    Tallies limit ceiling start (get >>= next) good := by
  intro client tallied holds
  rw [run_bind, run_get]
  exact rest client tallied.config client tallied holds

theorem tallies_startPush (key : EntityKey) :
    Tallies limit (fun _ => limit) (fun _ => True) (startPush key)
      fun progress state => progress.Covers (fun _ => limit) state := by
  have begins : Tallies limit (fun _ => limit) (fun _ => True) (beginPush key limit)
      fun start state => start.Covers state := tallies_beginPush key
  refine tallies_get fun client config => ?_
  rw [config]
  refine begins.bind fun start => ?_
  cases start with
  | ended outcome => exact tallies_pure fun _ _ => trivial
  | sent tag job => exact tallies_pure fun _ covers => ⟨covers, by rintro _ ⟨⟩⟩

/-- After a push that was answered, nothing of its entity is queued. -/
theorem entriesOf_of_push {client : Client} (tallied : Tallied limit (fun _ => limit) client)
    (key : EntityKey) (servers : List Server) :
    let pushed := client.perform (.push key) servers
    (∃ count, pushed.1 = .ok (.finished (.pushed (.synced count)))) ∨
        (∃ error, pushed.1 = .error (.remote error)) →
      pushed.2.state.entriesOf key = [] := by
  intro pushed answered
  have starts := gives_startPush key client trivial
  have covers := (tallies_startPush key client tallied trivial)
  have begins : pushed = Client.answered servers (client.run (startPush key)) := rfl
  rcases ran : client.run (startPush key) with ⟨error | progress, between⟩ <;>
    rw [ran] at starts covers begins
  · obtain ⟨fault, rfl⟩ := starts.2.1 error rfl
    rw [begins] at answered
    simp at answered
  obtain ⟨outcome, rfl, unsynced⟩ | ⟨tag, job, rfl, rfl, _⟩ := starts.2.2 progress rfl
  · rw [begins] at answered
    simp [unsynced] at answered
  cases servers with
  | nil =>
      rw [begins] at answered
      simp at answered
  | cons server later =>
      have settled : Settled limit (fun _ => limit) job.key
          (between.run (settlePush job tag (server.answer (.push job.request)).1)) :=
        settled_settlePush covers.1 (covers.2 _ rfl).1 tag fun _ => key_of_answer
      rcases settles : between.run (settlePush job tag (server.answer (.push job.request)).1) with
        ⟨result, after⟩
      rw [settles] at settled
      obtain ⟨error, rfl, goesOn⟩ | ⟨outcome, rfl, goesOn⟩ :=
        run_resume_settled_push none settles settled.unmoved
      · have ends : pushed = (.error error, after.releasing job.key) := by
          rw [begins, Client.answered, goesOn, answered_error]
        rw [ends] at answered ⊢
        exact settled.cleared (by simpa using answered)
      · have ends : pushed = (.ok (.finished (.pushed outcome)), after.releasing job.key) := by
          rw [begins, Client.answered, goesOn, afterPush, run_pure, answered_finished]
        rw [ends] at answered ⊢
        exact settled.cleared (by simpa using answered)

/-- A repush counts what is queued, and lets no more be queued. -/
theorem stands_startRepush {client : Client} (tallied : Tallied limit ceiling client) :
    Stands limit (fun key => some (client.state.queued key)) (client.run startRepush) := by
  have underItself : Tallied limit (fun key => some (client.state.queued key)) client :=
    { tallied with bounded := by rintro key _ ⟨⟩; exact Nat.le_refl _ }
  have keepsTo : ∀ entry ∈ queuedEntities client.state.unreachedCommits,
      some (client.state.queued entry.1) = some entry.2.toNat := by
    rintro ⟨key, count⟩ member
    have fits : client.state.queued key < UInt64.size :=
      Nat.lt_of_le_of_lt (tallied.covered key) (tallied.fits key)
    rw [mem_queuedEntities member, LocalState.toNat_enqueuedCommitCount fits]
  have runs : client.run startRepush =
      client.run (repushEach [] (queuedEntities client.state.unreachedCommits)) := by
    simp only [startRepush, snapshot, run_bind, run_get, run_pure]
  rw [runs]
  exact (repushRule_tallies.repushEach [] _ keepsTo).stands underItself

/-- When no more was let be queued than before, the ceiling is kept. -/
theorem Tallied.under {before after : Client} (tallied : Tallied limit ceiling before)
    (under : Tallied limit (fun key => some (before.state.queued key)) after) :
    Tallied limit ceiling after :=
  { under with
    bounded := fun key bound isBound =>
      Nat.le_trans (under.bounded key _ rfl) (tallied.bounded key bound isBound) }

theorem tallied_performRepush {client : Client} (tallied : Tallied limit ceiling client)
    (servers : List Server) : Tallied limit ceiling (client.perform .repush servers).2 :=
  tallied.under ((stands_startRepush tallied).answered servers).tallied

theorem tallied_performGoOnline {client : Client} (tallied : Tallied limit ceiling client)
    (servers : List Server) : Tallied limit ceiling (client.perform .goOnline servers).2 := by
  have alike : Alike client (client.run (dispatch .online)).2 :=
    spares_dispatch (by exact trivial) (by rintro ⟨⟩) client
  rw [perform, start, run_bind]
  rcases ran : client.run (dispatch .online) with ⟨error | _, between⟩ <;> rw [ran] at alike
  · rw [answered_error]
    exact tallied.alike alike
  · exact tallied_performRepush (tallied.alike alike) servers

/-- A document that is fetched for an entity without pending commits takes none away. -/
theorem tallies_follow (entityName : String) (entity : Document) (versionId : Option String) :
    Tallies limit ceiling
      (fun state => ∀ id, entity.HoldsId id → state.pending ⟨entityName, id⟩ = [])
      (dispatch (.follow entityName entity versionId)) fun _ _ => True := by
  refine tallies_dispatch (by exact trivial) (by rintro ⟨⟩) ?_
  intro client next tallied clean reduced key
  obtain ⟨id, holdsId, lengths⟩ := LocalState.length_pending_of_follow reduced
  have covered := tallied.covered key
  have fits := tallied.fits key
  rw [lengths key]
  split
  next same =>
    subst same
    rw [clean id holdsId] at covered
    exact ⟨covered, by omega⟩
  · exact ⟨covered, fits⟩

theorem tallies_settleFollow (key : EntityKey) (tag : String)
    (response : Except RemoteError Fetched) :
    Tallies limit ceiling (fun state => state.TakesIn key.entityName response)
      (settleFollow key tag response) fun _ _ => True := by
  refine ((spares_closeRequest tag).tallies fun _ _ entities _ takesIn =>
    takesIn.of_entities entities).bind fun awaited => ?_
  split
  · cases response with
    | ok fetched =>
        intro client tallied takesIn
        exact tallies_follow _ _ _ client tallied (takesIn fetched rfl)
    | error error => exact (spares_fail tag error).keepsTally
  · exact tallies_pure fun _ _ => trivial

theorem tallies_settleRebase (tag : String) (response : Except RemoteError PushCommand) :
    Tallies limit ceiling (fun _ => True) (settleRebase tag response) fun _ _ => True := by
  refine (spares_closeRequest tag).thenTallies fun awaited => ?_
  split
  · cases response with
    | ok command =>
        exact tallies_dispatch_of_length (by exact trivial) (by rintro ⟨⟩)
          fun _ _ _ => LocalState.length_pending_of_rebase
    | error error => exact (spares_fail tag error).keepsTally
  · exact tallies_pure fun _ _ => trivial

/-- A call that makes one request keeps the count when settling its answer does. -/
theorem tallied_of_settles {client : Client} (tallied : Tallied limit ceiling client)
    {begins : ClientM Progress} (spares : Spares begins) {servers : List Server}
    (settles : ∀ tag flight between, client.run begins = (.ok (.waiting ⟨tag, flight⟩), between) →
      ∀ server later, servers = server :: later → ∃ settle : ClientM Unit,
        resume tag flight (server.answer flight.request).1 =
          (do settle; return .finished .done) ∧
        Tallied limit ceiling (between.run settle).2) :
    Tallied limit ceiling (answered servers (client.run begins)).2 := by
  have begun := tallied.alike (spares client)
  rcases ran : client.run begins with ⟨error | result | ⟨tag, flight⟩, between⟩ <;> rw [ran] at begun
  · rwa [answered_error]
  · rwa [answered_finished]
  cases servers with
  | nil => exact begun
  | cons server later =>
      obtain ⟨settle, resumes, settled⟩ := settles tag flight between ran server later rfl
      rwa [answered, resumes, answered_thenDone]

theorem tallied_performFollow {client : Client} (tallied : Tallied limit ceiling client)
    {key : EntityKey} {servers : List Server}
    (takesIn : ∀ server ∈ servers.head?, client.state.TakesIn key.entityName (server.get key)) :
    Tallied limit ceiling (client.perform (.follow key) servers).2 := by
  refine tallied_of_settles tallied (spares_waitFor (.follow key)) ?_
  rintro tag flight between ran server later rfl
  have alike := spares_waitFor (.follow key) client
  have waits : Gives (fun _ => True) (waitFor (.follow key)) fun progress state =>
      progress.Fits state ∧ ∃ tag, progress = .waiting ⟨tag, .follow key⟩ :=
    gives_waitFor fun _ _ _ _ => trivial
  have began := (waits client trivial).2.2
  rw [ran] at alike began
  obtain ⟨_, _, ⟨⟩⟩ := began _ rfl
  refine ⟨settleFollow key tag (server.get key), rfl, ?_⟩
  exact (tallies_settleFollow key tag _ between (tallied.alike alike)
    ((takesIn server rfl).of_entities alike.entities)).1

theorem tallied_performPull {client : Client} (tallied : Tallied limit ceiling client)
    {key : EntityKey} {servers : List Server}
    (takesIn : ∀ info, client.state.find? key.entityName key.id = some info →
      info.versionId = none → ∀ server ∈ servers.head?,
        client.state.TakesIn key.entityName (server.get key)) :
    Tallied limit ceiling (client.perform (.pull key) servers).2 := by
  have spares : Spares (start (.pull key)) :=
    (spares_pullKind key).bind fun _ => spares_waitFor _
  refine tallied_of_settles tallied spares ?_
  rintro tag flight between ran server later rfl
  have alike := spares client
  have began := (gives_startPull key client trivial).2.2
  rw [ran] at alike began
  obtain ⟨⟨_, fits⟩, _, kind, ⟨⟩⟩ := began _ rfl
  obtain ⟨info, known, version⟩ := fits
  have between := tallied.alike alike
  refine ⟨settlePull key tag kind (server.answer (kind.request key)).1, rfl, ?_⟩
  cases kind with
  | fetch =>
      have wasKnown := (LocalState.find?_of_entities alike.entities _ _).symm.trans known
      exact (tallies_settleFollow key tag _ _ between
        ((takesIn info wasKnown version server rfl).of_entities alike.entities)).1
  | since versionId => exact (tallies_settleRebase tag _ _ between trivial).1

end Client

end LocalFirst
