import LocalFirst.Proofs.ClientSteps
import LocalFirst.Proofs.MirroredEntities
import LocalFirst.Proofs.ServerHistory
import LocalFirst.Proofs.SettledCalls

/-!
# Origins are snapshots of the server

What an action takes over comes from the server: a fetched document, a broadcast diff, or operations
that lead from the stored origin to a document of the server.
-/

namespace LocalFirst

/-- What the server answers is from its history. -/
def Request.Truthful (history : History) : (request : Request) → request.Response → Prop
  | .get key, response => ∀ fetched : Fetched, response = .ok fetched →
      history.Held key fetched.versionId fetched.entity
  | .push request, response => ∀ command : PushCommand, response = .ok command →
      (⟨command.entityName, command.id⟩ : EntityKey) = request.key ∧
        ∃ version document, request.versionId = some version ∧
          history.Leads request.key version document (command.operations ++ request.operations)
            command.versionId
  | .pull key version, response => ∀ command : PushCommand, response = .ok command →
      (⟨command.entityName, command.id⟩ : EntityKey) = key ∧
        ∃ document, history.Leads key version document command.operations command.versionId
  | .login _, response => ∀ answer : LoginResponse, response = .ok answer →
      ∃ id, history.Held ⟨answer.session.entityName, id⟩ answer.versionId answer.user
  | .logout _, _ => True
  | .delete _, _ => True

theorem Request.Truthful.mono {history longer : History} (grows : history.Extends longer)
    {request : Request} {response : request.Response} (truthful : request.Truthful history response) :
    request.Truthful longer response := by
  cases request with
  | get key => exact fun fetched ok => (truthful fetched ok).mono grows
  | push request =>
      intro command ok
      obtain ⟨sameKey, version, document, versionEq, leads⟩ := truthful command ok
      exact ⟨sameKey, version, document, versionEq, leads.mono grows⟩
  | pull key version =>
      intro command ok
      obtain ⟨sameKey, document, leads⟩ := truthful command ok
      exact ⟨sameKey, document, leads.mono grows⟩
  | login =>
      intro answer ok
      obtain ⟨id, held⟩ := truthful answer ok
      exact ⟨id, held.mono grows⟩
  | logout | delete => trivial

/-- The answers of a server are truthful. -/
theorem History.Accounts.truthful {history : History} {server next : Server} {request : Request}
    {response : request.Response} {diffs : List VersionDiff} (accounts : history.Accounts server)
    (timeless : request.Timeless) (answered : server.answer request = (response, diffs, next)) :
    request.Truthful (history.logged diffs) response := by
  cases request with
  | get key =>
      cases answered
      intro fetched ok
      rw [History.logged_nil]
      exact (accounts.answer_get ok).1
  | push request =>
      intro command ok
      obtain ⟨_, commandEq, pushed⟩ | ⟨_, failed, _⟩ := Server.settle_eq answered
      · obtain rfl := Except.ok.inj (commandEq.symm.trans ok)
        obtain ⟨version, document, result, versionEq, nameEq, idEq, held, applied, resultHeld, _⟩ :=
          accounts.answer_push timeless pushed
        exact ⟨by rw [nameEq, idEq]; rfl, version, document, versionEq, result,
          held.mono (history.extends_logged diffs), applied, resultHeld⟩
      · exact absurd (failed.symm.trans ok) (by simp)
  | pull key version =>
      cases answered
      intro command ok
      rw [History.logged_nil]
      obtain ⟨document, result, nameEq, idEq, held, applied, resultHeld, _⟩ :=
        accounts.answer_pull ok
      exact ⟨by rw [nameEq, idEq], document, result, held, applied, resultHeld⟩
  | login command =>
      intro answer ok
      obtain ⟨_, answerEq, loggedIn⟩ | ⟨_, failed, _⟩ := Server.settle_eq answered
      · obtain rfl := Except.ok.inj (answerEq.symm.trans ok)
        rw [Except.map_eq_ok] at loggedIn
        obtain ⟨⟨_, later⟩, loggedIn, same⟩ := loggedIn
        cases same
        obtain ⟨fetched, got, userEq, versionEq, nameEq, _⟩ := Server.login_eq_ok loggedIn
        rw [History.logged_nil]
        exact ⟨command.userId, by
          rw [userEq, versionEq, nameEq]
          exact (accounts.answer_get got).1⟩
      · exact absurd (failed.symm.trans ok) (by simp)
  | logout | delete => trivial

/-- A push was sent from a snapshot of the server. -/
structure PushJob.Backed (history : History) (job : PushJob) : Prop where
  origin : ∃ version server, job.versionId = some version ∧ history.Held server version job.origin
  timeless : ∀ commit ∈ job.commits, commit.Timeless

theorem PushJob.Backed.mono {history longer : History} (grows : history.Extends longer)
    {job : PushJob} (backed : job.Backed history) : job.Backed longer := by
  obtain ⟨⟨version, server, versionEq, held⟩, timeless⟩ := backed
  exact ⟨⟨version, server, versionEq, held.mono grows⟩, timeless⟩

/-- A push may wait while its entity changes; a pull fits the entity when its answer comes. -/
def Flight.Backed (history : History) (state : LocalState) : Flight → Prop
  | .push job _ => job.Backed history
  | flight => flight.Fits state

theorem Flight.Fits.backed {history : History} {state : LocalState} {flight : Flight}
    (snapshots : state.Snapshots history) (fits : flight.Fits state) :
    flight.Backed history state := by
  cases flight with
  | push job next =>
      obtain ⟨info, count, found, versionEq, originEq, commitsEq⟩ := fits
      obtain ⟨server, _, ⟨version, infoVersion, held⟩, timeless⟩ := snapshots _ _ info found
      refine ⟨⟨version, server, versionEq.trans infoVersion, originEq ▸ held⟩, ?_⟩
      exact fun commit member => timeless commit (List.mem_of_mem_take (commitsEq ▸ member))
  | _ => exact fits

theorem Flight.Backed.timeless {history : History} {state : LocalState} {flight : Flight}
    (backed : flight.Backed history state) : flight.request.Timeless := by
  cases flight with
  | push job next => exact PushJob.Backed.timeless backed
  | pull key kind => cases kind <;> trivial
  | catchUp job kind next => cases kind <;> trivial
  | _ => trivial

/-- The operations of a pull lead from the stored origin to the version of the answer. -/
theorem leads_of_pull {history : History} {server : Server} {key mirrored : EntityKey}
    {version : String} {command : PushCommand} {info : EntityInfo}
    (accounts : history.Accounts server) (mirrors : info.Mirrors history mirrored)
    (versionEq : info.versionId = some version)
    (truthful : (Request.pull key version).Truthful history (.ok command)) :
    (⟨command.entityName, command.id⟩ : EntityKey) = key ∧
      history.Leads key version info.origin command.operations command.versionId := by
  obtain ⟨sameKey, document, leads⟩ := truthful command rfl
  obtain ⟨⟨stored, storedEq, held⟩, _⟩ := mirrors
  obtain rfl := Option.some.inj (storedEq.symm.trans versionEq)
  obtain ⟨_, rfl⟩ := held.unique accounts.nodup leads.choose_spec.1
  exact ⟨sameKey, leads⟩

/-- The operations of others and then the pushed ones lead from the origin on which a push is
settled to the version of the answer: whether or not the entity has moved, the origin is the
document at the version of the push. -/
theorem leads_of_push {history : History} {server : Server} {state : LocalState} {job : PushJob}
    {command : PushCommand} {origin : Document} (accounts : history.Accounts server)
    (backed : job.Backed history)
    (mirrors : ∀ info, state.find? job.key.entityName job.key.id = some info →
      ∃ mirrored, info.Mirrors history mirrored)
    (truthful : (Request.push job.request).Truthful history (.ok command))
    (basis : origin = job.origin ∨ ∃ info known,
      state.find? job.key.entityName job.key.id = some info ∧ info.versionId = job.versionId ∧
        state.find? command.entityName command.id = some known ∧ origin = known.origin) :
    (⟨command.entityName, command.id⟩ : EntityKey) = job.key ∧ ∃ version,
      history.Leads job.key version origin (command.operations ++ job.commits)
        command.versionId := by
  obtain ⟨sameKey, version, document, versionEq, leads⟩ := truthful command rfl
  have document_eq : ∀ {key : EntityKey} {other : Document},
      history.Held key version other → other = document := fun held =>
    (held.unique accounts.nodup leads.choose_spec.1).2
  refine ⟨sameKey, version, ?_⟩
  obtain rfl | ⟨info, known, found, unmoved, knownFound, rfl⟩ := basis
  · obtain ⟨stored, mirrored, storedEq, held⟩ := backed.origin
    obtain rfl := Option.some.inj (storedEq.symm.trans versionEq)
    rw [document_eq held]
    exact leads
  · have sameEntity := EntityKey.mk.inj sameKey
    rw [sameEntity.1, sameEntity.2] at knownFound
    obtain rfl := Option.some.inj (found.symm.trans knownFound)
    obtain ⟨mirrored, ⟨stored, storedEq, held⟩, _⟩ := mirrors info found
    obtain rfl := Option.some.inj (storedEq.symm.trans (unmoved.trans versionEq))
    rw [document_eq held]
    exact leads

theorem faithful_of_pull {history : History} {server : Server} {state : LocalState}
    {key : EntityKey} {kind : PullKind} {response : (kind.request key).Response}
    {action : Action} (accounts : history.Accounts server) (snapshots : state.Snapshots history)
    (fits : kind.Fits state key) (truthful : (kind.request key).Truthful history response)
    (performs : kind.Performs key response action) : action.Faithful history state := by
  cases kind with
  | fetch =>
      obtain ⟨fetched, ok, rfl⟩ := performs
      exact ⟨fetched.versionId, key.id, rfl, truthful fetched ok⟩
  | since version =>
      obtain ⟨command, rfl, rfl⟩ := performs
      obtain ⟨info, found, versionEq⟩ := fits
      obtain ⟨mirrored, _, mirrors⟩ := snapshots _ _ info found
      obtain ⟨rfl, leads⟩ := leads_of_pull accounts mirrors versionEq truthful
      intro other otherFound
      obtain rfl := Option.some.inj (found.symm.trans otherFound)
      exact ⟨version, versionEq, leads⟩

/-- What a call performs with a truthful answer comes from the server. -/
theorem Flight.Performs.faithful {history : History} {server : Server} {state : LocalState}
    {flight : Flight} {response : flight.request.Response} {action : Action}
    (accounts : history.Accounts server) (snapshots : state.Snapshots history)
    (backed : flight.Backed history state)
    (truthful : flight.request.Truthful history response)
    (performs : flight.Performs state response action) : action.Faithful history state := by
  cases flight with
  | follow key =>
      obtain ⟨fetched, ok, rfl⟩ := performs
      exact ⟨fetched.versionId, key.id, rfl, truthful fetched ok⟩
  | pull key kind => exact faithful_of_pull accounts snapshots backed truthful performs
  | catchUp job kind next => exact faithful_of_pull accounts snapshots backed truthful performs
  | login command =>
      obtain ⟨answer, ok, rfl⟩ := performs
      rintro _ _ ⟨⟩ ⟨⟩
      exact truthful answer ok
  | logout session =>
      obtain ⟨_, _, rfl⟩ := performs
      trivial
  | delete key =>
      obtain rfl := performs
      trivial
  | push job next =>
      obtain ⟨command, origin, rfl, rfl, basis⟩ := performs
      obtain ⟨sameKey, version, leads⟩ := leads_of_push accounts backed
        (fun info found => (snapshots _ _ info found).imp fun _ => And.right) truthful basis
      exact ⟨version, sameKey ▸ leads⟩

end LocalFirst
