import LocalFirst.Proofs.ClientAnswers
import LocalFirst.Proofs.PendingCommits
import LocalFirst.Proofs.ServerHistory

/-!
# What an answer takes from the pending commits

What the answer to a request takes from the pending commits is what the server has logged with it,
unless the answer to a push ends in an error of the state.
-/

namespace LocalFirst

namespace Client

/-- The answer to a push takes from the pending commits what the server has logged. -/
theorem pending_resume_push {server : Server} {client : Client} {tag : String} {job : PushJob}
    (next : Option Repush) (stored : client.state.PendingStored)
    (awaited : client.state.isPending tag = true) (fits : job.Fits client.state) :
    let answered := server.answer (.push job.request)
    let resumed := client.run (resume tag (.push job next) answered.1)
    (∀ key, client.state.pending key =
        VersionDiff.operationsOn key answered.2.1 ++ resumed.2.state.pending key) ∨
      ∃ fault, resumed.1 = .error (.state fault) := by
  intro answered resumed
  obtain ⟨settled, between, settles, same, goesOn⟩ :=
    run_resume_push client tag job next answered.1
  change resumed.2.state.entities = between.entities at same
  obtain ⟨command, diffs, after, pushed, answers⟩ | ⟨error, answers⟩ :=
    server.answer_push_eq job.request
  · have answeredEq : answered = (.ok command, diffs, after) := answers
    rw [answeredEq] at settles ⊢
    cases settles with
    | ignored notAwaited _ => exact absurd (awaited.symm.trans notAwaited) (by simp)
    | @failed _ _ fault _ => exact .inr ⟨fault, goesOn⟩
    | @performed _ _ origin _ _ undergoes _ =>
        obtain ⟨_, _, _, _, _, _, _, _, _, _, commandEq, _⟩ := Server.push_eq_ok pushed
        have sameKey : (⟨command.entityName, command.id⟩ : EntityKey) = job.key := by
          rw [commandEq]
          rfl
        obtain ⟨info, found, _, commitsEq⟩ := fits.commits_eq
        refine .inl fun key => ?_
        rw [(Server.log_of_push pushed key).2, LocalState.pending_of_entities same,
          undergoes.pending_of_synchronizeFrom stored, sameKey, show job.request.key = job.key from rfl]
        split
        next here =>
          have known : client.state.pending key = info.commits := here ▸ LocalState.pending_of_find? found
          rw [known, show job.request.operations = job.commits from rfl]
          conv_rhs => lhs; rw [commitsEq]
          exact (List.take_append_drop _ _).symm
        next => rfl
  · have answeredEq : answered = (.error error, [], server) := answers
    rw [answeredEq] at settles ⊢
    cases settles with
    | ignored notAwaited _ => exact absurd (awaited.symm.trans notAwaited) (by simp)
    | @failed _ _ fault _ => exact .inr ⟨fault, goesOn⟩
    | unreachable unchanged | refused unchanged =>
        exact .inl fun key => (LocalState.pending_of_entities (same.trans unchanged) key).symm

/-- What a client follows under the id that an entity of the server holds. -/
def overwritten (client : Client) (server : Server) (key : EntityKey) : Option EntityInfo := do
  let entity ← server.entity? key
  let id ← (entity.get? "id").bind Document.string?
  client.state.find? key.entityName id

end Client

/-- The answer does not take the place of an entity that is followed. -/
def Flight.Spares (client : Client) (server : Server) : Flight → Prop
  | .follow key => client.overwritten server key = none
  | .pull .. | .push .. | .catchUp .. => True
  | _ => False

theorem Flight.Spares.isSync {client : Client} {server : Server} {flight : Flight}
    (spares : flight.Spares client server) : flight.request.IsSync := by
  cases flight with
  | pull _ kind | catchUp _ kind _ => cases kind <;> trivial
  | follow | push => trivial
  | _ => exact spares.elim

theorem Flight.IsPushing.spares {flight : Flight} (pushes : flight.IsPushing) (client : Client)
    (server : Server) : flight.Spares client server := by
  cases flight <;> trivial

namespace Client

/-- An answer takes from the pending commits what the server has logged with it, unless it is
the answer to a push and ends in an error of the state. -/
theorem pending_resume {history : History} {server : Server} {client : Client} {tag : String}
    {flight : Flight} (snapshots : client.state.Snapshots history)
    (stored : client.state.PendingStored) (awaited : client.state.isPending tag = true)
    (fits : flight.Fits client.state) (spares : flight.Spares client server) :
    let answered := server.answer flight.request
    let resumed := client.run (resume tag flight answered.1)
    (∀ key, client.state.pending key =
        VersionDiff.operationsOn key answered.2.1 ++ resumed.2.state.pending key) ∨
      (flight.IsPushing ∧ ∃ fault, resumed.1 = .error (.state fault)) := by
  intro answered resumed
  have performs := (run_resume client tag flight answered.1).1
  -- without diffs, it is enough that the action takes nothing away
  have reads : answered.2.1 = [] → (∀ action,
      flight.Performs client.state answered.1 action →
      client.state.Undergoes action resumed.2.state → ∀ key,
        resumed.2.state.pending key = client.state.pending key) → ∀ key,
      client.state.pending key =
        VersionDiff.operationsOn key answered.2.1 ++ resumed.2.state.pending key := by
    intro noDiffs keeps key
    rw [noDiffs]
    obtain same | ⟨action, performed, undergoes⟩ := performs
    · exact (LocalState.pending_of_entities same key).symm
    · exact (keeps action performed undergoes key).symm
  cases flight with
  | push job next =>
      exact (pending_resume_push next stored awaited fits).imp_right fun failed => ⟨trivial, failed⟩
  | pull key kind =>
      refine .inl (reads (by cases kind <;> rfl) fun action performed undergoes => ?_)
      exact PullKind.Performs.pending performed undergoes snapshots stored fits
  | catchUp job kind next =>
      refine .inl (reads (by cases kind <;> rfl) fun action performed undergoes => ?_)
      exact PullKind.Performs.pending performed undergoes snapshots stored fits
  | follow key =>
      refine .inl (reads rfl fun action performed undergoes => ?_)
      obtain ⟨fetched, got, rfl⟩ := performed
      obtain ⟨held, found, rfl⟩ := Server.get_eq_ok (show server.get key = .ok fetched from got)
      refine undergoes.pending_of_follow fun id idOk => ?_
      have spared : client.overwritten server key = none := spares
      simpa [overwritten, Server.entity?, found, idOk] using spared
  | _ => exact spares.elim

/-- A clean entity that has been pulled is that of the server. -/
theorem current_of_pull {history : History} {server : Server} {client : Client} {tag : String}
    {key : EntityKey} {kind : PullKind} (accounts : history.Accounts server)
    (snapshots : client.state.Snapshots history) (awaited : client.state.isPending tag = true)
    (fits : kind.Fits client.state key) :
    let resumed := client.run
      (resume tag (.pull key kind) (server.answer (kind.request key)).1)
    resumed.1 = .ok (.finished .done) → ∀ info,
      resumed.2.state.find? key.entityName key.id = some info → info.commits = [] →
        server.entity? key = some info.current := by
  intro resumed done info followed clean
  obtain ⟨sameClient, ends⟩ :=
    run_thenDone client (settlePull key tag kind (server.answer (kind.request key)).1)
  have settled := (ends _ done).2
  obtain ⟨_, failed⟩ | ⟨action, performed, undergoes⟩ :=
    run_settlePull client key tag kind (server.answer (kind.request key)).1
  · obtain ⟨error, failed⟩ := failed awaited
    exact absurd (failed.symm.trans settled) (by simp)
  · obtain ⟨before, found, versionEq⟩ := fits
    obtain ⟨serverKey, _, ⟨version, stored, held⟩, _⟩ := snapshots _ _ _ found
    cases kind with
    | fetch => exact absurd (stored.symm.trans versionEq) (by simp)
    | since since =>
        obtain rfl : version = since := Option.some.inj (stored.symm.trans versionEq)
        obtain ⟨command, ok, rfl⟩ := performed
        obtain ⟨document, result, nameEq, idEq, documentHeld, applied, _, _, current⟩ :=
          accounts.answer_pull ok
        obtain ⟨_, time, known, now, knownFound, nowFound, _, nowApplied, read, head⟩ :=
          undergoes.rebase
        rw [nameEq, idEq] at knownFound nowFound
        obtain rfl := Option.some.inj (found.symm.trans knownFound)
        obtain rfl := Option.some.inj (nowFound.symm.trans ((congrArg (fun after =>
          LocalState.find? (Client.state after) key.entityName key.id) sameClient).symm.trans
            followed))
        obtain ⟨_, rfl⟩ := held.unique accounts.nodup documentHeld
        obtain rfl := Except.ok.inj ((applied time).symm.trans nowApplied)
        have wasClean : before.commits = [] := by
          rw [clean, Except.mapM_eq_ok_iff, List.forall₂_nil_right_iff] at read
          exact read
        rw [current, EntityInfo.current, head wasClean, Option.getD_none]

end Client

end LocalFirst
