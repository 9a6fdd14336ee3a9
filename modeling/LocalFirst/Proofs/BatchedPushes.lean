import LocalFirst.Proofs.Batches
import LocalFirst.Proofs.PullResult

/-!
# Pushing in batches

What is pending of an entity can be pushed at once, or in batches until nothing is left.  Each batch
leaves the others pending on the document that the server has made of it, so that the last one ends
where a push of everything ends: the server has the same document and the same log, and the entity
has this document as its origin and nothing pending.
-/

namespace LocalFirst

namespace Scene

variable {key : EntityKey} {limit : Option Nat}

variable {scene : Scene} {info : EntityInfo} {stored : StoredEntity}

/-- Only a push that the server has accepted and the client can perform synchronises commits. -/
theorem accepted_of_synced {allowance : Nat} {tag : String} {job : PushJob} {count : Nat}
    (synced : (scene.settle (allowance + 1) ⟨tag, .push job none⟩).1 =
      .ok (.finished (.pushed (.synced count)))) :
    ∃ command, (scene.ask (.push job.request)).1 = .ok command ∧
      (entityPath command.entityName command.id).fault? = none := by
  unfold settle at synced
  -- nothing else is said of the answer than that it is settled
  generalize scene.ask (.push job.request) = answer at synced ⊢
  obtain ⟨response, answered⟩ := answer
  dsimp only at synced ⊢
  obtain ⟨settled, between, settles, _, goesOn⟩ :=
    Client.run_resume_push answered.client tag job none response
  have noError : ∀ error, settled ≠ .error error := by
    rintro error rfl
    rw [Scene.run, show (answered.client.run _).1 = _ from goesOn] at synced
    cases synced
  have outcomes : ∀ outcome, settled = .ok (.ended outcome) → outcome = .synced count := by
    rintro outcome rfl
    rw [Scene.run] at synced
    rcases ran : answered.client.run (Client.resume tag (.push job none) response) with
      ⟨error | progress, last⟩ <;> rw [ran] at synced goesOn
    · cases synced
    · obtain rfl := (goesOn.2 progress rfl).2.2 rfl
      cases synced
      rfl
  cases settles with
  | ignored => cases outcomes _ rfl
  | failed => exact absurd rfl (noError _)
  | @performed command _ _ _ _ undergoes =>
      obtain ⟨_, _, _, _, reduced, _⟩ := undergoes
      exact ⟨command, rfl, LocalState.addressable_of_reduce_synchronizeFrom reduced⟩
  | unreachable => cases outcomes _ rfl
  | refused => exact absurd rfl (noError _)

/-- A push that has synchronised commits was sent and accepted. -/
theorem sent_of_synced {count : Nat}
    (known : scene.client.state.find? key.entityName key.id = some info)
    (few : info.commits.length < Nat.pow 2 63)
    (synced : (scene.push key limit).1 = .ok (.finished (.pushed (.synced count)))) :
    let sent := Client.batchSize limit info.commits.length
    key ∉ scene.client.inFlight ∧ sent ≠ 0 ∧ scene.client.state.network.isOnline = true ∧
      scene.client.state.QueueReads ∧
      (entityPath key.entityName key.id).fault? = none ∧ ∃ command diffs next,
        scene.server.push ⟨key.entityName, key.id, info.versionId, info.commits.take sent⟩ =
          .ok (command, diffs, next) := by
  let limited : Client := { scene.client with maxPushBatch := limit }
  have limitedKnown : limited.state.find? key.entityName key.id = some info := known
  rw [Scene.push, Scene.call, Scene.run, Client.start] at synced
  have ends := (Client.gives_startPush key limited trivial).2.2
  rcases starts : limited.run (Client.startPush key) with ⟨error | ⟨result | suspended⟩, waiting⟩
  · rw [starts] at synced
    cases synced
  · rw [starts] at synced ends
    obtain ⟨outcome, isOutcome, never⟩ | ⟨_, _, waits, _⟩ := ends _ rfl
    · cases isOutcome
      cases synced
      exact absurd rfl (never count)
    · cases waits
  obtain ⟨free, nonzero, online, reads⟩ := Client.sends_of_startPush limitedKnown starts
  obtain ⟨tag, ids, store, begins, _⟩ :=
    Client.run_startPush free limitedKnown online reads nonzero few
  rw [begins] at synced
  obtain ⟨command, response, addressable⟩ := accepted_of_synced synced
  have pushed := pushed_of_ok response
  obtain ⟨_, _, _, _, _, _, _, _, _, _, rfl, _⟩ := Server.push_eq_ok pushed
  exact ⟨free, nonzero, online, reads, addressable, _, _, _, pushed⟩

/-- Where a push has synchronised everything, everything could be pushed. -/
theorem exists_poised_of_synced {version : String} {count : Nat}
    (served : Server.Served scene.history scene.server)
    (known : scene.client.state.find? key.entityName key.id = some info)
    (versionEq : info.versionId = some version)
    (held : scene.history.Held key version info.origin)
    (written : scene.client.state.CommitsStored key.entityName key.id)
    (timeless : ∀ commit ∈ info.commits, commit.Timeless)
    (few : info.commits.length < Nat.pow 2 63)
    (synced : (scene.push key none).1 = .ok (.finished (.pushed (.synced count)))) :
    info.commits ≠ [] ∧ ∃ stored, Poised key scene info stored := by
  obtain ⟨free, nonzero, online, reads, addressable, command, diffs, next, pushed⟩ :=
    sent_of_synced known few synced
  have all : Client.batchSize none info.commits.length = info.commits.length := rfl
  rw [all] at nonzero
  rw [all, List.take_length] at pushed
  obtain ⟨since, stored, foreign, current, _, sinceEq, found, sinceOk, applied, _⟩ :=
    Server.push_eq_ok pushed
  obtain rfl : since = version := Option.some.inj (sinceEq.symm.trans versionEq)
  refine ⟨fun none => nonzero (by rw [none, List.length_nil]), stored, ?_⟩
  exact {
    accounts := History.accounts_of_served served
    reachable := Server.reachable_of_push pushed
    found := found
    listed := ⟨since, StoredEntity.exists_operationsSince_iff.1 ⟨foreign, sinceOk⟩, versionEq, held⟩
    applies := ⟨current, fun now => by
      rw [Update.applyAll_eq_of_timeless timeless now scene.server.clock, applied]⟩
    known := known
    written := written info known
    timeless := timeless
    few := few
    addressable := addressable
    online := online
    reads := reads
    free := free }

/-- Where the same commits have gone, the server has the same documents and logs. -/
theorem Moved.sameServer {before after other : Scene} {now otherNow : EntityInfo}
    {grown final : StoredEntity} {count : Nat}
    (moved : Moved key count before info stored after now grown)
    (otherMoved : Moved key count before info stored other otherNow final)
    (found : after.server.stored? key = some grown)
    (otherFound : other.server.stored? key = some final) (about : EntityKey) :
    other.server.entity? about = after.server.entity? about ∧
      other.server.log about = after.server.log about := by
  by_cases same : about = key
  · subst same
    refine ⟨?_, otherMoved.log.trans moved.log.symm⟩
    rw [Server.entity?, Server.entity?, found, otherFound, Option.map_some, Option.map_some,
      moved.sameCurrent otherMoved]
  · unfold Server.entity? Server.log
    rw [moved.others about same, otherMoved.others about same]
    exact ⟨rfl, rfl⟩

/-- Batches end where a push of everything ends.  The origin of an entity is the document that the
server has held at the stored version, though its log may have gone on since then; its commits are
as they are read back, and a word counts them.  If a push of everything synchronises the entity,
then it can be pushed in batches of any size until nothing is left.  There are as many of them as
the commits make up, and in the end the documents and the logs of the server, the origin and the
pending commits are those behind the push of everything. -/
theorem batched_pushes {key : EntityKey} {sending : Scene} {info : EntityInfo} {version : String}
    {acknowledged bound : Nat} (served : Server.Served sending.history sending.server)
    (known : sending.client.state.find? key.entityName key.id = some info)
    (versionEq : info.versionId = some version)
    (held : sending.history.Held key version info.origin)
    (written : sending.client.state.CommitsStored key.entityName key.id)
    (timeless : ∀ commit ∈ info.commits, commit.Timeless)
    (few : info.commits.length < Nat.pow 2 63)
    (synced : (sending.push key none).1 = .ok (.finished (.pushed (.synced acknowledged))))
    (positive : 1 ≤ bound) :
    let whole := (sending.push key none).2
    (∃ counts last, Drains (some bound) key sending counts last) ∧
      ∀ counts last, Drains (some bound) key sending counts last →
        counts.length = (info.commits.length + bound - 1) / bound ∧
        (∀ other, last.server.entity? other = whole.server.entity? other ∧
          last.server.log other = whole.server.log other) ∧
        ∃ one many, whole.client.state.find? key.entityName key.id = some one ∧
          last.client.state.find? key.entityName key.id = some many ∧
          many.origin = one.origin ∧
          (many.commits = [] ∧ many.head = none) ∧ one.commits = [] ∧ one.head = none := by
  intro whole
  obtain ⟨pending, stored, poised⟩ :=
    exists_poised_of_synced served known versionEq held written timeless few synced
  have nonzero : Client.batchSize none info.commits.length ≠ 0 :=
    fun zero => pending (List.length_eq_zero_iff.1 zero)
  obtain ⟨one, grown, _, onePoised, oneMoved⟩ := poised.push none nonzero
  obtain ⟨counts, last, many, final, drains, batches, manyPoised, manyMoved⟩ :=
    poised.drains positive fun none => absurd none pending
  refine ⟨⟨counts, last, drains⟩, fun _ _ otherDrains => ?_⟩
  obtain ⟨rfl, rfl⟩ := drains.unique otherDrains
  have sameServer := oneMoved.sameServer manyMoved onePoised.found manyPoised.found
  have oneDone : one.commits = [] := oneMoved.commits.trans List.drop_length
  have manyDone : many.commits = [] := manyMoved.commits.trans List.drop_length
  have origin : many.origin = one.origin := by
    rw [manyMoved.origin, oneMoved.origin, oneMoved.sameCurrent manyMoved]
  exact ⟨batches, sameServer, one, many, onePoised.known, manyPoised.known, origin,
    ⟨manyDone, manyMoved.clean manyDone⟩, oneDone, oneMoved.clean oneDone⟩

/-- A note with three counts that are pending. -/
def countedThrice : EntityInfo :=
  { origin := .object [("id", .string "a"), ("n", .int 0)]
    versionId := some (IdSource.identifier 0 0)
    commits := [countIn "n", countIn "m", countIn "n"]
    head := some (.object [("id", .string "a"), ("n", .int 2), ("m", .int 1)]) }

/-- Another client has counted, too. -/
def countedBeside : Scene :=
  ((ofNote countedThrice {}).ask
    (.push ⟨"note", "a", countedThrice.versionId, [countIn "n"]⟩)).2

theorem batched_pushes_countedBeside : ∃ counts last many,
    Drains (some 2) ⟨"note", "a"⟩ countedBeside counts last ∧ counts.length = 2 ∧
      (last.server.entity? ⟨"note", "a"⟩).map (countAt "n") = some (some 3) ∧
      last.client.state.find? "note" "a" = some many ∧ many.commits = [] := by
  have served : Server.Served countedBeside.history countedBeside.server := by
    refine .step (served_ofNote _ rfl) (.answer ?_ rfl)
    rintro _ (_ | ⟨_, ⟨⟩⟩)
    exact (by decide : (countIn "n").Timeless)
  have held : countedBeside.history.Held ⟨"note", "a"⟩ (IdSource.identifier 0 0)
      countedThrice.origin :=
    (held_ofNote countedThrice {}).mono ((ofNote countedThrice {}).history.extends_logged _)
  have written : countedBeside.client.state.CommitsStored "note" "a" := by
    rintro _ ⟨⟩ _ (_ | ⟨_, _ | ⟨_, _ | ⟨_, ⟨⟩⟩⟩⟩) <;> rfl
  have synced : (countedBeside.push ⟨"note", "a"⟩ none).1 =
      .ok (.finished (.pushed (.synced 3))) :=
    Progress.finished_of_finished? (by decide +kernel)
  have counted : ((countedBeside.push ⟨"note", "a"⟩ none).2.server.entity? ⟨"note", "a"⟩).map
      (countAt "n") = some (some 3) := by
    decide +kernel
  obtain ⟨⟨counts, last, drains⟩, tells⟩ :=
    @batched_pushes _ countedBeside countedThrice _ 3 2 served rfl rfl held written (by decide)
      (by decide) synced (by decide)
  obtain ⟨length, sameServer, _, many, _, known, _, ⟨done, _⟩, _⟩ := tells _ _ drains
  refine ⟨counts, last, many, drains, length, ?_, known, done⟩
  rw [(sameServer _).1, counted]

/-- A field whose name holds the separator of written paths. -/
def setDotted : Update :=
  Update.empty.set ⟨["a.b"]⟩ (.int 1)

/-- A note with a count and a dotted field that are pending. -/
def countedAndDotted : EntityInfo :=
  { origin := .object [("id", .string "a"), ("n", .int 0)]
    versionId := some (IdSource.identifier 0 0)
    commits := [countIn "n", setDotted]
    head := some (.object [("id", .string "a"), ("n", .int 1), ("a.b", .int 1)]) }

/-- A commit that is not as it is read back is another one for the later batches: the first one
leaves it as it has been written, which is a field of a field. -/
theorem batches_differ_of_dotted :
    let sending := ofNote countedAndDotted {}
    Server.Served sending.history sending.server ∧
      sending.client.state.find? "note" "a" = some countedAndDotted ∧
      sending.history.Held ⟨"note", "a"⟩ (IdSource.identifier 0 0) countedAndDotted.origin ∧
      (∀ commit ∈ countedAndDotted.commits, commit.Timeless) ∧
      (sending.push ⟨"note", "a"⟩ none).1 = .ok (.finished (.pushed (.synced 2))) ∧
      ∃ last, Drains (some 1) ⟨"note", "a"⟩ sending [1, 1] last ∧
        last.server.entity? ⟨"note", "a"⟩ ≠
          (sending.push ⟨"note", "a"⟩ none).2.server.entity? ⟨"note", "a"⟩ := by
  intro sending
  have timeless : ∀ commit ∈ countedAndDotted.commits, commit.Timeless := by
    rintro _ (_ | ⟨_, _ | ⟨_, ⟨⟩⟩⟩)
    · exact (by decide : (countIn "n").Timeless)
    · exact Update.timeless_set _ _
  have drains : Drains (some 1) ⟨"note", "a"⟩ sending [1, 1] _ :=
    .synced (Progress.finished_of_finished? (by decide +kernel))
      (.synced (Progress.finished_of_finished? (by decide +kernel))
        (.clean (Progress.finished_of_finished? (by decide +kernel))))
  refine ⟨served_ofNote {} rfl, rfl, held_ofNote countedAndDotted {}, timeless,
    Progress.finished_of_finished? (by decide +kernel), _, drains, fun same => ?_⟩
  have differ : ((sending.push ⟨"note", "a"⟩ none).2.server.entity? ⟨"note", "a"⟩).map
        (countAt "a.b") = some (some 1) ∧
      ((((sending.push ⟨"note", "a"⟩ (some 1)).2.push ⟨"note", "a"⟩ (some 1)).2.push
        ⟨"note", "a"⟩ (some 1)).2.server.entity? ⟨"note", "a"⟩).map (countAt "a.b") =
          some none := by
    decide +kernel
  rw [same, differ.1] at differ
  exact absurd differ.2 (by decide)

end Scene

end LocalFirst
