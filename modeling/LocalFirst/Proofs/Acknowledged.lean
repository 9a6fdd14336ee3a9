import LocalFirst.Proofs.AcceptedPush
import LocalFirst.Proofs.PullResult

/-!
# What becomes of acknowledged commits

A push that the server accepts has its commits in the log before the client settles the answer.
The client then folds the answer and the commits that it has sent into the origin, drops these
from the front of the pending ones and replays what is behind them, all in one action.  If that
can be replayed, the commits are gone, however the push ends.  If not, the action fails: the
push gives an error of the state and the commits stay pending, so that the next push sends them
again.
-/

namespace LocalFirst

/-- A push of an entity that goes to the server and back while nothing else happens: alone, or in
the middle of a repush. -/
structure PushTrip (key : EntityKey) (sending : Scene) where
  limit : Option Nat
  next : Option Repush
  tag : String
  job : PushJob
  begins : (sending.run (Client.beginPush key limit)).1 = .ok (.sent tag job)

namespace PushTrip

variable {key : EntityKey} {sending : Scene} (trip : PushTrip key sending)

/-- The request is on its way. -/
def sent : Scene :=
  (sending.run (Client.beginPush key trip.limit)).2

/-- The answer of the server. -/
def response : Except RemoteError PushCommand :=
  (trip.sent.ask (.push trip.job.request)).1

/-- The server when it has answered. -/
def answered : Scene :=
  (trip.sent.ask (.push trip.job.request)).2

/-- The client when it has settled the answer. -/
def returned : Except ClientError Progress × Scene :=
  trip.answered.run (Client.resume trip.tag (.push trip.job trip.next) trip.response)

/-- The client can carry out what an accepted push makes of the entity: it can address it, replay
the answer and the commits that it has sent on the origin, replay the commits behind these on
what comes out, and write them. -/
structure Replays (info : EntityInfo) (command : PushCommand) (synced : Document)
    (rest : List Update) : Prop where
  addressable : (entityPath key.entityName key.id).fault? = none
  replayed : Update.applyAll trip.sent.client.clock info.origin
    (command.operations ++ trip.job.commits) = .ok synced
  headed : ∃ head, LocalState.headOf trip.sent.client.clock synced
    (info.commits.drop trip.job.commits.length) = .ok head
  written : (info.commits.drop trip.job.commits.length).mapM Update.stored = .ok rest

/-- The push was sent with the first commits of the entity as it was stored. -/
theorem begun : trip.job.key = key ∧ trip.job.Fits trip.sent.client.state ∧
    trip.sent.client.state.isPending trip.tag = true ∧ trip.sent.client.state.QueueReads ∧
    trip.sent.client.state.entities = sending.client.state.entities := by
  obtain ⟨same, _, fits⟩ := Client.gives_beginPush key trip.limit sending.client trivial
  obtain ⟨_, _, queue⟩ := Client.gives_beginPush_queueReads key trip.limit sending.client trivial
  obtain ⟨sameKey, pending, fits⟩ := fits _ trip.begins
  exact ⟨sameKey, fits, pending, queue _ trip.begins _ _ rfl, same⟩

variable {trip} {info : EntityInfo} {command : PushCommand}

/-- The answer is about the entity that was pushed, whose log has grown by the commits. -/
theorem logged_of_accepted (accepted : trip.response = .ok command) :
    (⟨command.entityName, command.id⟩ : EntityKey) = key ∧
      ∃ before current versions, trip.sent.server.stored? key = some before ∧
        trip.answered.server.stored? key = some ⟨current, before.versions ++ versions⟩ ∧
        versions.filterMap Version.operation = trip.job.commits := by
  have requestKey : trip.job.request.key = key := trip.begun.1
  have pushed := Scene.pushed_of_ok accepted
  obtain ⟨before, current, versions, found, logged, _, operations, _⟩ :=
    Server.logged_of_push pushed
  obtain ⟨_, _, _, _, _, _, _, _, _, _, rfl, _⟩ := Server.push_eq_ok pushed
  rw [requestKey] at found
  exact ⟨requestKey, before, current, versions, found,
    (logged key).trans (if_pos requestKey.symm), operations⟩

/-- Where the origin is the document of the server at the stored version, the operations of the
answer and the commits that were sent can be replayed, and give the document that the server
holds now. -/
theorem replayed_of_served {version : String}
    (served : Server.Served sending.history sending.server)
    (known : sending.client.state.find? key.entityName key.id = some info)
    (versionEq : info.versionId = some version)
    (held : sending.history.Held key version info.origin)
    (timeless : ∀ commit ∈ info.commits, commit.Timeless)
    (accepted : trip.response = .ok command) :
    ∃ current, trip.answered.server.entity? key = some current ∧
      ∀ now, Update.applyAll now info.origin (command.operations ++ trip.job.commits) =
        .ok current := by
  obtain ⟨sameKey, ⟨other, count, found, jobVersion, _, commitsEq⟩, _, _, same⟩ := trip.begun
  rw [sameKey, LocalState.find?_of_entities same, known, Option.some.injEq] at found
  subst found
  have requestKey : trip.job.request.key = key := sameKey
  have accounts := History.accounts_of_served served
  have sentTimeless : ∀ commit ∈ trip.job.request.operations, commit.Timeless := by
    intro commit member
    change commit ∈ trip.job.commits at member
    rw [commitsEq] at member
    exact timeless commit (List.mem_of_mem_take member)
  obtain ⟨since, document, current, sinceEq, _, _, documentHeld, replayed, _, _, stored⟩ :=
    accounts.answer_push sentTimeless (Scene.pushed_of_ok accepted)
  rw [requestKey] at documentHeld stored
  have sameVersion : since = version :=
    Option.some.inj (sinceEq.symm.trans (jobVersion.trans versionEq))
  subst sameVersion
  obtain ⟨_, rfl⟩ := held.unique accounts.nodup documentHeld
  exact ⟨current, stored, replayed⟩

/-- A synchronisation that goes through has replayed everything, and leaves what is behind the
commits that were sent. -/
theorem replays_of_reduced {start next : LocalState}
    (starts : start.find? key.entityName key.id = some info)
    (sameKey : (⟨command.entityName, command.id⟩ : EntityKey) = key)
    (reduced : Action.reduce trip.sent.client.clock start (.synchronize command trip.job.commits) =
      .ok next) :
    ∃ now, next.find? key.entityName key.id = some now ∧
      now.versionId = some command.versionId ∧
      trip.Replays info command now.origin now.commits := by
  subst sameKey
  rw [LocalState.reduce_synchronize_eq starts] at reduced
  have addressable := LocalState.addressable_of_reduce_synchronizeFrom reduced
  obtain ⟨_, other, synced, head, found, replayed, headOk, reads⟩ :=
    LocalState.reduce_synchronizeFrom reduced
  obtain rfl := Option.some.inj (starts.symm.trans found)
  obtain ⟨commits, written, nowKnown⟩ := LocalState.readFrom_toDocument reads
  exact ⟨_, nowKnown, rfl, addressable, replayed, ⟨head, headOk⟩, written⟩

/-- Where everything can be replayed, the synchronisation goes through. -/
theorem Replays.exists_reduced {start : LocalState} {synced : Document} {rest : List Update}
    (replays : trip.Replays info command synced rest)
    (starts : start.find? key.entityName key.id = some info) (queue : start.QueueReads)
    (sameKey : (⟨command.entityName, command.id⟩ : EntityKey) = key) :
    ∃ next, Action.reduce trip.sent.client.clock start (.synchronize command trip.job.commits) =
      .ok next := by
  subst sameKey
  obtain ⟨addressable, replayed, ⟨head, headOk⟩, written⟩ := replays
  rw [LocalState.reduce_synchronize_eq starts]
  exact LocalState.exists_reduce_synchronizeFrom queue addressable starts replayed headOk written

theorem Replays.unique {synced other : Document} {rest otherRest : List Update}
    (replays : trip.Replays info command synced rest)
    (otherReplays : trip.Replays info command other otherRest) :
    synced = other ∧ rest = otherRest :=
  ⟨Except.ok.inj (replays.replayed.symm.trans otherReplays.replayed),
    Except.ok.inj (replays.written.symm.trans otherReplays.written)⟩

/-- An accepted push either has replayed everything, or leaves the entity as it was. -/
theorem returned_of_accepted
    (known : sending.client.state.find? key.entityName key.id = some info)
    (accepted : trip.response = .ok command) :
    (∃ now, trip.returned.2.client.state.find? key.entityName key.id = some now ∧
      now.versionId = some command.versionId ∧
      trip.Replays info command now.origin now.commits) ∨
    ((∀ synced rest, ¬ trip.Replays info command synced rest) ∧
      (∃ fault, trip.returned.1 = .error (.state fault)) ∧
      trip.returned.2.client.state.find? key.entityName key.id = some info) := by
  obtain ⟨sameJobKey, ⟨other, _, found, versionEq, _⟩, pending, queue, same⟩ := trip.begun
  have sentKnown := (LocalState.find?_of_entities same key.entityName key.id).trans known
  have jobKnown : trip.sent.client.state.find? trip.job.key.entityName trip.job.key.id =
      some info := by
    rw [sameJobKey]
    exact sentKnown
  obtain rfl := Option.some.inj (jobKnown.symm.trans found)
  obtain ⟨sameKey, _⟩ := logged_of_accepted accepted
  obtain ⟨returnedSame, goesOn⟩ := Client.run_resume_settled trip.sent.client trip.tag
    trip.job trip.next trip.response
  obtain ⟨start, startSame, startQueue, settles⟩ :=
    Client.run_settlePush_accepted command pending queue jobKnown versionEq.symm
  have starts := (LocalState.find?_of_entities startSame _ _).trans sentKnown
  change trip.returned.2.client.state.entities = _ at returnedSame
  change Client.SettledGoesOn trip.job trip.next (trip.returned.1, trip.returned.2.client) _
    at goesOn
  rw [accepted] at returnedSame goesOn
  rcases settles with ⟨next, reduced, nextSame⟩ | ⟨fault, refused, failed, unchanged⟩
  · obtain ⟨now, nowKnown, nowVersion, replays⟩ := replays_of_reduced starts sameKey reduced
    refine .inl ⟨now, ?_, nowVersion, replays⟩
    rw [LocalState.find?_of_entities (returnedSame.trans nextSame), nowKnown]
  · refine .inr ⟨fun synced rest replays => ?_, ⟨fault, ?_⟩, ?_⟩
    · obtain ⟨next, reduced⟩ := replays.exists_reduced starts startQueue sameKey
      cases refused.symm.trans reduced
    · rw [failed] at goesOn
      exact goesOn
    · exact (LocalState.find?_of_entities (returnedSame.trans unchanged) _ _).trans sentKnown

end PushTrip

/-- What becomes of the commits that the server has accepted, when nothing else happens while the
push is on its way.  They are in the log.  If the client can replay the answer, what it has sent
and what is behind it, then the commits that were sent are gone from the front of the pending
ones, whatever the push gives.  If it cannot, the push gives an error of the state, and the
entity stays as it was, with these commits still pending.  Where the origin was the document of
the server at the stored version, the answer and what was sent can always be replayed, so that
only the commits behind can be in the way. -/
theorem push_acknowledged {key : EntityKey} {sending : Scene} {info : EntityInfo}
    {command : PushCommand} (trip : PushTrip key sending)
    (known : sending.client.state.find? key.entityName key.id = some info)
    (accepted : trip.response = .ok command) :
    (trip.job.commits = info.commits.take trip.job.commits.length ∧
      ∃ before current versions, trip.sent.server.stored? key = some before ∧
        trip.answered.server.stored? key = some ⟨current, before.versions ++ versions⟩ ∧
        versions.filterMap Version.operation = trip.job.commits) ∧
    (∀ synced rest, trip.Replays info command synced rest →
      ∃ now, trip.returned.2.client.state.find? key.entityName key.id = some now ∧
        now.origin = synced ∧ now.versionId = some command.versionId ∧ now.commits = rest) ∧
    ((∀ synced rest, ¬ trip.Replays info command synced rest) →
      (∃ fault, trip.returned.1 = .error (.state fault)) ∧
        trip.returned.2.client.state.find? key.entityName key.id = some info) ∧
    ∀ version, Server.Served sending.history sending.server → info.versionId = some version →
      sending.history.Held key version info.origin →
      (∀ commit ∈ info.commits, commit.Timeless) →
      ∃ current, trip.answered.server.entity? key = some current ∧
        ∀ now, Update.applyAll now info.origin (command.operations ++ trip.job.commits) =
          .ok current := by
  obtain ⟨sameKey, fits, _, _, same⟩ := trip.begun
  obtain ⟨other, found, _, commitsEq⟩ := fits.commits_eq
  rw [sameKey, LocalState.find?_of_entities same, known, Option.some.injEq] at found
  subst found
  have returned := PushTrip.returned_of_accepted known accepted
  refine ⟨⟨commitsEq, (PushTrip.logged_of_accepted accepted).2⟩, fun synced rest replays => ?_,
    fun fails => ?_, fun version served versionEq held timeless =>
      PushTrip.replayed_of_served served known versionEq held timeless accepted⟩
  · obtain ⟨now, nowKnown, nowVersion, nowReplays⟩ | ⟨fails, _⟩ := returned
    · obtain ⟨rfl, rfl⟩ := replays.unique nowReplays
      exact ⟨now, nowKnown, rfl, nowVersion, rfl⟩
    · exact absurd replays (fails synced rest)
  · obtain ⟨now, _, _, replays⟩ | ⟨_, failed, unchanged⟩ := returned
    · exact absurd replays (fails _ _)
    · exact ⟨failed, unchanged⟩

namespace PushTrip

/-- The push of an entity from a scene, if it is sent. -/
def of? (key : EntityKey) (limit : Option Nat) (sending : Scene) :
    Option (PushTrip key sending) :=
  match begins : (sending.run (Client.beginPush key limit)).1 with
  | .ok (.sent tag job) => some ⟨limit, none, tag, job, begins⟩
  | _ => none

/-- A note in which two fields are counted. -/
def counted : EntityInfo :=
  { origin := .object [("id", .string "a"), ("n", .int 0)]
    versionId := some (IdSource.identifier 0 0)
    commits := [countIn "m", countIn "n"]
    head := some (.object [("id", .string "a"), ("n", .int 1), ("m", .int 1)]) }

/-- The client sends one commit at a time. -/
def counting : Scene :=
  Scene.ofNote counted { maxPushBatch := some 1 }

def capped : PushTrip ⟨"note", "a"⟩ counting :=
  (of? ⟨"note", "a"⟩ counting.client.maxPushBatch counting).get (by decide +kernel)

theorem accepted_capped : capped.response.toOption.isSome = true := by
  decide +kernel

theorem commits_capped :
    (capped.returned.2.client.state.find? "note" "a").map (fun info => info.commits.length) =
      some 1 := by
  decide +kernel

theorem push_acknowledged_of_capped : ∃ command synced rest,
    capped.response = .ok command ∧ capped.Replays counted command synced rest ∧
      ∃ now, capped.returned.2.client.state.find? "note" "a" = some now ∧
        now.origin = synced ∧ now.versionId = some command.versionId ∧ now.commits = rest := by
  obtain ⟨command, accepted⟩ := Except.exists_of_isSome_toOption accepted_capped
  have known : counting.client.state.find? "note" "a" = some counted := rfl
  obtain ⟨_, settled, kept, _⟩ := push_acknowledged capped known accepted
  obtain ⟨synced, rest, replays⟩ : ∃ synced rest, capped.Replays counted command synced rest := by
    by_contra none
    simp only [not_exists] at none
    obtain ⟨_, unchanged⟩ := kept none
    have left := commits_capped
    rw [unchanged] at left
    cases left
  exact ⟨command, synced, rest, accepted, replays, settled synced rest replays⟩

/-- Another client has made the second field a text. -/
def conflicting : Scene :=
  (counting.ask (.push ⟨"note", "a", counted.versionId,
    [Update.empty.set ⟨["n"]⟩ (.string "s")]⟩)).2

theorem served_conflicting : Server.Served conflicting.history conflicting.server := by
  refine .step (Scene.served_ofNote _ rfl) (.answer ?_ rfl)
  rintro _ (_ | ⟨_, ⟨⟩⟩)
  decide

def refused : PushTrip ⟨"note", "a"⟩ conflicting :=
  (of? ⟨"note", "a"⟩ conflicting.client.maxPushBatch conflicting).get (by decide +kernel)

theorem accepted_refused : refused.response.toOption.isSome = true := by
  decide +kernel

theorem length_refused : (counted.commits.drop refused.job.commits.length).length = 1 := by
  decide +kernel

theorem commits_refused :
    (refused.returned.2.client.state.find? "note" "a").map (fun info => info.commits.length) =
      some 2 := by
  decide +kernel

def again : PushTrip ⟨"note", "a"⟩ refused.returned.2 :=
  (of? ⟨"note", "a"⟩ conflicting.client.maxPushBatch refused.returned.2).get (by decide +kernel)

theorem countAt_again :
    (refused.answered.server.entity? ⟨"note", "a"⟩).map (countAt "m") = some (some 1) ∧
      (again.answered.server.entity? ⟨"note", "a"⟩).map (countAt "m") = some (some 2) := by
  decide +kernel

/-- The server has accepted the first commit, which cannot be dropped because the second one
does not apply to a text: the next push has it logged a second time. -/
theorem kept_of_conflicting :
    Server.Served conflicting.history conflicting.server ∧
      conflicting.client.state.find? "note" "a" = some counted ∧
      conflicting.history.Held ⟨"note", "a"⟩ (IdSource.identifier 0 0) counted.origin ∧
      (∃ command, refused.response = .ok command) ∧
      (∃ fault, refused.returned.1 = .error (.state fault)) ∧
      refused.returned.2.client.state.find? "note" "a" = some counted ∧
      (refused.answered.server.entity? ⟨"note", "a"⟩).map (countAt "m") = some (some 1) ∧
      (again.answered.server.entity? ⟨"note", "a"⟩).map (countAt "m") = some (some 2) := by
  obtain ⟨command, accepted⟩ := Except.exists_of_isSome_toOption accepted_refused
  have known : conflicting.client.state.find? "note" "a" = some counted := rfl
  have held : conflicting.history.Held ⟨"note", "a"⟩ (IdSource.identifier 0 0) counted.origin :=
    (Scene.held_ofNote counted { maxPushBatch := some 1 }).mono
      (counting.history.extends_logged _)
  obtain ⟨now, nowKnown, _, replays⟩ | ⟨_, failed, unchanged⟩ :=
    @returned_of_accepted _ _ refused _ _ known accepted
  · have one := (Except.mapM_eq_ok_iff.1 replays.written).length_eq
    rw [length_refused] at one
    have two := commits_refused
    rw [nowKnown] at two
    exact absurd (one.trans (Option.some.inj two)) (by decide)
  · exact ⟨served_conflicting, known, held, ⟨command, accepted⟩, failed, unchanged,
      countAt_again⟩

end PushTrip

end LocalFirst
