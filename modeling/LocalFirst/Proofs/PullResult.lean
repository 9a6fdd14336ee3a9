import LocalFirst.Proofs.ClientAnswers
import LocalFirst.Proofs.Scenes

/-!
# What a pull leaves behind

A pull asks for what the server has logged since the version that was stored when the
request went out.  The operations of the answer lead from the document at that version to
the one at the version of the answer.  They are replayed on the origin that is stored when
the answer comes, and no part of the pull looks whether this is still the same one: a diff
that has moved the entity in the meantime is among the operations again.
-/

namespace LocalFirst

/-- A pull that waits has asked for what is newer than the stored version. -/
theorem Scene.since_of_startPull {key : EntityKey} {sending : Scene} {info : EntityInfo}
    {version : String} {progress : Progress}
    (known : sending.client.state.find? key.entityName key.id = some info)
    (versionEq : info.versionId = some version)
    (starts : (sending.run (Client.start (.pull key))).1 = .ok progress) :
    ∃ tag, progress = .waiting ⟨tag, .pull key (.since version)⟩ := by
  obtain ⟨same, _, waits⟩ := Client.gives_startPull key sending.client trivial
  obtain ⟨waiting, tag, kind, rfl⟩ := waits progress starts
  have fits : kind.Fits (sending.run (Client.start (.pull key))).2.client.state key := waiting.2
  obtain ⟨other, found, kindEq⟩ := fits.of_entities same.symm
  obtain rfl := Option.some.inj (known.symm.trans found)
  cases kind with
  | fetch => exact absurd (versionEq.symm.trans kindEq) (by simp)
  | since since =>
      have sameVersion : version = since := Option.some.inj (versionEq.symm.trans kindEq)
      exact ⟨tag, by rw [sameVersion]⟩

/-- A pull of an entity on its way: the request for what is newer than a version is sent,
reaches the server, and its answer reaches the client. -/
structure PullFlight (key : EntityKey) (sending : Scene) where
  tag : String
  since : String
  starts : (sending.run (Client.start (.pull key))).1 =
    .ok (.waiting ⟨tag, .pull key (.since since)⟩)
  arriving : Scene
  outward : Scene.Steps key (sending.run (Client.start (.pull key))).2 arriving
  responding : Scene
  inward : Scene.Steps key (arriving.ask (.pull key since)).2 responding

namespace PullFlight

variable {key : EntityKey} {sending : Scene} (flight : PullFlight key sending)

/-- The answer of the server. -/
def response : Except RemoteError PushCommand :=
  (flight.arriving.ask (.pull key flight.since)).1

/-- The client when it has settled the answer. -/
def resumed : Except ClientError Progress × Scene :=
  flight.responding.run (Client.resume flight.tag (.pull key (.since flight.since)) flight.response)

/-- The pull was sent for the version that was stored. -/
theorem kind_fits : (PullKind.since flight.since).Fits sending.client.state key ∧
    (sending.run (Client.start (.pull key))).2.client.state.entities =
      sending.client.state.entities := by
  obtain ⟨same, _, waits⟩ := Client.gives_startPull key sending.client trivial
  have fits : (PullKind.since flight.since).Fits
      (sending.run (Client.start (.pull key))).2.client.state key :=
    (waits _ flight.starts).1.2
  exact ⟨fits.of_entities same.symm, same⟩

theorem ready_arriving (ready : sending.Ready key) : flight.arriving.Ready key :=
  (ready.run flight.kind_fits.2).steps flight.outward

theorem ready_responding (ready : sending.Ready key) : flight.responding.Ready key := by
  have asksNothing : (Request.pull key flight.since).Timeless := trivial
  exact ((flight.ready_arriving ready).ask asksNothing).steps flight.inward

theorem accounts_resumed (ready : sending.Ready key) :
    flight.resumed.2.history.Accounts flight.resumed.2.server :=
  (flight.ready_responding ready).accounts

/-- An answer that is settled leaves the entity as it is, or rebases it. -/
theorem performs : flight.resumed.2.client.state.entities =
      flight.responding.client.state.entities ∨
    ∃ command, flight.response = .ok command ∧
      flight.responding.client.state.Undergoes (.rebase command) flight.resumed.2.client.state := by
  obtain ⟨same | ⟨action, ⟨command, responds, rfl⟩, undergoes⟩, _⟩ :=
    Client.run_resume flight.responding.client flight.tag (.pull key (.since flight.since))
      flight.response
  · exact .inl same
  · exact .inr ⟨command, responds, undergoes⟩

/-- The pull was sent for the version at which the server has held the origin. -/
theorem held_arriving {info : EntityInfo} {version : String}
    (known : sending.client.state.find? key.entityName key.id = some info)
    (versionEq : info.versionId = some version)
    (held : sending.history.Held key version info.origin) :
    flight.since = version ∧ flight.arriving.history.Held key flight.since info.origin := by
  obtain ⟨⟨other, found, sinceEq⟩, _⟩ := flight.kind_fits
  obtain rfl := Option.some.inj (known.symm.trans found)
  have sameVersion : version = flight.since := Option.some.inj (versionEq.symm.trans sinceEq)
  have grows := Scene.extends_of_steps flight.outward
  exact ⟨sameVersion.symm, sameVersion ▸ held.mono grows⟩

end PullFlight

/-- What a pull leaves behind, whether or not it has succeeded.  If nothing has moved the entity
between the request and the answer, its origin is the document of the server at the stored version.
Otherwise this is the document to which the answered operations lead from the origin of the time
of sending, while the pull has replayed them on the origin of the time of the answer. -/
theorem pull_result {key : EntityKey} {sending : Scene} {info : EntityInfo}
    {version : String} (served : Server.Served sending.history sending.server)
    (known : sending.client.state.find? key.entityName key.id = some info)
    (versionEq : info.versionId = some version)
    (held : sending.history.Held key version info.origin)
    (timeless : ∀ commit ∈ info.commits, commit.Timeless) :
    let sent := sending.run (Client.start (.pull key))
    sent.2.client.state.entities = sending.client.state.entities ∧
      (∀ progress, sent.1 = .ok progress →
        ∃ tag, progress = .waiting ⟨tag, .pull key (.since version)⟩) ∧
      ∀ (flight : PullFlight key sending) (now : EntityInfo),
        flight.resumed.2.client.state.find? key.entityName key.id = some now →
        ∃ before current expected,
          flight.responding.client.state.find? key.entityName key.id = some before ∧
          now.versionId = some current ∧
          flight.resumed.2.history.Held key current expected ∧
          (now.origin = expected ∨ ∃ command, flight.response = .ok command ∧ ∀ time,
            Update.applyAll time info.origin command.operations = .ok expected ∧
            Update.applyAll time before.origin command.operations = .ok now.origin) ∧
          (before.versionId = some version → now.origin = expected) := by
  intro sent
  have ready : sending.Ready key :=
    Scene.ready_of_served served known versionEq held timeless
  refine ⟨(Client.gives_startPull key sending.client trivial).1,
    fun _ starts => Scene.since_of_startPull known versionEq starts, fun flight now nowKnown => ?_⟩
  have responding := flight.ready_responding ready
  obtain unchanged | ⟨command, responds, undergoes⟩ := flight.performs
  · have before := (LocalState.find?_of_entities unchanged _ _).symm.trans nowKnown
    obtain ⟨current, currentEq, currentHeld⟩ := (responding.mirrors now before).origin
    exact ⟨now, current, now.origin, before, currentEq, currentHeld, .inl rfl, fun _ => rfl⟩
  · obtain ⟨sinceEq, arrivingHeld⟩ := flight.held_arriving known versionEq held
    obtain ⟨before, after, expected, beforeKnown, afterKnown, _, afterVersion, _, expectedHeld,
      replayed, unmoved⟩ := Scene.rebased (flight.ready_arriving ready).accounts arrivingHeld
        responds flight.inward (fun before known => (responding.mirrors before known).origin)
        undergoes
    obtain rfl := Option.some.inj (nowKnown.symm.trans afterKnown)
    exact ⟨before, command.versionId, expected, beforeKnown, afterVersion, expectedHeld,
      .inr ⟨command, responds, replayed⟩, fun sameVersion => unmoved (sinceEq ▸ sameVersion)⟩

/-- A server that holds one note, and a client that follows it. -/
def Scene.ofNote (info : EntityInfo) (config : ClientConfig) : Scene :=
  { history := History.empty.withInserted ⟨"note", "a"⟩ (IdSource.identifier 0 0) info.origin
    server := { Server.empty with
      entities := Keyed.empty.insert
        (⟨"note", "a"⟩, ⟨info.origin, [⟨IdSource.identifier 0 0, none⟩]⟩)
      ids := ⟨0, 1⟩ }
    client := Client.ofStore (Store.ofState { LocalState.empty with
      entities := NameMap.put "note" (NameMap.put "a" info Keyed.empty) Keyed.empty } 8)
      config ⟨1, 0⟩ default }

theorem Scene.served_ofNote {info : EntityInfo} (config : ClientConfig)
    (named : (info.origin.get? "id").bind Document.string? = some "a") :
    Server.Served (Scene.ofNote info config).history (Scene.ofNote info config).server := by
  refine .step .start (@Server.Step.insert .empty .empty _ "note" "a"
    (IdSource.identifier 0 0) info.origin ?_ named)
  unfold Server.insert
  rw [named]
  rfl

theorem Scene.held_ofNote (info : EntityInfo) (config : ClientConfig) :
    (Scene.ofNote info config).history.Held ⟨"note", "a"⟩ (IdSource.identifier 0 0) info.origin :=
  .inserted (List.mem_singleton_self _)

/-- Count one more in a field. -/
def countIn (field : String) : Update :=
  Update.empty.insert ⟨[field]⟩ (.inc (.int 1))

/-- The count in a field of a document. -/
def countAt (field : String) (document : Document) : Option Int64 :=
  (document.get? field).bind Document.int?

/-- An origin at the current version of the server that counts otherwise has not been held. -/
theorem Scene.not_held_of_count {scene : Scene} {key : EntityKey} {field : String}
    {mine its : Option Int64} (accounts : scene.history.Accounts scene.server)
    (counted : (scene.client.state.find? key.entityName key.id).map
      (fun now => (countAt field now.origin, now.versionId)) =
        some (mine, scene.server.version? key))
    (expected : (scene.server.entity? key).map (countAt field) = some its) (differ : mine ≠ its) :
    ∃ now current, scene.client.state.find? key.entityName key.id = some now ∧
      now.versionId = some current ∧ ¬ scene.history.Held key current now.origin := by
  obtain ⟨now, known, countedEq⟩ := Option.map_eq_some_iff.1 counted
  obtain ⟨mineEq, versionEq⟩ := Prod.ext_iff.1 countedEq
  obtain ⟨document, documentEq, itsEq⟩ := Option.map_eq_some_iff.1 expected
  obtain ⟨stored, found, rfl⟩ := Option.map_eq_some_iff.1 documentEq
  have sameVersion : now.versionId = some stored.versionId := by
    rw [show now.versionId = _ from versionEq, Server.version?, found, Option.map_some]
  refine ⟨now, stored.versionId, known, sameVersion, fun held => ?_⟩
  obtain ⟨_, sameOrigin⟩ := held.unique accounts.nodup (accounts.held_current found)
  have sameCount : mine = countAt field stored.current := sameOrigin ▸ mineEq.symm
  exact differ (sameCount.trans itsEq)

namespace PullFlight

/-- The pull that has been sent. -/
def sent? (key : EntityKey) (sending : Scene) : Option (String × String) :=
  match (sending.run (Client.start (.pull key))).1 with
  | .ok (.waiting ⟨tag, .pull _ (.since version)⟩) => some (tag, version)
  | _ => none

theorem starts_of_sent? {key : EntityKey} {sending : Scene} {tag version : String}
    (sent : sent? key sending = some (tag, version)) :
    (sending.run (Client.start (.pull key))).1 =
      .ok (.waiting ⟨tag, .pull key (.since version)⟩) := by
  obtain ⟨_, _, waits⟩ := Client.gives_startPull key sending.client trivial
  unfold sent? at sent
  split at sent
  next starts =>
    cases sent
    obtain ⟨_, _, _, waiting⟩ := waits _ starts
    cases waiting
    exact starts
  · cases sent

/-- A note with a count. -/
def count : EntityInfo :=
  { origin := .object [("id", .string "a"), ("n", .int 0)]
    versionId := some (IdSource.identifier 0 0)
    commits := []
    head := none }

def counting : Scene :=
  Scene.ofNote count {}

theorem sent_counting : (sent? ⟨"note", "a"⟩ counting).isSome = true := by
  decide +kernel

/-- Another client counts on while the pull is on its way. -/
def counted : Scene :=
  ((counting.run (Client.start (.pull ⟨"note", "a"⟩))).2.ask
    (.push ⟨"note", "a", count.versionId, [countIn "n"]⟩)).2

theorem keys_of_counted : counted.history.diffs.map VersionDiff.key = [⟨"note", "a"⟩] := by
  decide +kernel

theorem diffs_of_counted : counted.history.diffs ≠ [] := by
  intro none
  have keys := keys_of_counted
  rw [none] at keys
  cases keys

/-- The client hears of the new count between the request and the answer. -/
def overtaken : PullFlight ⟨"note", "a"⟩ counting where
  tag := ((sent? ⟨"note", "a"⟩ counting).get sent_counting).1
  since := ((sent? ⟨"note", "a"⟩ counting).get sent_counting).2
  starts := starts_of_sent? (Option.some_get sent_counting).symm
  arriving := counted
  outward := .single (.serve (.answer (by
    rintro _ (_ | ⟨_, ⟨⟩⟩)
    exact (by decide : (countIn "n").Timeless)) rfl))
  responding := ((counted.ask (.pull ⟨"note", "a"⟩
    ((sent? ⟨"note", "a"⟩ counting).get sent_counting).2)).2.run
      (Client.applyVersionDiff (counted.history.diffs.head diffs_of_counted))).2
  inward := .single (.applyDiff (by
    exact List.mem_append_left _ (List.head_mem _)) (by decide +kernel))

theorem timeless_count : ∀ commit ∈ count.commits, commit.Timeless := by
  rintro _ ⟨⟩

theorem pull_result_of_overtaken : ∃ now before current expected,
    overtaken.resumed.2.client.state.find? "note" "a" = some now ∧
      overtaken.responding.client.state.find? "note" "a" = some before ∧
      now.versionId = some current ∧
      overtaken.resumed.2.history.Held ⟨"note", "a"⟩ current expected ∧
      (now.origin = expected ∨ ∃ command, overtaken.response = .ok command ∧ ∀ time,
        Update.applyAll time count.origin command.operations = .ok expected ∧
        Update.applyAll time before.origin command.operations = .ok now.origin) := by
  obtain ⟨now, nowKnown⟩ := Option.isSome_iff_exists.1
    (by decide +kernel : (overtaken.resumed.2.client.state.find? "note" "a").isSome = true)
  obtain ⟨_, _, tells⟩ := pull_result (Scene.served_ofNote {} rfl) rfl rfl
    (Scene.held_ofNote count {}) timeless_count
  obtain ⟨before, current, expected, beforeKnown, currentEq, held, replayed, _⟩ :=
    tells overtaken now nowKnown
  exact ⟨now, before, current, expected, nowKnown, beforeKnown, currentEq, held, replayed⟩

theorem resumed_overtaken : overtaken.resumed.1 = .ok (.finished .done) :=
  Progress.finished_of_finished? (by decide +kernel)

/-- The other client has counted once, and the pull has counted twice. -/
theorem not_held_of_overtaken : ∃ now current,
    overtaken.resumed.1 = .ok (.finished .done) ∧
      overtaken.resumed.2.client.state.find? "note" "a" = some now ∧
      now.versionId = some current ∧
      ¬ overtaken.resumed.2.history.Held ⟨"note", "a"⟩ current now.origin := by
  obtain ⟨twice, once⟩ :
      (overtaken.resumed.2.client.state.find? "note" "a").map
          (fun now => (countAt "n" now.origin, now.versionId)) =
        some (some 2, overtaken.resumed.2.server.version? ⟨"note", "a"⟩) ∧
      (overtaken.resumed.2.server.entity? ⟨"note", "a"⟩).map (countAt "n") = some (some 1) := by
    decide +kernel
  have ready : counting.Ready ⟨"note", "a"⟩ :=
    Scene.ready_of_served (Scene.served_ofNote {} rfl) rfl rfl (Scene.held_ofNote count {})
      timeless_count
  obtain ⟨now, current, known, versionEq, notHeld⟩ :=
    Scene.not_held_of_count (overtaken.accounts_resumed ready) twice once (by decide)
  exact ⟨now, current, resumed_overtaken, known, versionEq, notHeld⟩

end PullFlight

end LocalFirst
