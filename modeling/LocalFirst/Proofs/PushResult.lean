import LocalFirst.Proofs.PullResult
import LocalFirst.Proofs.PushEnding

/-!
# What the result of a push says

While a push of an entity waits for its answer, and again while the pull waits that may
follow it, commits to the entity and diffs of it may be dispatched, and the server goes
on with whatever it does.  When the push says that it has synchronised some commits, the
server has logged exactly these, and they are gone from the pending ones.  When it says
anything else but that its answer was ignored, nothing has been logged and nothing is
gone.

The origin is again a document of the server at the stored version, as long as no diff
moves the entity while the pull waits.  This pull looks at that no more than any other
one does, and replays the operation of the diff for a second time.
-/

namespace LocalFirst

/-- What a push gives is true.  It waits for an answer, or ends at once and says nothing of
commits that were synchronised.  When it says so at the end, the server has logged these commits
and they are gone from the pending ones; the origin is a document of the server at the stored
version, unless the entity has moved while the pull waited.  When there was nothing to push, the
server could not be reached or has refused, the server and the entities are as if nothing had been
pushed. -/
theorem push_result {key : EntityKey} {sending : Scene} {info : EntityInfo}
    {version : String} (served : Server.Served sending.history sending.server)
    (known : sending.client.state.find? key.entityName key.id = some info)
    (versionEq : info.versionId = some version)
    (held : sending.history.Held key version info.origin)
    (timeless : ∀ commit ∈ info.commits, commit.Timeless) :
    let sent := sending.run (Client.start (.push key))
    sent.2.client.state.entities = sending.client.state.entities ∧
      (∀ progress, sent.1 = .ok progress →
        (∃ outcome, progress = .finished (.pushed outcome) ∧ ∀ count, outcome ≠ .synced count) ∨
          ∃ tag job, progress = .waiting ⟨tag, .push job none⟩) ∧
      ∀ (flight : PushFlight key sending) (ending : flight.Ending),
        (∀ count, ending.resumed.1 = .ok (.finished (.pushed (.synced count))) →
          PushFlight.Synchronised info count ending) ∧
        (ending.resumed.1 = .ok (.finished (.pushed .clean)) ∨
            (∃ count, ending.resumed.1 = .ok (.finished (.pushed (.queued count)))) ∨
            ending.resumed.1 = .ok (.finished (.pushed .inFlight)) ∨
            (∃ error, ending.resumed.1 = .error (.remote error)) →
          PushFlight.Unchanged ending) := by
  intro sent
  have ready : sending.Ready key :=
    Scene.ready_of_served served known versionEq held timeless
  obtain ⟨same, _, gives⟩ := Client.gives_startPush key sending.client trivial
  refine ⟨same, fun progress result => ?_, fun flight ending => ?_⟩
  · obtain ended | ⟨tag, job, waits, _⟩ := gives progress result
    · exact .inl ended
    · exact .inr ⟨tag, job, waits⟩
  obtain (ignored | ⟨fault, faulty⟩) | ⟨command, before, commits, ok, responding, read, catchesUp,
    synced⟩ | ⟨⟨_, failed⟩, unchanged, refused⟩ := ending.result_cases ready
  · simp [ignored]
  · simp [faulty]
  · refine ⟨fun count same => ?_, by simp [synced]⟩
    cases synced.symm.trans same
    exact ending.synchronised known ok responding read catchesUp
  · refine ⟨fun count synced => ?_, fun _ => ?_⟩
    · obtain queued | ⟨_, refused⟩ := refused
      · cases queued.symm.trans synced
      · cases refused.symm.trans synced
    · obtain ⟨server, diffs⟩ := flight.answered_of_error failed
      exact ⟨server, diffs, unchanged⟩

namespace PushFlight

/-- The push that has been sent. -/
def sent? (key : EntityKey) (sending : Scene) : Option (String × PushJob) :=
  match (sending.run (Client.start (.push key))).1 with
  | .ok (.waiting ⟨tag, .push job none⟩) => some (tag, job)
  | _ => none

theorem starts_of_sent? {key : EntityKey} {sending : Scene} {tag : String} {job : PushJob}
    (sent : sent? key sending = some (tag, job)) :
    (sending.run (Client.start (.push key))).1 = .ok (.waiting ⟨tag, .push job none⟩) := by
  unfold sent? at sent
  split at sent
  next starts =>
    cases sent
    exact starts
  · cases sent

/-- What a call waits for. -/
def waiting? (resumed : Except ClientError Progress) : Option Suspended :=
  match resumed with
  | .ok (.waiting next) => some next
  | _ => none

theorem waits_of_waiting? {resumed : Except ClientError Progress} {next : Suspended}
    (waiting : waiting? resumed = some next) : resumed = .ok (.waiting next) := by
  unfold waiting? at waiting
  split at waiting
  · cases waiting
    rfl
  · cases waiting

/-- A note with an edit that is pending. -/
def edited : EntityInfo :=
  { origin := .object [("id", .string "a"), ("n", .int 0)]
    versionId := some (IdSource.identifier 0 0)
    commits := [Update.empty.set ⟨["n"]⟩ (.int 1)]
    head := some (.object [("id", .string "a"), ("n", .int 1)]) }

def editing : Scene :=
  Scene.ofNote edited {}

theorem timeless_edited : ∀ commit ∈ edited.commits, commit.Timeless := by
  rintro _ (_ | ⟨_, ⟨⟩⟩)
  exact Update.timeless_set _ _

theorem sent_editing : (sent? ⟨"note", "a"⟩ editing).isSome = true := by
  decide +kernel

/-- The edit is pushed while one of another client reaches the server before it. -/
def overtaken : Scene :=
  ((editing.run (Client.start (.push ⟨"note", "a"⟩))).2.ask
    (.push ⟨"note", "a", edited.versionId, [Update.empty.set ⟨["m"]⟩ (.int 2)]⟩)).2

/-- The answer to the edit is on its way. -/
def logged : Scene :=
  (overtaken.ask (.push ((sent? ⟨"note", "a"⟩ editing).get sent_editing).2.request)).2

theorem keys_of_logged :
    logged.history.diffs.map VersionDiff.key = [⟨"note", "a"⟩, ⟨"note", "a"⟩] := by
  decide +kernel

theorem diffs_of_logged : logged.history.diffs ≠ [] := by
  intro none
  have keys := keys_of_logged
  rw [none] at keys
  cases keys

/-- The client hears of the other edit before the answer to its own. -/
def crossed : PushFlight ⟨"note", "a"⟩ editing where
  tag := ((sent? ⟨"note", "a"⟩ editing).get sent_editing).1
  job := ((sent? ⟨"note", "a"⟩ editing).get sent_editing).2
  starts := starts_of_sent? (Option.some_get sent_editing).symm
  arriving := overtaken
  outward := .single (.ask (by
    rintro _ (_ | ⟨_, ⟨⟩⟩)
    exact Update.timeless_set _ _))
  responding := (logged.run (Client.applyVersionDiff (logged.history.diffs.head diffs_of_logged))).2
  inward := .single (.applyDiff (List.head_mem _) (by decide +kernel))

theorem waiting_crossed : (waiting? crossed.resumed.1).isSome = true := by
  decide +kernel

/-- Another edit is committed while the pull behind the push waits. -/
def committedBehind : crossed.CatchUp where
  next := (waiting? crossed.resumed.1).get waiting_crossed
  waits := waits_of_waiting? (Option.some_get waiting_crossed).symm
  asking := crossed.resumed.2
  outward := .refl
  answering := ((crossed.resumed.2.ask
    ((waiting? crossed.resumed.1).get waiting_crossed).flight.request).2.run
      (Client.commit ⟨"note", "a"⟩ (countIn "n"))).2
  inward := .single (.commit (by decide : (countIn "n").Timeless))

theorem resumed_committedBehind :
    (Ending.caughtUp committedBehind).resumed.1 = .ok (.finished (.pushed (.synced 1))) :=
  Progress.finished_of_finished? (by decide +kernel)

theorem push_result_of_committedBehind :
    Synchronised edited 1 (Ending.caughtUp committedBehind) := by
  obtain ⟨_, _, tells⟩ := push_result (Scene.served_ofNote {} rfl) rfl rfl
    (Scene.held_ofNote edited {}) timeless_edited
  exact (tells crossed (.caughtUp committedBehind)).1 1 resumed_committedBehind

/-- The other client counts on while the pull behind the push is on its way. -/
def countedBehind : Scene :=
  (crossed.resumed.2.ask (.push ⟨"note", "a", edited.versionId, [countIn "m"]⟩)).2

theorem keys_of_countedBehind : countedBehind.history.diffs.map VersionDiff.key =
    [⟨"note", "a"⟩, ⟨"note", "a"⟩, ⟨"note", "a"⟩] := by
  decide +kernel

theorem diffs_of_countedBehind : countedBehind.history.diffs ≠ [] := by
  intro none
  have keys := keys_of_countedBehind
  rw [none] at keys
  cases keys

/-- The client hears of the new count before the answer to the pull. -/
def overtakenBehind : crossed.CatchUp where
  next := (waiting? crossed.resumed.1).get waiting_crossed
  waits := waits_of_waiting? (Option.some_get waiting_crossed).symm
  asking := countedBehind
  outward := .single (.ask (by
    rintro _ (_ | ⟨_, ⟨⟩⟩)
    exact (by decide : (countIn "m").Timeless)))
  answering := ((countedBehind.ask
    ((waiting? crossed.resumed.1).get waiting_crossed).flight.request).2.run
      (Client.applyVersionDiff (countedBehind.history.diffs.getLast diffs_of_countedBehind))).2
  inward := .single (.applyDiff (by
    exact List.mem_append_left _ (List.getLast_mem _)) (by decide +kernel))

/-- The push says that it has synchronised its commit, but what the other client has counted once,
the pull behind it has counted twice. -/
theorem not_held_of_overtakenBehind : ∃ now current,
    (Ending.caughtUp overtakenBehind).resumed.1 = .ok (.finished (.pushed (.synced 1))) ∧
      (Ending.caughtUp overtakenBehind).resumed.2.client.state.find? "note" "a" = some now ∧
      now.versionId = some current ∧
      ¬ (Ending.caughtUp overtakenBehind).resumed.2.history.Held ⟨"note", "a"⟩ current
        now.origin := by
  have synced : (Ending.caughtUp overtakenBehind).resumed.1 =
      .ok (.finished (.pushed (.synced 1))) := Progress.finished_of_finished? (by decide +kernel)
  obtain ⟨twice, once⟩ :
      ((Ending.caughtUp overtakenBehind).resumed.2.client.state.find? "note" "a").map
          (fun now => (countAt "m" now.origin, now.versionId)) =
        some (some 4, (Ending.caughtUp overtakenBehind).resumed.2.server.version? ⟨"note", "a"⟩) ∧
      ((Ending.caughtUp overtakenBehind).resumed.2.server.entity? ⟨"note", "a"⟩).map (countAt "m") =
        some (some 3) := by
    decide +kernel
  have ready : editing.Ready ⟨"note", "a"⟩ := Scene.ready_of_served (Scene.served_ofNote {} rfl)
    rfl rfl (Scene.held_ofNote edited {}) timeless_edited
  obtain ⟨now, current, known, versionEq, notHeld⟩ :=
    Scene.not_held_of_count ((Ending.caughtUp overtakenBehind).accounts_resumed ready) twice once
      (by decide)
  exact ⟨now, current, synced, known, versionEq, notHeld⟩

end PushFlight

end LocalFirst
