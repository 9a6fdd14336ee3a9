import LocalFirst.Proofs.QueueRuns
import LocalFirst.Proofs.RepushRounds

/-!
# What a repush leaves queued

A repush pushes of every entity as many commits as are queued, and takes its entries out of the
queue one after another, as long as the acknowledged commits cover them.  Commits that were reverted
or dropped after they were queued are missing then: the entries count more than there is to push,
and the first one that is too large stays, with those behind it, though nothing is left to be sent.
-/

namespace LocalFirst

namespace Client

/-- What is done with a client: its own turns, and reverts in its store. -/
inductive Task where
  | turn (turn : Turn)
  | revert (key : EntityKey) (operations : List Update)

def afterTask (client : Client) : Task → Client
  | .turn turn => client.after turn
  | .revert key operations =>
      (client.run (dispatch (.revert key.entityName key.id operations))).2

def afterTasks (client : Client) (tasks : List Task) : Client :=
  tasks.foldl afterTask client

/-- The commits of an entity can be counted in a word, with the one that is made. -/
def HasRoom (client : Client) : Task → Prop
  | .turn (.commit key _) | .turn (.call (.commitAndPush key _) _) =>
      (client.state.pending key).length + 1 < UInt64.size
  | _ => True

def HasRoomAll (client : Client) : List Task → Prop
  | [] => True
  | task :: rest => client.HasRoom task ∧ (client.afterTask task).HasRoomAll rest

theorem retains_answered {holds : LocalState → Prop} (kept : Action.Keep holds)
    {outcome : Except ClientError Progress × Client} (begins : holds outcome.2.state)
    (servers : List Server) : holds (answered servers outcome).2.state := by
  induction servers generalizing outcome with
  | nil => exact begins
  | cons server later ih =>
      rcases outcome with ⟨error | result | ⟨tag, flight⟩, client⟩
      · exact begins
      · exact begins
      · exact ih (retains_resume kept tag flight _ client begins)

theorem counted_commit {client : Client} (counted : client.state.Counted) {key : EntityKey}
    (room : (client.state.pending key).length + 1 < UInt64.size) (operation : Update) :
    (client.run (commit key operation)).2.state.Counted := by
  rcases run_dispatch client (.commit key.entityName key.id operation) with
    ⟨_, reduced, _, ran, rfl⟩ | ⟨_, _, _, ran, same⟩ <;> rw [commit, ran]
  · exact LocalState.counted_of_commit counted room reduced
  · exact same ▸ counted

/-- Whatever is done with a client, its counts fit into words. -/
theorem counted_afterTask {client : Client} (counted : client.state.Counted) {task : Task}
    (room : client.HasRoom task) : (client.afterTask task).state.Counted := by
  have kept := LocalState.keep_counted
  cases task with
  | revert key operations =>
      exact retains_dispatch_of (fun _ _ _ counted reduced => counted.revert reduced) client counted
  | turn turn =>
      cases turn with
      | commit key operation => exact counted_commit counted room operation
      | goOffline => exact retains_dispatch kept (by exact trivial) client counted
      | applyVersionDiff diff => exact retains_applyVersionDiff kept diff client counted
      | wake now => exact counted
      | call call servers =>
          refine retains_answered kept ?_ servers
          by_cases commits : ∃ key operation, call = .commitAndPush key operation
          · obtain ⟨key, operation, rfl⟩ := commits
            have committed := counted_commit counted room operation
            rw [start, run_bind]
            rcases ran : client.run (commit key operation) with ⟨error | done, between⟩ <;>
              rw [ran] at committed
            · exact committed
            · exact retains_startPush kept key between committed
          · exact retains_start kept (fun key operation same => commits ⟨key, operation, same⟩)
              client counted

theorem counted_afterTasks {client : Client} (counted : client.state.Counted) {tasks : List Task}
    (room : client.HasRoomAll tasks) : (client.afterTasks tasks).state.Counted := by
  induction tasks generalizing client with
  | nil => exact counted
  | cons task rest ih => exact ih (counted_afterTask counted room.1) room.2

/-- A client without commits and an empty queue. -/
theorem counted_of_none {client : Client} (noQueue : client.state.unreachedCommits = [])
    (noCommits : ∀ key, client.state.pending key = []) : client.state.Counted where
  reads := by simp [LocalState.QueueReads, noQueue]
  queued key := by simp [LocalState.queued, LocalState.entriesOf, noQueue, UnreachedCommit.total]
  pending key := by simp [noCommits]

/-- In every state of a run, reverts included, a repush whose pushes were all completed has pushed
of every entity as many commits as were queued, as far as they were pending.  Its entries have left
the queue then, if all queued commits were still pending or none was; otherwise those are left that
equal none of the entries in front that the pending commits covered. -/
theorem repush_of_run (client : Client) (noQueue : client.state.unreachedCommits = [])
    (noCommits : ∀ key, client.state.pending key = []) (tasks : List Task)
    (room : client.HasRoomAll tasks) (servers : List Server) (outcomes : List PushOutcome) :
    let reached := client.afterTasks tasks
    let repushed := reached.perform .repush servers
    repushed.1 = .ok (.finished (.repushed outcomes)) →
      (∀ outcome ∈ outcomes, outcome.Completes) → ∀ key : EntityKey,
        let queued := (reached.state.enqueuedCommitCount key.entityName key.id).toNat
        let pending := (reached.state.pending key).length
        (repushed.2.state.pending key).length = pending - queued ∧
          (pending = 0 ∨ queued ≤ pending →
            ∀ entry ∈ repushed.2.state.unreachedCommits, entry.key ≠ key) ∧
          (0 < pending → pending < queued → repushed.2.state.entriesOf key =
            (reached.state.entriesOf key).filter
              (· ∉ UnreachedCommit.covered pending (reached.state.entriesOf key))) := by
  intro reached repushed finished completes key queued pending
  have counted : reached.state.Counted :=
    counted_afterTasks (counted_of_none noQueue noCommits) room
  have isQueued : queued = reached.state.queued key :=
    LocalState.toNat_enqueuedCommitCount (counted.queued key)
  obtain ⟨taken, left⟩ := queued_of_repush counted servers finished completes key
  refine ⟨by rw [isQueued]; exact taken, fun enough entry member isKey => ?_, fun some fewer => ?_⟩
  · have none : repushed.2.state.entriesOf key = [] := by
      refine left.trans (LocalState.leftQueued_eq_nil ?_)
      rw [← isQueued, ← List.length_eq_zero_iff]
      exact enough
    exact List.not_mem_nil (none ▸ LocalState.mem_entriesOf.2 ⟨member, isKey⟩)
  · have retirable : reached.state.retirable key = pending := by
      rw [LocalState.retirable, if_neg (by omega), ← isQueued]
      exact Nat.min_eq_right (Nat.le_of_lt fewer)
    rw [left, LocalState.leftQueued, retirable]

/-- A client that has followed nothing, and pushes all commits at a time. -/
def allAtOnce : Client :=
  .ofStore (.ofState .empty 8) {} ⟨1, 0⟩ default

open Server (noted)

/-- To set the number of the note. -/
def setNumber (number : Int64) : Update :=
  Update.empty.set ⟨["n"]⟩ (.int number)

/-- Two commits are queued while the client is offline, one of them is reverted, and the other one
is pushed when it is online again; then the note is committed to again. -/
def revertedWhileQueued : List Task :=
  [.turn (.call (.follow ⟨"note", "a"⟩) [noted]),
    .turn (.commit ⟨"note", "a"⟩ (setNumber 1)), .turn (.commit ⟨"note", "a"⟩ (setNumber 2)),
    .turn .goOffline, .turn (.call (.push ⟨"note", "a"⟩) []),
    .revert ⟨"note", "a"⟩ [setNumber 2], .turn (.call .goOnline [noted]),
    .turn (.commit ⟨"note", "a"⟩ (setNumber 3))]

theorem hasRoomAll_revertedWhileQueued : allAtOnce.HasRoomAll revertedWhileQueued ∧
    allAtOnce.HasRoomAll (revertedWhileQueued ++
      [.turn (.commit ⟨"note", "a"⟩ (setNumber 4))]) := by
  refine ⟨⟨trivial, ?_, ?_, trivial, trivial, trivial, trivial, ?_, trivial⟩,
    ⟨trivial, ?_, ?_, trivial, trivial, trivial, trivial, ?_, ?_, trivial⟩⟩ <;>
    · change _ + 1 < UInt64.size
      decide +kernel

/-- One commit is pending then and two are queued, and after the repush none is pending. -/
theorem runs_revertedWhileQueued :
    let reached := allAtOnce.afterTasks revertedWhileQueued
    let repushed := reached.perform .repush [notedOnce]
    (reached.state.pending ⟨"note", "a"⟩).length = 1 ∧
      reached.state.unreachedCommits = [⟨"note", "a", 2⟩] ∧
      repushed.1.toOption.bind Progress.finished? = some (.repushed [.synced 1]) ∧
      (repushed.2.state.pending ⟨"note", "a"⟩).length = 0 ∧
      repushed.2.state.unreachedCommits = [⟨"note", "a", 2⟩] := by
  decide +kernel

/-- The repush pushes the one and leaves the entry.  With a second commit the two are covered, and
nothing is left. -/
theorem repush_of_run_revertedWhileQueued :
    (let reached := allAtOnce.afterTasks revertedWhileQueued
      let repushed := reached.perform .repush [notedOnce]
      repushed.1 = .ok (.finished (.repushed [.synced 1])) ∧
        (repushed.2.state.pending ⟨"note", "a"⟩).length = 0 ∧
        repushed.2.state.entriesOf ⟨"note", "a"⟩ = [⟨"note", "a", 2⟩]) ∧
    let reached := allAtOnce.afterTasks (revertedWhileQueued ++
      [.turn (.commit ⟨"note", "a"⟩ (setNumber 4))])
    let repushed := reached.perform .repush [notedOnce]
    repushed.1 = .ok (.finished (.repushed [.synced 2])) ∧
      ∀ entry ∈ repushed.2.state.unreachedCommits, entry.key ≠ ⟨"note", "a"⟩ := by
  let more := revertedWhileQueued ++ [.turn (.commit ⟨"note", "a"⟩ (setNumber 4))]
  obtain ⟨pending, queue, finished, none, _⟩ := runs_revertedWhileQueued
  have fewer := Progress.finished_of_finished? finished
  have entries : (allAtOnce.afterTasks revertedWhileQueued).state.entriesOf ⟨"note", "a"⟩ =
      [⟨"note", "a", 2⟩] := by
    rw [LocalState.entriesOf, queue]
    rfl
  have queued : (allAtOnce.afterTasks revertedWhileQueued).state.enqueuedCommitCount "note" "a" =
      2 := by
    rw [LocalState.enqueuedCommitCount, queue]
    rfl
  obtain ⟨moreFinished, covered⟩ :
      ((allAtOnce.afterTasks more).perform .repush [notedOnce]).1.toOption.bind
        Progress.finished? = some (.repushed [.synced 2]) ∧
      ((allAtOnce.afterTasks more).state.enqueuedCommitCount "note" "a").toNat ≤
        ((allAtOnce.afterTasks more).state.pending ⟨"note", "a"⟩).length := by
    decide +kernel
  have enough := Progress.finished_of_finished? moreFinished
  have completes : ∀ count, ∀ outcome ∈ [PushOutcome.synced count], outcome.Completes :=
    fun count => List.forall_mem_singleton.2 trivial
  obtain ⟨room, moreRoom⟩ := hasRoomAll_revertedWhileQueued
  obtain ⟨_, _, left⟩ := repush_of_run allAtOnce rfl (fun _ => rfl) revertedWhileQueued room
    [notedOnce] _ fewer (completes 1) ⟨"note", "a"⟩
  obtain ⟨_, drained, _⟩ := repush_of_run allAtOnce rfl (fun _ => rfl) more moreRoom [notedOnce] _
    enough (completes 2) ⟨"note", "a"⟩
  refine ⟨⟨fewer, none, ?_⟩, enough, drained (.inr covered)⟩
  rw [left (pending ▸ Nat.one_pos) (by rw [pending, queued]; decide), pending, entries]
  rfl

/-- Where a commit was reverted while two were queued, the entry of the two outlives every repush
that pushes fewer, though each of them is completed and nothing is pending after it. -/
theorem not_drained_of_revertedWhileQueued :
    allAtOnce.state.unreachedCommits = [] ∧ (∀ key, allAtOnce.state.pending key = []) ∧
      let reached := allAtOnce.afterTasks revertedWhileQueued
      let repushed := reached.perform .repush [notedOnce]
      reached.state.unreachedCommits = [⟨"note", "a", 2⟩] ∧
        repushed.1 = .ok (.finished (.repushed [.synced 1])) ∧
        repushed.2.state.pending ⟨"note", "a"⟩ = [] ∧
        repushed.2.state.unreachedCommits = [⟨"note", "a", 2⟩] := by
  obtain ⟨_, queue, finished, none, left⟩ := runs_revertedWhileQueued
  exact ⟨rfl, fun _ => rfl, queue, Progress.finished_of_finished? finished,
    List.length_eq_zero_iff.1 none, left⟩

end Client

end LocalFirst
