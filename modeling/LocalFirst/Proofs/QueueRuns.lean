import LocalFirst.Proofs.LoneCalls
import LocalFirst.Proofs.Scenes
import LocalFirst.Proofs.ServerLog

/-!
# The queue in runs of calls

A client performs one call after another.  Each call sends its requests to a server that may be
another one each time.  In every state that is reached, the queue holds no more commits of an entity
than are pending, nor more than a push may send, as long as no document is fetched for an entity
with pending commits.  After a push that was answered, nothing of its entity is queued.
-/

namespace LocalFirst

namespace Client

variable {limit : Option Nat} {ceiling : EntityKey → Option Nat}

/-- What a client does in one turn, before anything else happens. -/
inductive Turn where
  | call (call : Call) (servers : List Server)
  | commit (key : EntityKey) (operation : Update)
  | goOffline
  | applyVersionDiff (diff : VersionDiff)
  | wake (now : Instant)

def after (client : Client) : Turn → Client
  | .call call servers => (client.perform call servers).2
  | .commit key operation => (client.run (commit key operation)).2
  | .goOffline => (client.run goOffline).2
  | .applyVersionDiff diff => (client.run (applyVersionDiff diff)).2
  | .wake now => { client with clock := now }

def afterAll (client : Client) (turns : List Turn) : Client :=
  turns.foldl after client

/-- The calls are those that follow, push and pull.  What they fetch holds no id of an entity with
pending commits; a pull fetches where no version is known.  The commits of an entity can be counted
in a word. -/
def Allows (client : Client) : Turn → Prop
  | .call (.follow key) servers =>
      ∀ server ∈ servers.head?, client.state.TakesIn key.entityName (server.get key)
  | .call (.pull key) servers =>
      ∀ info, client.state.find? key.entityName key.id = some info → info.versionId = none →
        ∀ server ∈ servers.head?, client.state.TakesIn key.entityName (server.get key)
  | .call (.push _) _ | .call .repush _ | .call .goOnline _ => True
  | .call _ _ => False
  | .commit key _ => (client.state.pending key).length + 1 < UInt64.size
  | _ => True

def AllowsAll (client : Client) : List Turn → Prop
  | [] => True
  | turn :: rest => client.Allows turn ∧ (client.after turn).AllowsAll rest

theorem tallies_commit (key : EntityKey) (operation : Update) :
    Tallies limit ceiling (fun state => (state.pending key).length + 1 < UInt64.size)
      (commit key operation) fun _ _ => True := by
  refine tallies_dispatch (by exact trivial) (by rintro ⟨⟩) ?_
  intro client next tallied space reduced other
  have covered := tallied.covered other
  have fits := tallied.fits other
  rw [LocalState.length_pending_of_commit reduced]
  split
  next same =>
    subst same
    exact ⟨Nat.le_trans covered (Nat.le_add_right _ _), space⟩
  · exact ⟨covered, fits⟩

theorem tallies_applyVersionDiff (diff : VersionDiff) :
    Tallies limit ceiling (fun _ => True) (applyVersionDiff diff) fun _ _ => True := by
  refine spares_snapshot.thenTallies fun state => ?_
  split
  · exact tallies_pure fun _ _ => trivial
  split
  · exact (spares_throw _).keepsTally
  · exact tallies_pure fun _ _ => trivial
  · exact (tallies_dispatch_of_length (by exact trivial) (by rintro ⟨⟩)
      fun _ _ _ => LocalState.length_pending_of_patch).bind fun _ => tallies_pure fun _ _ => trivial

/-- Whatever a client does in a turn, its queue stays tallied. -/
theorem Tallied.after {client : Client} (tallied : Tallied limit (fun _ => limit) client)
    {turn : Turn} (allowed : client.Allows turn) :
    Tallied limit (fun _ => limit) (client.after turn) := by
  cases turn with
  | call call servers =>
      cases call with
      | follow key => exact tallied_performFollow tallied allowed
      | pull key => exact tallied_performPull tallied allowed
      | push key => exact (((tallies_startPush key).stands tallied).answered servers).tallied
      | repush => exact tallied_performRepush tallied servers
      | goOnline => exact tallied_performGoOnline tallied servers
      | delete | commitAndPush | login | logout => exact allowed.elim
  | commit key operation => exact (tallies_commit key operation client tallied allowed).1
  | goOffline => exact tallied.alike (spares_dispatch (by exact trivial) (by rintro ⟨⟩) client)
  | applyVersionDiff diff => exact (tallies_applyVersionDiff diff client tallied trivial).1
  | wake now => exact tallied.alike ⟨rfl, rfl, rfl⟩

theorem Tallied.afterAll {client : Client} (tallied : Tallied limit (fun _ => limit) client)
    {turns : List Turn} (allowed : client.AllowsAll turns) :
    Tallied limit (fun _ => limit) (client.afterAll turns) := by
  induction turns generalizing client with
  | nil => exact tallied
  | cons turn rest ih => exact ih (tallied.after allowed.1) allowed.2

/-- A client without commits and an empty queue. -/
theorem tallied_of_none {client : Client} (noQueue : client.state.unreachedCommits = [])
    (noCommits : ∀ key, client.state.pending key = []) :
    Tallied client.maxPushBatch (fun _ => client.maxPushBatch) client := by
  have nothing : ∀ key, client.state.queued key = 0 := fun key => by
    simp [LocalState.queued, LocalState.entriesOf, noQueue, UnreachedCommit.total]
  exact {
    config := rfl
    reads := by simp [LocalState.QueueReads, noQueue]
    covered := by simp [nothing]
    bounded := by simp [nothing]
    fits := by simp [noCommits] }

/-- In every state of a run, no more commits of an entity are queued than are pending, nor more
than a push may send; and after a push of it that was acknowledged or refused, none is queued. -/
theorem queued_of_run (client : Client) (noQueue : client.state.unreachedCommits = [])
    (noCommits : ∀ key, client.state.pending key = []) (turns : List Turn)
    (allowed : client.AllowsAll turns) :
    let reached := client.afterAll turns
    (∀ key : EntityKey,
      let enqueued := (reached.state.enqueuedCommitCount key.entityName key.id).toNat
      enqueued ≤ (reached.state.pending key).length ∧
        ∀ bound, client.maxPushBatch = some bound → enqueued ≤ bound) ∧
    ∀ key servers,
      let pushed := reached.perform (.push key) servers
      (∃ count, pushed.1 = .ok (.finished (.pushed (.synced count)))) ∨
          (∃ error, pushed.1 = .error (.remote error)) →
        ∀ entry ∈ pushed.2.state.unreachedCommits, entry.key ≠ key := by
  intro reached
  have tallied := (tallied_of_none noQueue noCommits).afterAll allowed
  refine ⟨fun key => ?_, fun key servers => ?_⟩
  · have fits : reached.state.queued key < UInt64.size :=
      Nat.lt_of_le_of_lt (tallied.covered key) (tallied.fits key)
    intro enqueued
    rw [show enqueued = _ from LocalState.toNat_enqueuedCommitCount fits]
    exact ⟨tallied.covered key, tallied.bounded key⟩
  · intro pushed answered entry member isKey
    have none : pushed.2.state.entriesOf key = [] := entriesOf_of_push tallied key servers answered
    have listed := LocalState.mem_entriesOf.2 ⟨member, isKey⟩
    rw [none] at listed
    cases listed

/-- A client that has followed nothing, and pushes one commit at a time. -/
def oneByOne : Client :=
  .ofStore (.ofState .empty 8) { maxPushBatch := some 1 } ⟨1, 0⟩ default

open Server (note noted noteEdits)

/-- The server with the note when it cannot be reached. -/
def away : Server :=
  { noted with isReachable := false }

/-- The client commits twice, pushes when the server is away, and then when it is back. -/
def awayAndBack : List Turn :=
  [.call (.follow ⟨"note", "a"⟩) [noted],
    .commit ⟨"note", "a"⟩ (Update.empty.set ⟨["n"]⟩ (.int 1)),
    .commit ⟨"note", "a"⟩ (Update.empty.set ⟨["n"]⟩ (.int 2)),
    .call (.push ⟨"note", "a"⟩) [away],
    .call .goOnline [noted]]

theorem allowsAll_awayAndBack : oneByOne.AllowsAll awayAndBack := by
  refine ⟨?_, ?_, ?_, trivial, trivial, trivial⟩
  · rintro _ ⟨⟩ fetched _ id _
    rfl
  · change _ + 1 < UInt64.size
    decide +kernel
  · change _ + 1 < UInt64.size
    decide +kernel

/-- The server when it has logged the first commit. -/
def notedOnce : Server :=
  (noted.answer (.push (noteEdits [1]))).2.2

/-- One commit is left then; it is queued, pushed and not queued any more. -/
theorem queued_of_run_awayAndBack :
    oneByOne.state.unreachedCommits = [] ∧ (∀ key, oneByOne.state.pending key = []) ∧
      oneByOne.AllowsAll awayAndBack ∧
      let reached := oneByOne.afterAll awayAndBack
      ((reached.state.enqueuedCommitCount "note" "a").toNat ≤
          (reached.state.pending ⟨"note", "a"⟩).length ∧
        (reached.state.enqueuedCommitCount "note" "a").toNat ≤ 1) ∧
      let pushed := reached.perform (.push ⟨"note", "a"⟩) [notedOnce]
      pushed.1 = .ok (.finished (.pushed (.synced 1))) ∧
        ∀ entry ∈ pushed.2.state.unreachedCommits, entry.key ≠ ⟨"note", "a"⟩ := by
  have noCommits : ∀ key, oneByOne.state.pending key = [] := fun _ => rfl
  obtain ⟨counts, empties⟩ :=
    queued_of_run oneByOne rfl noCommits awayAndBack allowsAll_awayAndBack
  have synced : ((oneByOne.afterAll awayAndBack).perform (.push ⟨"note", "a"⟩) [notedOnce]).1 =
      .ok (.finished (.pushed (.synced 1))) := Progress.finished_of_finished? (by decide +kernel)
  exact ⟨rfl, noCommits, allowsAll_awayAndBack,
    ⟨(counts ⟨"note", "a"⟩).1, (counts ⟨"note", "a"⟩).2 1 rfl⟩,
    synced, empties ⟨"note", "a"⟩ [notedOnce] (.inl ⟨1, synced⟩)⟩

/-- A client that holds the note, but no version of it. -/
def versionless : Client :=
  .ofStore (.ofState { LocalState.empty with
    entities := NameMap.put "note" (NameMap.put "a" (.clean note none) Keyed.empty) Keyed.empty } 8)
    {} ⟨1, 0⟩ default

theorem pending_versionless (key : EntityKey) : versionless.state.pending key = [] := by
  obtain ⟨entityName, id⟩ := key
  by_cases known : entityName = "note" ∧ id = "a"
  · obtain ⟨rfl, rfl⟩ := known
    rfl
  · refine LocalState.pending_of_unknown ((LocalState.lookUp_put _ _ _ _ _).trans ?_)
    split
    next named => exact NameMap.get?_put_of_ne (fun isId => known ⟨named, isId⟩) _ _
    · rfl

/-- What it has committed is queued, and then it fetches the note. -/
def refetching : List Turn :=
  [.commit ⟨"note", "a"⟩ (Update.empty.set ⟨["n"]⟩ (.int 1)),
    .call (.push ⟨"note", "a"⟩) [away], .call (.pull ⟨"note", "a"⟩) [noted]]

/-- A server with an entity whose document has taken the id of the note. -/
def renamed : Server :=
  { Server.empty with
    entities := Keyed.empty.insert (⟨"note", "b"⟩, ⟨note, [⟨IdSource.identifier 0 0, none⟩]⟩)
    ids := ⟨0, 1⟩ }

/-- What a client has committed to the note is queued. -/
def unreached : List Turn :=
  [.call (.follow ⟨"note", "a"⟩) [noted],
    .commit ⟨"note", "a"⟩ (Update.empty.set ⟨["n"]⟩ (.int 1)),
    .call (.push ⟨"note", "a"⟩) [away]]

/-- Where an entity with pending commits is fetched, they go away and their entry stays: in a pull
without a version, and when another entity is followed whose document has taken its id. -/
theorem overcounted_of_fetch :
    (versionless.state.unreachedCommits = [] ∧ (∀ key, versionless.state.pending key = []) ∧
      let reached := versionless.afterAll refetching
      reached.state.hasEntity "note" "a" = true ∧
        (reached.state.pending ⟨"note", "a"⟩).length = 0 ∧
        reached.state.enqueuedCommitCount "note" "a" = 1) ∧
    (oneByOne.state.unreachedCommits = [] ∧ (∀ key, oneByOne.state.pending key = []) ∧
      let before := oneByOne.afterAll unreached
      let reached := before.after (.call (.follow ⟨"note", "b"⟩) [renamed])
      (before.state.pending ⟨"note", "b"⟩).length = 0 ∧
        reached.state.hasEntity "note" "a" = true ∧
        (reached.state.pending ⟨"note", "a"⟩).length = 0 ∧
        reached.state.enqueuedCommitCount "note" "a" = 1) := by
  refine ⟨⟨rfl, pending_versionless, ?_⟩, rfl, fun _ => rfl, ?_⟩ <;> decide +kernel

end Client

end LocalFirst
