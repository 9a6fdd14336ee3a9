import LocalFirst.Proofs.QuietParts
import LocalFirst.Sync.Call

/-!
# What a call waits for

What a call waits for fits the state in which it was left: a push holds the entity as it is stored,
a pull asks for what is newer than the stored version.
-/

namespace LocalFirst

/-- A push of the first commits of an entity as it is stored. -/
def PushJob.Fits (state : LocalState) (job : PushJob) : Prop :=
  ∃ info count, state.find? job.key.entityName job.key.id = some info ∧
    job.versionId = info.versionId ∧ job.origin = info.origin ∧
    job.commits = info.commits.take count

/-- The version that a pull of an entity starts from is the stored one. -/
def PullKind.Fits (state : LocalState) (key : EntityKey) (kind : PullKind) : Prop :=
  ∃ info, state.find? key.entityName key.id = some info ∧
    info.versionId = match kind with
      | .fetch => none
      | .since versionId => some versionId

/-- What a call waits for is in line with the entities of the state. -/
def Flight.Fits (state : LocalState) : Flight → Prop
  | .pull key kind => kind.Fits state key
  | .push job _ => job.Fits state
  | .catchUp job kind _ => kind.Fits state job.key
  | _ => True

/-- A call that waits has its tag among the requests, and waits for what fits. -/
def Progress.Fits (state : LocalState) : Progress → Prop
  | .finished _ => True
  | .waiting suspended =>
      state.isPending suspended.tag = true ∧ suspended.flight.Fits state

/-- A push waits for its answer, or for that of the pull behind it. -/
def Flight.IsPushing : Flight → Prop
  | .push .. | .catchUp .. => True
  | _ => False

/-- A push or repush goes on, and makes at most some more requests. -/
def Progress.Within (bound : Nat) : Progress → Prop
  | .finished _ => True
  | .waiting suspended => suspended.flight.IsPushing ∧ suspended.flight.requestsLeft ≤ bound

/-- The call pushes entities and does nothing else. -/
def Call.IsPush : Call → Prop
  | .push _ | .commitAndPush .. | .repush | .goOnline => True
  | _ => False

/-- What a call may wait for first. -/
def Call.Awaits : Call → Flight → Prop
  | .follow key, flight => flight = .follow key
  | .pull key, flight => ∃ kind, flight = .pull key kind
  | .login _, _ | .logout, _ | .delete _, _ => True
  | _, flight => ∃ job next, flight = .push job next

/-- If a call waits, then for what it may wait for first. -/
def Progress.AwaitedBy (call : Call) : Progress → Prop
  | .finished _ => True
  | .waiting suspended => call.Awaits suspended.flight

theorem Call.IsPush.awaits {call : Call} (isPush : call.IsPush) {flight : Flight} :
    call.Awaits flight ↔ ∃ job next, flight = .push job next := by
  cases call <;> first | exact Iff.rfl | cases isPush

theorem Progress.Within.mono {bound larger : Nat} {progress : Progress}
    (within : progress.Within bound) (le : bound ≤ larger) : progress.Within larger := by
  cases progress with
  | finished => trivial
  | waiting => exact ⟨within.1, Nat.le_trans within.2 le⟩

theorem PushJob.Fits.of_entities {state next : LocalState} {job : PushJob}
    (fits : job.Fits state) (same : next.entities = state.entities) : job.Fits next := by
  simpa only [PushJob.Fits, LocalState.find?, same] using fits

/-- What is pushed is as much of the front of the commits as its length. -/
theorem PushJob.Fits.commits_eq {state : LocalState} {job : PushJob} (fits : job.Fits state) :
    ∃ info, state.find? job.key.entityName job.key.id = some info ∧
      job.commits.length ≤ info.commits.length ∧
      job.commits = info.commits.take job.commits.length := by
  obtain ⟨info, count, found, _, _, commitsEq⟩ := fits
  refine ⟨info, found, ?_⟩
  rw [commitsEq, List.length_take]
  exact ⟨Nat.min_le_right .., by rw [← List.take_eq_take_min]⟩

theorem PullKind.Fits.of_entities {state next : LocalState} {key : EntityKey} {kind : PullKind}
    (fits : kind.Fits state key) (same : next.entities = state.entities) :
    kind.Fits next key := by
  simpa only [PullKind.Fits, LocalState.find?, same] using fits

namespace Client

/-- A push that was sent holds the entity as it is stored. -/
def PushStart.Fits (key : EntityKey) (state : LocalState) : PushStart → Prop
  | .ended outcome => ∀ count, outcome ≠ .synced count
  | .sent tag job => job.key = key ∧ state.isPending tag = true ∧ job.Fits state

theorem gives_pullKind (key : EntityKey) :
    Gives (fun _ => True) (pullKind key) fun kind state => kind.Fits state key := by
  refine (gives_entityInfo key).bind fun info => ?_
  split
  next noVersion => exact gives_pure fun _ found => ⟨info, found, noVersion⟩
  next version => exact gives_pure fun _ found => ⟨info, found, version⟩

theorem gives_sendCommits (key : EntityKey) (limit : Option Nat) :
    Gives (fun _ => True) (sendCommits key limit) fun start state => start.Fits key state := by
  refine quiet_snapshot.thenGives fun before => (gives_entityInfo key).bind fun info => ?_
  let known : EntityMap → Prop := fun entities =>
    LocalState.lookUp entities key.entityName key.id = some info
  dsimp only
  split
  · exact gives_pure fun _ _ count => by simp
  · refine Gives.bind ((quiet_dispatch (by exact trivial)).keeps known) fun _ => ?_
    split
    · exact gives_pure fun _ _ count => by simp
    · have requested : Gives (fun state => known state.entities) openRequest
          fun tag state => known state.entities ∧ state.isPending tag = true :=
        gives_openRequest_of fun _ _ holds same => by rwa [same]
      exact requested.bind fun tag => gives_pure fun state holds =>
        ⟨rfl, holds.2, info, _, holds.1, rfl, rfl, rfl⟩

theorem gives_beginPush (key : EntityKey) (limit : Option Nat) :
    Gives (fun _ => True) (beginPush key limit) fun start state => start.Fits key state := by
  refine quiet_get.thenGives fun client => ?_
  split
  · exact gives_pure fun _ _ count => by simp
  · refine Gives.bind (quiet_claim key) fun _ =>
      Gives.bind ((gives_sendCommits key limit).releaseOnError key) fun start => ?_
    cases start with
    | ended outcome =>
        have released : Gives (fun _ => ∀ count, outcome ≠ .synced count) (release key)
            fun _ _ => ∀ count, outcome ≠ .synced count :=
          fun client ended => ⟨rfl, by rintro _ ⟨⟩, fun _ _ => ended⟩
        exact released.bind fun _ => gives_pure fun _ ended => ended
    | sent tag job => exact gives_pure fun _ fits => fits

/-- What a part of a repush has to keep, so that all repushes have it.  The property may depend on
the entities that are still to be pushed. -/
structure RepushRule (holds : List (EntityKey × UInt64) → ClientM Progress → Prop) : Prop where
  finished (queued : List (EntityKey × UInt64)) (outcomes : List PushOutcome) :
    holds queued (pure (.finished (.repushed outcomes)))
  looks {queued : List (EntityKey × UInt64)} {next : LocalState → ClientM Progress} :
    (∀ state, holds queued (next state)) → holds queued (snapshot >>= next)
  retires {queued : List (EntityKey × UInt64)} {next : ClientM Progress} (key : EntityKey)
    (count : UInt64) : holds queued next → holds queued (retire key count >>= fun _ => next)
  pushes {key : EntityKey} {count : UInt64} {remaining : List (EntityKey × UInt64)}
    {outcomes : List PushOutcome} {next : PushStart → ClientM Progress} :
    (∀ tag job, next (.sent tag job) =
      pure (.waiting ⟨tag, .push job (some ⟨key, count, remaining, outcomes⟩)⟩)) →
    (∀ outcome, holds ((key, count) :: remaining) (next (.ended outcome))) →
    holds ((key, count) :: remaining) (beginPush key (some count.toNat) >>= next)
  later {entry : EntityKey × UInt64} {remaining : List (EntityKey × UInt64)}
    {next : ClientM Progress} : holds remaining next → holds (entry :: remaining) next

section Repushes

variable {holds : List (EntityKey × UInt64) → ClientM Progress → Prop}

theorem RepushRule.afterPush_of (rule : RepushRule holds) (repush : Repush)
    (rest : ∀ outcomes, holds repush.remaining (repushEach outcomes repush.remaining))
    (outcome : PushOutcome) : holds repush.remaining (afterPush outcome (some repush)) := by
  have goesOn : holds repush.remaining
      (if outcome.isQueued then
        pure (.finished (.repushed (repush.outcomes ++ [outcome])))
      else repushEach (repush.outcomes ++ [outcome]) repush.remaining) := by
    split
    · exact rule.finished _ _
    · exact rest _
  unfold Client.afterPush
  dsimp only
  split
  · exact rule.retires _ _ goesOn
  · exact goesOn

theorem RepushRule.repushEach (rule : RepushRule holds) (outcomes : List PushOutcome)
    (queued : List (EntityKey × UInt64)) : holds queued (repushEach outcomes queued) := by
  induction queued generalizing outcomes with
  | nil => exact rule.finished _ _
  | cons entry remaining ih =>
      obtain ⟨key, count⟩ := entry
      unfold Client.repushEach
      refine rule.looks fun state => ?_
      split
      · exact rule.retires _ _ (rule.later (ih _))
      · refine rule.pushes (fun _ _ => rfl) fun outcome => rule.later ?_
        exact rule.afterPush_of ⟨key, count, remaining, outcomes⟩ ih outcome

/-- After a push, a repush goes on with the entities that remain. -/
theorem RepushRule.afterPush (rule : RepushRule holds) (outcome : PushOutcome) (repush : Repush) :
    holds repush.remaining (afterPush outcome (some repush)) :=
  rule.afterPush_of repush (fun _ => rule.repushEach _ _) outcome

end Repushes

theorem repushRule_gives : RepushRule fun queued next =>
    Gives (fun _ => True) next fun progress state =>
      progress.Fits state ∧ progress.Within (2 * queued.length) ∧
        ∀ call : Call, call.IsPush → progress.AwaitedBy call where
  finished queued outcomes := gives_pure fun _ _ => ⟨trivial, trivial, fun _ _ => trivial⟩
  looks rest := quiet_snapshot.thenGives rest
  retires key count rest := (quiet_retire key count).thenGives fun _ => rest
  pushes {key count remaining outcomes next} sends rest := by
    refine Gives.bind (gives_beginPush key _) fun start => ?_
    cases start with
    | sent tag job =>
        rw [sends]
        refine gives_pure fun state fits => ⟨⟨fits.2.1, fits.2.2⟩, ⟨trivial, ?_⟩,
          fun call isPush => isPush.awaits.2 ⟨job, _, rfl⟩⟩
        simp only [Flight.requestsLeft, Flight.requestsLeft.left, List.length_cons]
        omega
    | ended outcome => exact (rest outcome).weaken (fun _ _ => trivial) fun _ _ holds => holds
  later {entry remaining next} holds :=
    holds.weaken (fun _ start => start) fun progress _ ⟨fits, within, waits⟩ =>
      ⟨fits, within.mono (by simp only [List.length_cons]; omega), waits⟩

theorem gives_repushEach (outcomes : List PushOutcome) (queued : List (EntityKey × UInt64)) :
    Gives (fun _ => True) (repushEach outcomes queued) fun progress state =>
      progress.Fits state ∧ progress.Within (2 * queued.length) ∧
        ∀ call : Call, call.IsPush → progress.AwaitedBy call :=
  repushRule_gives.repushEach outcomes queued

/-- After a push, the call goes on with the rest of its repush or ends with the outcome. -/
theorem gives_afterPush (outcome : PushOutcome) (next : Option Repush) :
    Gives (fun _ => True) (afterPush outcome next) fun progress state =>
      progress.Fits state ∧ progress.Within (Flight.requestsLeft.left next) ∧
        (next = none → progress = .finished (.pushed outcome)) := by
  cases next with
  | none => exact gives_pure fun _ _ => ⟨trivial, trivial, fun _ => rfl⟩
  | some repush =>
      exact (repushRule_gives.afterPush outcome repush).weaken (fun _ start => start)
        fun _ _ ⟨fits, within, _⟩ => ⟨fits, within, by simp⟩

/-- A push that has ended at another version waits for a pull, unless that cannot begin. -/
theorem gives_beginCatchUp (job : PushJob) (next : Option Repush) :
    Gives (fun _ => True) (beginCatchUp job next) fun progress state =>
      progress.Fits state ∧ progress.Within (1 + Flight.requestsLeft.left next) ∧
        (next = none → progress = .finished (.pushed (.synced job.commits.length)) ∨
          ∃ tag kind, progress = .waiting ⟨tag, .catchUp job kind none⟩) := by
  refine Gives.bind (Gives.tryCatch ?_ ?_ : Gives _ _ fun begun state =>
    ∀ kind tag, begun = some (kind, tag) → kind.Fits state job.key ∧ state.isPending tag = true)
    fun begun => ?_
  · refine (gives_pullKind job.key).bind fun kind => ?_
    refine (gives_openRequest_of fun _ _ fits same => fits.of_entities same).bind fun tag => ?_
    exact gives_pure fun _ holds _ _ begun => by cases begun; exact holds
  · exact fun _ => gives_pure fun _ _ _ _ begun => by cases begun
  · cases begun with
    | none =>
        refine Gives.weaken (Gives.bind (quiet_release _) fun _ =>
          gives_afterPush (.synced job.commits.length) next) (fun _ _ => trivial) ?_
        exact fun progress state ⟨fits, within, ends⟩ =>
          ⟨fits, within.mono (Nat.le_add_left _ _), fun last => .inl (ends last)⟩
    | some waits =>
        obtain ⟨kind, tag⟩ := waits
        refine gives_pure fun state holds => ?_
        obtain ⟨fits, pending⟩ := holds kind tag rfl
        exact ⟨⟨pending, fits⟩, ⟨trivial, Nat.le_refl _⟩,
          fun last => .inr ⟨tag, kind, by rw [last]⟩⟩

theorem gives_startPush (key : EntityKey) :
    Gives (fun _ => True) (startPush key) fun progress state =>
      (∃ outcome, progress = .finished (.pushed outcome) ∧ ∀ count, outcome ≠ .synced count) ∨
        ∃ tag job, progress = .waiting ⟨tag, .push job none⟩ ∧ job.key = key ∧
          state.isPending tag = true ∧ job.Fits state := by
  refine quiet_get.thenGives fun client => (gives_beginPush key _).bind fun start => ?_
  cases start with
  | ended outcome => exact gives_pure fun _ ended => .inl ⟨outcome, rfl, ended⟩
  | sent tag job => exact gives_pure fun _ fits => .inr ⟨tag, job, rfl, fits⟩

theorem gives_waitFor {flight : Flight} {start : LocalState → Prop}
    (fits : ∀ state next, start state → next.entities = state.entities → flight.Fits next) :
    Gives start (waitFor flight) fun progress state =>
      progress.Fits state ∧ ∃ tag, progress = .waiting ⟨tag, flight⟩ :=
  (gives_openRequest_of fits).bind fun tag =>
    gives_pure fun _ holds => ⟨⟨holds.2, holds.1⟩, tag, rfl⟩

/-- A pull waits for what the server has logged since the stored version. -/
theorem gives_startPull (key : EntityKey) :
    Gives (fun _ => True) (start (.pull key)) fun progress state =>
      progress.Fits state ∧ ∃ tag kind, progress = .waiting ⟨tag, .pull key kind⟩ := by
  refine (gives_pullKind key).bind fun kind => (gives_waitFor ?_).weaken (fun _ holds => holds)
    fun _ _ ⟨fits, tag, waits⟩ => ⟨fits, tag, kind, waits⟩
  exact fun _ _ fits same => PullKind.Fits.of_entities fits same

/-- A call that does not commit leaves the entities as they are until its first answer. -/
theorem gives_start {call : Call} (noCommit : ∀ key operation, call ≠ .commitAndPush key operation) :
    Gives (fun _ => True) (start call) fun progress state =>
      progress.Fits state ∧ progress.AwaitedBy call := by
  have repushes : call.IsPush → Gives (fun _ => True) startRepush fun progress state =>
      progress.Fits state ∧ progress.AwaitedBy call := fun isPush =>
    quiet_snapshot.thenGives fun state =>
      (gives_repushEach _ _).weaken (fun _ holds => holds) fun _ _ ⟨fits, _, waits⟩ =>
        ⟨fits, waits call isPush⟩
  have waits : ∀ flight : Flight, call.Awaits flight → (∀ state, flight.Fits state) →
      Gives (fun _ => True) (waitFor flight) fun progress state =>
        progress.Fits state ∧ progress.AwaitedBy call := fun flight awaits fits =>
    (gives_waitFor fun _ next _ _ => fits next).weaken (fun _ holds => holds)
      fun _ _ ⟨fits, _, waiting⟩ => ⟨fits, waiting ▸ awaits⟩
  cases call with
  | follow key => exact waits (.follow key) rfl fun _ => trivial
  | delete key => exact waits (.delete key) trivial fun _ => trivial
  | login command => exact waits (.login command) trivial fun _ => trivial
  | push key =>
      refine (gives_startPush key).weaken (fun _ holds => holds) fun progress state waits => ?_
      obtain ⟨_, rfl, _⟩ | ⟨_, job, rfl, _, fits⟩ := waits
      · exact ⟨trivial, trivial⟩
      · exact ⟨fits, job, none, rfl⟩
  | pull key =>
      exact (gives_startPull key).weaken (fun _ holds => holds)
        fun _ _ ⟨fits, _, kind, waiting⟩ => ⟨fits, waiting ▸ ⟨kind, rfl⟩⟩
  | commitAndPush key operation => exact absurd rfl (noCommit key operation)
  | repush => exact repushes trivial
  | goOnline => exact (quiet_dispatch (by exact trivial)).thenGives fun _ => repushes trivial
  | logout =>
      refine quiet_snapshot.thenGives fun state => ?_
      split
      · exact gives_pure fun _ _ => ⟨trivial, trivial⟩
      next session _ => exact waits (.logout session) trivial fun _ => trivial

end Client

end LocalFirst
