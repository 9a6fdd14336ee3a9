import LocalFirst.Proofs.ClientSteps

/-!
# The actions of calls

A client changes its state by dispatching actions, and of these a call dispatches only some: it
commits nothing but what it was given to commit, and it never reverts or overwrites.  What such
actions keep, every part of a call keeps, whether it succeeds or fails, and whatever it is answered.
-/

namespace LocalFirst

namespace Action

/-- The action is one that a call dispatches of its own accord. -/
def OfCalls : Action → Prop
  | .replace _ | .reset | .assign _ | .clear _ | .commit .. | .revert .. | .followAll ..
  | .resolveError => False
  | _ => True

/-- What holds of a state holds after every action of a call as well. -/
def Keep (holds : LocalState → Prop) : Prop :=
  ∀ (action : Action) (now : Instant) (state next : LocalState), action.OfCalls → holds state →
    action.reduce now state = .ok next → holds next

end Action

namespace Client

variable {α β : Type} {holds : LocalState → Prop}

/-- What holds of a state holds after a part of a call as well. -/
def Retains (holds : LocalState → Prop) (call : ClientM α) : Prop :=
  ∀ client : Client, holds client.state → holds (client.run call).2.state

theorem retains_pure (value : α) : Retains holds (pure value) :=
  fun _ before => before

theorem retains_throw (error : ClientError) : Retains holds (throw error : ClientM α) :=
  fun _ before => before

theorem retains_get : Retains holds get :=
  fun _ before => before

theorem retains_snapshot : Retains holds snapshot :=
  fun _ before => before

theorem retains_claim (key : EntityKey) : Retains holds (claim key) :=
  fun _ before => before

theorem retains_release (key : EntityKey) : Retains holds (release key) :=
  fun _ before => before

theorem Retains.bind {first : ClientM α} {next : α → ClientM β} (retains : Retains holds first)
    (rest : ∀ value, Retains holds (next value)) : Retains holds (first >>= next) := by
  intro client before
  have between := retains client before
  rw [run_bind]
  rcases ran : client.run first with ⟨error | value, after⟩ <;> rw [ran] at between
  · exact between
  · exact rest value after between

theorem Retains.tryCatch {first : ClientM α} {handler : ClientError → ClientM α}
    (retains : Retains holds first) (rest : ∀ error, Retains holds (handler error)) :
    Retains holds (tryCatch first handler) := by
  intro client before
  have between := retains client before
  rw [run_tryCatch]
  rcases ran : client.run first with ⟨error | value, after⟩ <;> rw [ran] at between
  · exact rest error after between
  · exact between

theorem Retains.releaseOnError {call : ClientM α} (retains : Retains holds call)
    (key : EntityKey) : Retains holds (releaseOnError key call) :=
  retains.tryCatch fun _ => (retains_release key).bind fun _ => retains_throw _

theorem retains_entityInfo (key : EntityKey) : Retains holds (entityInfo key) := by
  refine retains_snapshot.bind fun state => ?_
  split
  · exact retains_pure _
  · exact retains_throw _

theorem retains_pullKind (key : EntityKey) : Retains holds (pullKind key) := by
  refine (retains_entityInfo key).bind fun info => ?_
  split <;> exact retains_pure _

theorem retains_dispatch_of {action : Action}
    (keeps : ∀ now state next, holds state → action.reduce now state = .ok next → holds next) :
    Retains holds (dispatch action) := by
  intro client before
  rcases run_dispatch client action with
    ⟨_, reduced, _, ran, rfl⟩ | ⟨_, _, _, ran, same⟩ <;> rw [ran]
  · exact keeps _ _ _ before reduced
  · rwa [same]

section Kept

variable (kept : Action.Keep holds)

include kept

theorem retains_dispatch {action : Action} (ofCalls : action.OfCalls) :
    Retains holds (dispatch action) :=
  retains_dispatch_of fun now state next => kept action now state next ofCalls

theorem retains_openRequest : Retains holds openRequest := by
  have issued : Retains holds freshId := fun _ before => before
  exact issued.bind fun _ =>
    (retains_dispatch kept (by exact trivial)).bind fun _ => retains_pure _

theorem retains_closeRequest (tag : String) : Retains holds (closeRequest tag) := by
  refine retains_snapshot.bind fun state => ?_
  split
  · exact (retains_dispatch kept (by exact trivial)).bind fun _ => retains_pure _
  · exact retains_pure _

theorem retains_recordFailure (tag : String) (error : RemoteError) :
    Retains holds (recordFailure tag error) := by
  unfold recordFailure
  split <;> exact retains_dispatch kept (by exact trivial)

theorem retains_fail (tag : String) (error : RemoteError) :
    Retains holds (fail tag error : ClientM α) :=
  (retains_recordFailure kept tag error).bind fun _ => retains_throw _

theorem retains_retire (key : EntityKey) (count : UInt64) : Retains holds (retire key count) := by
  have entries : ∀ (entries : List UnreachedCommit) (remaining : UInt64),
      Retains holds (retireEntries remaining entries) := by
    intro entries
    induction entries with
    | nil => exact fun _ => retains_pure _
    | cons entry rest ih =>
        intro remaining
        rw [retireEntries]
        split
        · exact retains_pure _
        · exact (retains_dispatch kept (by exact trivial)).bind fun _ => ih _
  exact retains_snapshot.bind fun _ => entries _ _

theorem retains_unfollowIfFollowed (key : EntityKey) :
    Retains holds (unfollowIfFollowed key) := by
  refine retains_snapshot.bind fun state => ?_
  split
  · exact retains_dispatch kept (by exact trivial)
  · exact retains_pure _

theorem retains_applyVersionDiff (diff : VersionDiff) :
    Retains holds (applyVersionDiff diff) := by
  refine retains_snapshot.bind fun state => ?_
  split
  · exact retains_pure _
  split
  · exact retains_throw _
  · exact retains_pure _
  · exact (retains_dispatch kept (by exact trivial)).bind fun _ => retains_pure _

theorem retains_waitFor (flight : Flight) : Retains holds (waitFor flight) :=
  (retains_openRequest kept).bind fun _ => retains_pure _

theorem retains_sendCommits (key : EntityKey) (limit : Option Nat) :
    Retains holds (sendCommits key limit) := by
  refine retains_snapshot.bind fun state => (retains_entityInfo key).bind fun info => ?_
  dsimp only
  split
  · exact retains_pure _
  refine (retains_dispatch kept (by exact trivial)).bind fun _ => ?_
  split
  · exact retains_pure _
  · exact (retains_openRequest kept).bind fun _ => retains_pure _

theorem retains_beginPush (key : EntityKey) (limit : Option Nat) :
    Retains holds (beginPush key limit) := by
  refine retains_get.bind fun client => ?_
  split
  · exact retains_pure _
  refine (retains_claim key).bind fun _ =>
    ((retains_sendCommits kept key limit).releaseOnError key).bind fun start => ?_
  cases start with
  | ended outcome => exact (retains_release key).bind fun _ => retains_pure _
  | sent tag job => exact retains_pure _

theorem repushRule_retains : RepushRule fun _ next => Retains holds next where
  finished _ _ := retains_pure _
  looks rest := retains_snapshot.bind rest
  retires key count rest := (retains_retire kept key count).bind fun _ => rest
  pushes sends rest := by
    refine (retains_beginPush kept _ _).bind fun start => ?_
    cases start with
    | ended outcome => exact rest outcome
    | sent tag job =>
        rw [sends]
        exact retains_pure _
  later rest := rest

theorem retains_afterPush (outcome : PushOutcome) (next : Option Repush) :
    Retains holds (afterPush outcome next) := by
  cases next with
  | none => exact retains_pure _
  | some repush => exact (repushRule_retains kept).afterPush outcome repush

theorem retains_beginCatchUp (job : PushJob) (next : Option Repush) :
    Retains holds (beginCatchUp job next) := by
  have begins : Retains holds (do
      let kind ← pullKind job.key
      let tag ← openRequest
      pure (some (kind, tag))) :=
    (retains_pullKind job.key).bind fun _ =>
      (retains_openRequest kept).bind fun _ => retains_pure _
  refine Retains.bind (begins.tryCatch fun _ => retains_pure none) fun begun => ?_
  cases begun with
  | none => exact (retains_release job.key).bind fun _ => retains_afterPush kept _ next
  | some waits => exact retains_pure _

theorem retains_startPush (key : EntityKey) : Retains holds (startPush key) := by
  refine retains_get.bind fun client => (retains_beginPush kept key _).bind fun start => ?_
  cases start <;> exact retains_pure _

theorem retains_startRepush : Retains holds startRepush :=
  retains_snapshot.bind fun _ => (repushRule_retains kept).repushEach [] _

/-- Until its first answer, a call that does not commit retains what its actions keep. -/
theorem retains_start {call : Call}
    (noCommit : ∀ key operation, call ≠ .commitAndPush key operation) :
    Retains holds (start call) := by
  cases call with
  | follow | delete | login => exact retains_waitFor kept _
  | push key => exact retains_startPush kept key
  | pull key => exact (retains_pullKind key).bind fun _ => retains_waitFor kept _
  | commitAndPush key operation => exact absurd rfl (noCommit key operation)
  | repush => exact retains_startRepush kept
  | goOnline =>
      exact (retains_dispatch kept (by exact trivial)).bind fun _ => retains_startRepush kept
  | logout =>
      refine retains_snapshot.bind fun state => ?_
      split
      · exact retains_pure _
      · exact retains_waitFor kept _

/-- An answer is settled by a part of a call when it is still awaited. -/
theorem Retains.awaited {settle : ClientM Unit} (retains : Retains holds settle) (tag : String) :
    Retains holds (do if ← closeRequest tag then settle) := by
  refine (retains_closeRequest kept tag).bind fun awaited => ?_
  cases awaited with
  | true => exact retains
  | false => exact retains_pure _

theorem retains_settlePull (key : EntityKey) (tag : String) (kind : PullKind)
    (response : (kind.request key).Response) :
    Retains holds (settlePull key tag kind response) := by
  cases kind <;> refine Retains.awaited kept ?_ tag <;> cases response <;>
    first | exact retains_fail kept _ _ | exact retains_dispatch kept (by exact trivial)

theorem retains_settlePush (job : PushJob) (tag : String)
    (response : Except RemoteError PushCommand) :
    Retains holds (settlePush job tag response) := by
  refine (retains_closeRequest kept tag).bind fun awaited => ?_
  split
  · exact retains_pure _
  dsimp only
  cases response with
  | ok command =>
      refine (retains_entityInfo job.key).bind fun info => ?_
      split <;>
        exact (retains_dispatch kept (by exact trivial)).bind fun _ =>
          (retains_retire kept _ _).bind fun _ => retains_pure _
  | error error =>
      cases error with
      | network message =>
          exact (retains_recordFailure kept tag _).bind fun _ => retains_pure _
      | rejected error =>
          exact (retains_retire kept _ _).bind fun _ => retains_fail kept tag _

/-- Whatever a call is answered, it retains what its actions keep. -/
theorem retains_resume (tag : String) (flight : Flight) (response : flight.request.Response) :
    Retains holds (resume tag flight response) := by
  cases flight with
  | follow key =>
      exact (retains_settlePull kept key tag .fetch response).bind fun _ => retains_pure _
  | pull key kind =>
      exact (retains_settlePull kept key tag kind response).bind fun _ => retains_pure _
  | login command =>
      refine Retains.bind (Retains.awaited kept ?_ tag) fun _ => retains_pure _
      cases response with
      | ok answer => exact retains_dispatch kept (by exact trivial)
      | error error => exact retains_fail kept tag error
  | logout session =>
      refine Retains.bind (Retains.awaited kept ?_ tag) fun _ => retains_pure _
      cases response with
      | error error => exact retains_fail kept tag error
      | ok done =>
          refine (retains_dispatch kept (by exact trivial)).bind fun _ => ?_
          split
          · exact retains_unfollowIfFollowed kept _
          · exact retains_pure _
  | delete key =>
      refine Retains.bind (Retains.awaited kept ?_ tag) fun _ => retains_pure _
      cases response with
      | ok done => exact retains_unfollowIfFollowed kept key
      | error error => exact retains_fail kept tag error
  | push job next =>
      refine ((retains_settlePush kept job tag response).releaseOnError job.key).bind
        fun settled => ?_
      cases settled with
      | moved => exact retains_beginCatchUp kept job next
      | ended outcome => exact (retains_release job.key).bind fun _ => retains_afterPush kept _ next
  | catchUp job kind next =>
      refine Retains.bind ((retains_settlePull kept job.key tag kind response).tryCatch
        fun _ => retains_pure _) fun _ => ?_
      exact (retains_release job.key).bind fun _ => retains_afterPush kept _ next

end Kept

end Client

end LocalFirst
