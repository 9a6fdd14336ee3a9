import LocalFirst.Proofs.Footprint
import LocalFirst.Proofs.QuietParts
import LocalFirst.Proofs.ReachedState
import LocalFirst.Sync.Call

/-!
# The books of a client

The books of a client are the recorded requests and the marked entities.  A part of a call keeps
them, opens a round trip or leaves with one, and parts that follow one another add up.
-/

namespace LocalFirst

/-- The entities that a suspended call has marked. -/
def Flight.claims : Flight → List EntityKey
  | .push job _ | .catchUp job _ _ => [job.key]
  | _ => []

/-- What a part of a call leaves open: recorded requests, and marked entities. -/
structure Opening where
  tags : List String
  claims : List EntityKey

def Opening.none : Opening :=
  ⟨[], []⟩

def Suspended.opening (suspended : Suspended) : Opening :=
  ⟨[suspended.tag], suspended.flight.claims⟩

def Progress.opening : Progress → Opening
  | .finished _ => .none
  | .waiting suspended => suspended.opening

/-- The action does not record a request, nor take one out. -/
def Action.KeepsRequests : Action → Prop
  | .replace _ | .reset | .assign _ | .networkRequest _ | .removeNetworkRequest _ => False
  | _ => True

theorem Action.KeepsRequests.incremental {action : Action} (keeps : action.KeepsRequests) :
    action.Incremental := by
  cases action <;> first | exact keeps | trivial

theorem LocalState.requests_of_reduce {now : Instant} {state next : LocalState} {action : Action}
    (keeps : action.KeepsRequests) (reduced : action.reduce now state = .ok next) :
    next.network.requests = state.network.requests := by
  have untouched : ¬ action.ReachesField .network →
      next.network.requests = state.network.requests := fun outside => by
    have same : next.network = state.network := same_of_reduce outside reduced
    rw [same]
  cases action
  case replace | reset | assign | networkRequest | removeNetworkRequest => exact keeps.elim
  case online => rw [reduce_online reduced]
  case offline => rw [reduce_offline reduced]
  all_goals exact untouched (by rintro ⟨⟩)

namespace Client

variable {α β : Type}

/-- The requests that a client has recorded. -/
abbrev requests (client : Client) : List String :=
  client.state.network.requests

/-- A push that was sent has recorded its request and marked its entity. -/
def PushStart.opening : PushStart → Opening
  | .ended _ => .none
  | .sent tag job => ⟨[tag], [job.key]⟩

/-- Later, a client has recorded requests behind those that it had, under new tags, and marked
entities that were not marked. -/
structure Opened (before : Client) (opening : Opening) (after : Client) : Prop where
  requests : after.requests = before.requests ++ opening.tags
  claims : after.inFlight.Perm (opening.claims ++ before.inFlight)
  unclaimed : ∀ key ∈ opening.claims, key ∉ before.inFlight
  node : after.ids.node = before.ids.node
  issued : before.ids.issued ≤ after.ids.issued
  fresh : ∀ tag ∈ opening.tags, ∃ count, tag = IdSource.identifier before.ids.node count ∧
    before.ids.issued ≤ count ∧ count < after.ids.issued
  reads : before.state.QueueReads ∨ opening.tags ≠ [] → after.state.QueueReads

/-- Later, the books are the same. -/
abbrev Steady (before after : Client) : Prop :=
  Opened before .none after

theorem steady_of_same {before after : Client} (state : after.state = before.state)
    (inFlight : after.inFlight = before.inFlight) (node : after.ids.node = before.ids.node)
    (issued : before.ids.issued ≤ after.ids.issued) : Steady before after where
  requests := by simp [Opening.none, requests, state]
  claims := by simp [Opening.none, inFlight]
  unclaimed := by simp [Opening.none]
  node := node
  issued := issued
  fresh := by simp [Opening.none]
  reads holds := by simpa [Opening.none, state] using holds

theorem Steady.refl (client : Client) : Steady client client :=
  steady_of_same rfl rfl rfl (Nat.le_refl _)

/-- What is opened after the books have stayed the same was not open before. -/
theorem Steady.trans_opened {before between after : Client} {opening : Opening}
    (steady : Steady before between) (opened : Opened between opening after) :
    Opened before opening after where
  requests := by rw [opened.requests, steady.requests, Opening.none, List.append_nil]
  claims := opened.claims.trans (steady.claims.append_left _)
  unclaimed key member marked := opened.unclaimed key member (steady.claims.mem_iff.2 marked)
  node := opened.node.trans steady.node
  issued := Nat.le_trans steady.issued opened.issued
  fresh tag member := by
    obtain ⟨count, isTag, above, below⟩ := opened.fresh tag member
    exact ⟨count, steady.node ▸ isTag, Nat.le_trans steady.issued above, below⟩
  reads holds := opened.reads (holds.imp_left fun queue => steady.reads (.inl queue))

/-- The client with the mark of an entity removed. -/
def releasing (client : Client) (key : EntityKey) : Client :=
  { client with inFlight := client.inFlight.erase key }

/-- The client with a request taken out. -/
def closing (client : Client) (tag : String) : Client :=
  let network := { client.state.network with requests := client.requests.erase tag }
  { client with store := { client.store with state := { client.state with network := network } } }

/-- The client with a round trip taken out of its books. -/
def without (client : Client) (suspended : Suspended) : Client :=
  suspended.flight.claims.foldl releasing (client.closing suspended.tag)

theorem Steady.releasing {before after : Client} (steady : Steady before after) (key : EntityKey) :
    Steady (before.releasing key) (after.releasing key) where
  requests := steady.requests
  claims := List.Perm.erase key steady.claims
  unclaimed := by simp [Opening.none]
  node := steady.node
  issued := steady.issued
  fresh := steady.fresh
  reads := steady.reads

/-- What an outcome leaves open; an error leaves nothing. -/
def left (opening : α → Opening) : Except ClientError α → Opening
  | .ok value => opening value
  | .error _ => .none

/-- A client that had the books of another has come to an outcome. -/
def Leaves (before : Client) (opening : α → Opening) (outcome : Except ClientError α × Client) :
    Prop :=
  Opened before (left opening outcome.1) outcome.2

/-- From any client, a part of a call leaves open what goes with the value it gives. -/
def Opens (call : ClientM α) (opening : α → Opening) : Prop :=
  ∀ client : Client, Leaves client opening (client.run call)

/-- A part of a call that leaves the books as they are. -/
abbrev Keeps (call : ClientM α) : Prop :=
  Opens call fun _ => .none

theorem left_none (result : Except ClientError α) : left (fun _ => .none) result = .none := by
  cases result <;> rfl

theorem Leaves.steady {before : Client} {outcome : Except ClientError α × Client}
    (leaves : Leaves before (fun _ => .none) outcome) : Steady before outcome.2 := by
  rwa [Leaves, left_none] at leaves

theorem Steady.leaves {before : Client} {outcome : Except ClientError α × Client}
    (steady : Steady before outcome.2) : Leaves before (fun _ => .none) outcome := by
  rwa [Leaves, left_none]

theorem Steady.trans_leaves {before between : Client} {opening : α → Opening}
    {outcome : Except ClientError α × Client} (steady : Steady before between)
    (leaves : Leaves between opening outcome) : Leaves before opening outcome :=
  Steady.trans_opened steady leaves

theorem opens_pure {value : α} {opening : α → Opening} (nothing : opening value = .none) :
    Opens (pure value) opening := fun client => by
  rw [run_pure, Leaves, left, nothing]
  exact Steady.refl client

theorem keeps_pure (value : α) : Keeps (pure value) :=
  opens_pure rfl

theorem opens_throw (error : ClientError) (opening : α → Opening) :
    Opens (throw error) opening :=
  fun client => Steady.refl client

/-- A part that keeps the books, in front of another one. -/
theorem Leaves.bind {before client : Client} {first : ClientM α} {next : α → ClientM β}
    {opening : β → Opening} (leaves : Leaves before (fun _ => .none) (client.run first))
    (rest : ∀ value, Opens (next value) opening) :
    Leaves before opening (client.run (first >>= next)) := by
  have steady := leaves.steady
  rw [run_bind]
  rcases ran : client.run first with ⟨error | value, between⟩
  · rwa [ran] at steady
  · rw [ran] at steady
    exact steady.trans_leaves (rest value between)

theorem Keeps.bind {first : ClientM α} {next : α → ClientM β} {opening : β → Opening}
    (keeps : Keeps first) (rest : ∀ value, Opens (next value) opening) :
    Opens (first >>= next) opening :=
  fun client => (keeps client).bind rest

/-- Either nothing was opened and the call goes on, or what was opened is given back at once. -/
theorem Opens.bind {first : ClientM α} {next : α → ClientM β} {opened : α → Opening}
    {opening : β → Opening} (opens : Opens first opened)
    (rest : ∀ value, (opened value = .none ∧ Opens (next value) opening) ∨
      ∃ result, next value = pure result ∧ opening result = opened value) :
    Opens (first >>= next) opening := by
  intro client
  have leaves := opens client
  rw [run_bind]
  rcases ran : client.run first with ⟨error | value, between⟩
  · rwa [ran] at leaves
  · rw [ran] at leaves
    obtain ⟨nothing, goesOn⟩ | ⟨result, returns, same⟩ := rest value
    · rw [Leaves, left, nothing] at leaves
      exact Steady.trans_leaves leaves (goesOn between)
    · simp only [returns, run_pure]
      rwa [Leaves, left, same]

theorem keeps_get : Keeps get :=
  fun client => Steady.refl client

theorem keeps_snapshot : Keeps snapshot :=
  fun client => Steady.refl client

theorem keeps_entityInfo (key : EntityKey) : Keeps (entityInfo key) := by
  refine keeps_snapshot.bind fun state => ?_
  split
  · exact keeps_pure _
  · exact opens_throw _ _

theorem keeps_dispatch {action : Action} (keeps : action.KeepsRequests) :
    Keeps (dispatch action) := by
  intro client
  obtain ⟨result, store, ran, ⟨_, reduced⟩ | ⟨same, _⟩⟩ := run_dispatch_store client action <;>
    rw [ran] <;> refine Steady.leaves ?_
  · exact {
      requests := by
        rw [Opening.none, List.append_nil]
        exact LocalState.requests_of_reduce keeps reduced
      claims := .refl _
      unclaimed := by simp [Opening.none]
      node := rfl
      issued := Nat.le_refl _
      fresh := by simp [Opening.none]
      reads := fun holds => by
        have queue : client.state.QueueReads := by simpa [Opening.none] using holds
        exact queue.reduce keeps.incremental reduced }
  · exact steady_of_same same rfl rfl (Nat.le_refl _)

/-- A request is recorded under the next tag. -/
theorem opens_openRequest : Opens openRequest fun tag => ⟨[tag], []⟩ := by
  intro client
  let tag := IdSource.identifier client.ids.node client.ids.issued
  let issued : Client := { client with ids := { client.ids with issued := client.ids.issued + 1 } }
  have runs : client.run openRequest =
      issued.run (dispatch (.networkRequest tag) >>= fun _ => pure tag) := rfl
  obtain ⟨result, store, ran, ⟨rfl, reduced⟩ | ⟨same, error, rfl⟩⟩ :=
    run_dispatch_store issued (.networkRequest tag)
  · rw [runs, run_bind_ok ran, run_pure]
    have recorded := LocalState.reduce_networkRequest reduced
    have applied : issued.state.applyCommand issued.clock (LocalState.addRequest tag) =
        .ok store.state := reduced
    exact {
      requests := congrArg NetworkState.requests recorded
      claims := .refl _
      unclaimed := by simp [left]
      node := rfl
      issued := Nat.le_succ _
      fresh := fun other member => by
        obtain rfl := List.mem_singleton.1 member
        exact ⟨client.ids.issued, rfl, Nat.le_refl _, Nat.lt_succ_self _⟩
      reads := fun _ => LocalState.queueReads_of_applyCommand rfl applied }
  · rw [runs, run_bind_error ran]
    exact steady_of_same same rfl rfl (Nat.le_succ _)

theorem keeps_recordFailure (tag : String) (error : RemoteError) :
    Keeps (recordFailure tag error) := by
  unfold recordFailure
  split <;> exact keeps_dispatch (by exact trivial)

theorem opens_fail (tag : String) (error : RemoteError) (opening : α → Opening) :
    Opens (fail tag error) opening :=
  (keeps_recordFailure tag error).bind fun _ => opens_throw _ _

theorem keeps_retireEntries (remaining : UInt64) (entries : List UnreachedCommit) :
    Keeps (retireEntries remaining entries) := by
  induction entries generalizing remaining with
  | nil => exact keeps_pure _
  | cons entry entries ih =>
      unfold retireEntries
      split
      · exact keeps_pure _
      · exact (keeps_dispatch (by exact trivial)).bind fun _ => ih _

theorem keeps_retire (key : EntityKey) (acknowledged : UInt64) :
    Keeps (retire key acknowledged) :=
  keeps_snapshot.bind fun _ => keeps_retireEntries _ _

theorem keeps_unfollowIfFollowed (key : EntityKey) : Keeps (unfollowIfFollowed key) := by
  refine keeps_snapshot.bind fun state => ?_
  split
  · exact keeps_dispatch (by exact trivial)
  · exact keeps_pure _

theorem keeps_pullKind (key : EntityKey) : Keeps (pullKind key) := by
  refine (keeps_entityInfo key).bind fun info => ?_
  split <;> exact keeps_pure _

theorem keeps_applyVersionDiff (diff : VersionDiff) : Keeps (applyVersionDiff diff) := by
  refine keeps_snapshot.bind fun state => ?_
  split
  · exact keeps_pure _
  · split
    · exact opens_throw _ _
    · exact keeps_pure _
    · exact (keeps_dispatch (by exact trivial)).bind fun _ => keeps_pure _

theorem steady_pumpDiffs (client : Client) (count : Nat) (diffs : List VersionDiff) :
    Steady client (client.pumpDiffs count diffs).2.1 := by
  induction diffs generalizing client count with
  | nil => exact .refl client
  | cons diff diffs ih =>
      have first := (keeps_applyVersionDiff diff client).steady
      unfold pumpDiffs
      split
      next ran =>
        rw [ran] at first
        exact first.trans_opened (ih _ _)
      next ran =>
        rw [ran] at first
        exact first

end Client

end LocalFirst
