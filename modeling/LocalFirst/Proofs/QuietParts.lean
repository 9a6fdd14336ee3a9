import LocalFirst.Proofs.ActionEffects
import LocalFirst.Sync.Client

/-!
# Quiet parts of calls

The parts of a call are programs that may fail on the way, and keep what they did before.  Most of
them only touch the queue, the network and the last error: they are quiet, and leave all entities as
they are.
-/

namespace LocalFirst

namespace Client

variable {α β : Type}

@[simp]
theorem run_pure (client : Client) (value : α) : client.run (pure value) = (.ok value, client) :=
  rfl

@[simp]
theorem run_throw (client : Client) (error : ClientError) :
    client.run (throw error : ClientM α) = (.error error, client) :=
  rfl

@[simp]
theorem run_outcome (client : Client) (act : Client → Except ClientError α × Client) :
    client.run (outcome act) = act client :=
  rfl

@[simp]
theorem run_get (client : Client) : client.run (get : ClientM Client) = (.ok client, client) :=
  rfl

theorem run_bind (client : Client) (call : ClientM α) (next : α → ClientM β) :
    client.run (call >>= next) =
      match client.run call with
      | (.ok value, after) => after.run (next value)
      | (.error error, after) => (.error error, after) := by
  change (ExceptT.bindCont next (client.run call).1).run (client.run call).2 = _
  rcases client.run call with ⟨_ | _, _⟩ <;> rfl

theorem run_bind_ok {client after : Client} {call : ClientM α} {value : α}
    (ran : client.run call = (.ok value, after)) (next : α → ClientM β) :
    client.run (call >>= next) = after.run (next value) := by
  rw [run_bind, ran]

theorem run_bind_error {client after : Client} {call : ClientM α} {error : ClientError}
    (ran : client.run call = (.error error, after)) (next : α → ClientM β) :
    client.run (call >>= next) = (.error error, after) := by
  rw [run_bind, ran]

theorem run_tryCatch (client : Client) (call : ClientM α) (handler : ClientError → ClientM α) :
    client.run (tryCatch call handler) =
      match client.run call with
      | (.ok value, after) => (.ok value, after)
      | (.error error, after) => after.run (handler error) := by
  simp only [run, tryCatch, tryCatchThe, MonadExceptOf.tryCatch, ExceptT.tryCatch, ExceptT.run,
    ExceptT.mk, StateT.run, bind, StateT.bind]
  rcases call client with ⟨_ | _, _⟩ <;> rfl

/-- From a state that meets a condition, a part of a call leaves all entities as they are, and
fails only with errors of the state.  What it gives meets another condition. -/
def Gives (start : LocalState → Prop) (call : ClientM α) (good : α → LocalState → Prop) : Prop :=
  ∀ client : Client, start client.state →
    (client.run call).2.state.entities = client.state.entities ∧
      (∀ error, (client.run call).1 = .error error → ∃ fault, error = .state fault) ∧
      ∀ value, (client.run call).1 = .ok value → good value (client.run call).2.state

/-- A part of a call that leaves all entities as they are, and fails only with errors of the
state. -/
def Quiet (call : ClientM α) : Prop :=
  Gives (fun _ => True) call fun _ _ => True

theorem Quiet.entities {call : ClientM α} (quiet : Quiet call) (client : Client) :
    (client.run call).2.state.entities = client.state.entities :=
  (quiet client trivial).1

/-- What is known of the entities stays known. -/
theorem Quiet.keeps {call : ClientM α} (quiet : Quiet call) (about : EntityMap → Prop) :
    Gives (fun state => about state.entities) call fun _ state => about state.entities := by
  intro client holds
  obtain ⟨same, errors, _⟩ := quiet client trivial
  exact ⟨same, errors, fun _ _ => by simpa only [same] using holds⟩

theorem Gives.weaken {call : ClientM α} {start weaker : LocalState → Prop}
    {good better : α → LocalState → Prop} (gives : Gives weaker call better)
    (starts : ∀ state, start state → weaker state)
    (stops : ∀ value state, better value state → good value state) : Gives start call good := by
  intro client holds
  obtain ⟨same, errors, gave⟩ := gives client (starts _ holds)
  exact ⟨same, errors, fun value ran => stops _ _ (gave value ran)⟩

theorem gives_pure {start : LocalState → Prop} {good : α → LocalState → Prop} {value : α}
    (meets : ∀ state, start state → good value state) : Gives start (pure value) good :=
  fun client holds => ⟨rfl, by simp, by simpa using meets client.state holds⟩

theorem Gives.bind {start : LocalState → Prop} {call : ClientM α} {between : α → LocalState → Prop}
    {next : α → ClientM β} {good : β → LocalState → Prop} (first : Gives start call between)
    (rest : ∀ value, Gives (between value) (next value) good) :
    Gives start (call >>= next) good := by
  intro client holds
  obtain ⟨firstSame, firstErrors, gave⟩ := first client holds
  rw [run_bind]
  rcases runs : client.run call with ⟨error | value, after⟩
  · rw [runs] at firstSame firstErrors
    exact ⟨firstSame, by simpa using firstErrors, by simp⟩
  · rw [runs] at firstSame gave
    obtain ⟨same, errors, gives⟩ := rest value after (gave value rfl)
    exact ⟨same.trans firstSame, errors, gives⟩

theorem Gives.tryCatch {start : LocalState → Prop} {call : ClientM α}
    {handler : ClientError → ClientM α} {good : α → LocalState → Prop}
    (first : Gives start call good)
    (rest : ∀ fault, Gives (fun _ => True) (handler (.state fault)) good) :
    Gives start (tryCatch call handler) good := by
  intro client holds
  obtain ⟨firstSame, errors, gave⟩ := first client holds
  rw [run_tryCatch]
  rcases runs : client.run call with ⟨error | value, after⟩
  · rw [runs] at firstSame errors
    obtain ⟨fault, rfl⟩ := errors error rfl
    obtain ⟨same, errors, gives⟩ := rest fault after trivial
    exact ⟨same.trans firstSame, errors, gives⟩
  · rw [runs] at firstSame gave
    exact ⟨firstSame, by simp, gave⟩

theorem quiet_pure (value : α) : Quiet (pure value) :=
  gives_pure fun _ _ => trivial

theorem Quiet.bind {call : ClientM α} {next : α → ClientM β} (first : Quiet call)
    (rest : ∀ value, Quiet (next value)) : Quiet (call >>= next) :=
  Gives.bind first rest

theorem Quiet.thenGives {call : ClientM α} {next : α → ClientM β} {good : β → LocalState → Prop}
    (first : Quiet call) (rest : ∀ value, Gives (fun _ => True) (next value) good) :
    Gives (fun _ => True) (call >>= next) good :=
  Gives.bind first rest

theorem quiet_get : Quiet get :=
  fun _ _ => ⟨rfl, by rintro _ ⟨⟩, fun _ _ => trivial⟩

theorem quiet_snapshot : Quiet snapshot :=
  fun _ _ => ⟨rfl, by rintro _ ⟨⟩, fun _ _ => trivial⟩

theorem quiet_claim (key : EntityKey) : Quiet (claim key) :=
  fun _ _ => ⟨rfl, by rintro _ ⟨⟩, fun _ _ => trivial⟩

theorem quiet_release (key : EntityKey) : Quiet (release key) :=
  fun _ _ => ⟨rfl, by rintro _ ⟨⟩, fun _ _ => trivial⟩

/-- Dispatching an action reduces the state, or leaves it as it was. -/
theorem run_dispatch (client : Client) (action : Action) :
    (∃ next, action.reduce client.clock client.state = .ok next ∧
      ∃ after, client.run (dispatch action) = (.ok (), after) ∧ after.state = next) ∨
    (∃ error, action.reduce client.clock client.state = .error error ∧
      ∃ after, client.run (dispatch action) = (.error (.state error), after) ∧
        after.state = client.state) := by
  rw [dispatch, run_outcome, Store.dispatch, Client.state]
  cases reduced : action.reduce client.clock client.store.state with
  | ok next => exact .inl ⟨next, rfl, _, rfl, rfl⟩
  | error error => exact .inr ⟨error, rfl, _, rfl, rfl⟩

theorem run_dispatch_ok {client : Client} {action : Action} {next : LocalState}
    (reduced : action.reduce client.clock client.state = .ok next) :
    ∃ after, client.run (dispatch action) = (.ok (), after) ∧ after.state = next ∧
      after.clock = client.clock := by
  rw [dispatch, run_outcome, Store.dispatch]
  rw [Client.state] at reduced
  rw [reduced]
  exact ⟨_, rfl, rfl, rfl⟩

/-- Dispatching an action changes the store only. -/
theorem run_dispatch_store (client : Client) (action : Action) :
    ∃ result store, client.run (dispatch action) = (result, { client with store := store }) ∧
      ((result = .ok () ∧ action.reduce client.clock client.state = .ok store.state) ∨
        store.state = client.state ∧ ∃ error, result = .error (.state error)) := by
  rw [dispatch, run_outcome, Store.dispatch, Client.state]
  cases reduced : action.reduce client.clock client.store.state with
  | ok next => exact ⟨_, _, rfl, .inl ⟨rfl, rfl⟩⟩
  | error error => exact ⟨_, _, rfl, .inr ⟨rfl, _, rfl⟩⟩

theorem run_dispatch_reduces {client : Client} {action : Action} {next : LocalState}
    (reduced : action.reduce client.clock client.state = .ok next) :
    ∃ store : Store, store.state = next ∧
      client.run (dispatch action) = (.ok (), { client with store := store }) := by
  obtain ⟨_, store, ran, ⟨rfl, reduces⟩ | ⟨_, error, rfl⟩⟩ := run_dispatch_store client action
  · exact ⟨store, Except.ok.inj (reduces.symm.trans reduced), ran⟩
  · obtain ⟨_, runs, _⟩ := run_dispatch_ok reduced
    cases ran.symm.trans runs

theorem gives_dispatch {action : Action} (beside : action.IsBeside)
    {start good : LocalState → Prop}
    (meets : ∀ now state next, start state → action.reduce now state = .ok next → good next) :
    Gives start (dispatch action) fun _ state => good state := by
  intro client holds
  rcases run_dispatch client action with
    ⟨next, reduced, after, runs, rfl⟩ | ⟨error, _, after, runs, same⟩
  · rw [runs]
    exact ⟨LocalState.entities_of_reduce_beside beside reduced, by simp,
      fun _ _ => meets _ _ _ holds reduced⟩
  · rw [runs, same]
    exact ⟨rfl, by simp, by simp⟩

theorem quiet_dispatch {action : Action} (beside : action.IsBeside) : Quiet (dispatch action) :=
  gives_dispatch beside fun _ _ _ _ _ => trivial

theorem gives_entityInfo (key : EntityKey) :
    Gives (fun _ => True) (entityInfo key) fun info state =>
      state.find? key.entityName key.id = some info := by
  intro client _
  cases known : client.state.entityInfo key.entityName key.id with
  | error error =>
      have runs : client.run (entityInfo key) = (.error (.state error), client) := by
        simp [entityInfo, snapshot, run_bind, known, run_get]
      rw [runs]
      exact ⟨rfl, by simp, by simp⟩
  | ok info =>
      have runs : client.run (entityInfo key) = (.ok info, client) := by
        simp [entityInfo, snapshot, run_bind, known, run_get]
      rw [runs]
      exact ⟨rfl, by simp, by simpa using LocalState.find?_of_entityInfo known⟩

/-- A new request has its tag among the requests, and what followed from the entities still
holds. -/
theorem gives_openRequest_of {start good : LocalState → Prop}
    (keeps : ∀ state next, start state → next.entities = state.entities → good next) :
    Gives start openRequest fun tag state => good state ∧ state.isPending tag = true := by
  have unchanged : Gives start freshId fun _ state => ∃ before, start before ∧
      state.entities = before.entities :=
    fun client holds => ⟨rfl, by rintro _ ⟨⟩, fun _ _ => ⟨client.state, holds, rfl⟩⟩
  refine unchanged.bind fun tag => Gives.bind
    (?_ : Gives _ _ fun _ state => good state ∧ state.isPending tag = true)
    fun _ => gives_pure fun _ holds => holds
  refine gives_dispatch (by exact trivial) ?_
  intro now state next ⟨before, holds, same⟩ reduced
  refine ⟨keeps before next holds ?_, ?_⟩
  · rw [LocalState.entities_of_reduce_beside (by exact trivial) reduced, same]
  · rw [LocalState.isPending, LocalState.reduce_networkRequest reduced]
    simp

theorem quiet_closeRequest (tag : String) : Quiet (closeRequest tag) := by
  refine quiet_snapshot.bind fun state => ?_
  split
  · exact (quiet_dispatch (by exact trivial)).bind fun _ => quiet_pure _
  · exact quiet_pure _

theorem quiet_recordFailure (tag : String) (error : RemoteError) :
    Quiet (recordFailure tag error) := by
  unfold recordFailure
  split <;> exact quiet_dispatch (by exact trivial)

theorem quiet_retireEntries (remaining : UInt64) (entries : List UnreachedCommit) :
    Quiet (retireEntries remaining entries) := by
  induction entries generalizing remaining with
  | nil => exact quiet_pure _
  | cons entry entries ih =>
      unfold retireEntries
      split
      · exact quiet_pure _
      · exact (quiet_dispatch (by exact trivial)).bind fun _ => ih _

theorem quiet_retire (key : EntityKey) (acknowledged : UInt64) : Quiet (retire key acknowledged) :=
  quiet_snapshot.bind fun _ => quiet_retireEntries _ _

theorem quiet_forM {γ : Type} {items : List γ} {body : γ → ClientM Unit}
    (each : ∀ item, Quiet (body item)) : Quiet (items.forM body) := by
  induction items with
  | nil => exact quiet_pure _
  | cons item items ih => exact (each item).bind fun _ => ih

theorem quiet_cancelPending : Quiet cancelPending :=
  quiet_snapshot.bind fun _ =>
    (quiet_forM fun _ => quiet_dispatch (by exact trivial)).bind fun _ => quiet_pure _

/-- Removing the mark after an error changes neither the error nor the entities. -/
theorem run_releaseOnError (key : EntityKey) (call : ClientM α) (client : Client) :
    (client.run (releaseOnError key call)).1 = (client.run call).1 ∧
      (client.run (releaseOnError key call)).2.state = (client.run call).2.state := by
  rw [releaseOnError, run_tryCatch]
  rcases client.run call with ⟨error | value, after⟩ <;> exact ⟨rfl, rfl⟩

theorem Gives.releaseOnError {call : ClientM α} {start : LocalState → Prop}
    {good : α → LocalState → Prop} (gives : Gives start call good) (key : EntityKey) :
    Gives start (releaseOnError key call) good := by
  intro client holds
  obtain ⟨sameResult, sameState⟩ := run_releaseOnError key call client
  rw [sameResult, sameState]
  exact gives client holds

end Client

end LocalFirst
