import LocalFirst.State.Action
import LocalFirst.Sync.Inbox

/-!
# The local store

A store holds the current state and tells its observer about every action.  An
action that fails leaves the state as it was.
-/

namespace LocalFirst

/-- How a client is set up.  Without a bound, a push sends all commits. -/
structure ClientConfig where
  initialEntities : List String := []
  startOnline : Bool := true
  maxPushBatch : Option Nat := none
  eventCapacity : Nat := 100

/-- What a store tells its observer. -/
inductive StoreEvent where
  | changed (action : String)
  | rejected (action message : String)
  deriving DecidableEq

structure Store where
  state : LocalState
  events : Inbox StoreEvent

namespace Store

def ofState (state : LocalState) (eventCapacity : Nat) : Store :=
  ⟨state, Inbox.ofCapacity eventCapacity⟩

/-- A store in which the configured entity names are known and have no
entities. -/
def ofConfig (now : Instant) (config : ClientConfig) : Except StateError Store := do
  let state ← config.initialEntities.foldlM
    (fun state entityName => Action.reduce now state (.clear entityName)) LocalState.empty
  return ofState
    { state with network := { state.network with isOnline := config.startOnline } }
    config.eventCapacity

/-- Carry out an action. -/
def dispatch (now : Instant) (store : Store) (action : Action) :
    Except StateError Unit × Store :=
  match action.reduce now store.state with
  | .ok next => (.ok (), ⟨next, store.events.receive (.changed action.eventName)⟩)
  | .error error =>
      (.error error,
        { store with events := store.events.receive (.rejected action.eventName error.message) })

end Store

end LocalFirst
