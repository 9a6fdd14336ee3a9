import LocalFirst.Proofs.PendingCommits
import LocalFirst.Proofs.WorldSteps

/-!
# Ledgers of commits

A ledger keeps, beside a run, what each peer has committed and what its pushes have made the server
broadcast.  It is balanced when the server has logged what has been pushed, and what a peer has
committed to an entity is what it has pushed, followed by what is pending.
-/

namespace LocalFirst

namespace World

/-- The commits of an entity that a peer has not pushed. -/
def pending (world : World) (name : String) (key : EntityKey) : List Update :=
  (world.peers.get? name).elim [] fun peer => peer.client.state.pending key

theorem pending_of_get? {world : World} {name : String} {peer : Peer}
    (found : world.peers.get? name = some peer) (key : EntityKey) :
    world.pending name key = peer.client.state.pending key := by
  rw [pending, found, Option.elim_some]

/-- Only the peer that does something may have other pending commits. -/
theorem pending_runPeer {α : Type} (world : World) (name : String) (peer : Peer)
    (part : ClientM α) (other : String) (key : EntityKey) :
    (world.runPeer name peer part).2.pending other key =
      if other = name then (peer.client.run part).2.state.pending key
      else world.pending other key := by
  rw [pending, get?_runPeer]
  split
  · rfl
  · rw [pending]

theorem pending_exchange (world : World) (name : String) (peer : Peer) (suspended : Suspended)
    (other : String) (key : EntityKey) :
    (world.exchange name peer suspended).2.pending other key =
      if other = name then (world.resumed peer suspended).2.state.pending key
      else world.pending other key := by
  rw [pending, get?_exchange]
  split
  · rfl
  · rw [pending]
    cases world.peers.get? other <;> rfl

end World

/-- A call has ended with an error of the state. -/
def Report.failsInState (report : Report) : Bool :=
  match report.result with
  | .error (.state _) => true
  | _ => false

/-- A call that gives nothing has come to its end. -/
def Report.succeeds (report : Report) : Bool :=
  match report.result with
  | .ok (.finished .done) => true
  | _ => false

theorem Report.result_of_succeeds {report : Report} (succeeds : report.succeeds = true) :
    report.result = .ok (.finished .done) := by
  unfold Report.succeeds at succeeds
  split at succeeds
  · assumption
  · cases succeeds

/-- What a deed commits, if the commit succeeds. -/
def Moment.committed (moment : Moment) (name : String) : Deed → List (EntityKey × Update)
  | .dispatch (.commit entityName id operation) =>
      match moment.world.peers.get? name with
      | some peer =>
          if (peer.client.run (Client.dispatch (.commit entityName id operation))).1.isOk then
            [(⟨entityName, id⟩, operation)]
          else []
      | none => []
  | _ => []

/-- A moment of a run, with what each peer has committed and made the server broadcast. -/
structure Ledger where
  moment : Moment
  made : List (String × EntityKey × Update)
  pushed : List (String × VersionDiff)

namespace Ledger

def start (diffCapacity : Nat) : Ledger :=
  ⟨.start diffCapacity, [], []⟩

/-- The ledger of a later moment, with new commits and diffs of one peer. -/
def on (ledger : Ledger) (moment : Moment) (name : String) (made : List (EntityKey × Update))
    (diffs : List VersionDiff) : Ledger :=
  ⟨moment, ledger.made ++ made.map (Prod.mk name), ledger.pushed ++ diffs.map (Prod.mk name)⟩

/-- The ledger after something has happened. -/
def after (ledger : Ledger) : Move → Ledger
  | .act name deed =>
      let next := ledger.moment.after (.act name deed)
      ledger.on next name (ledger.moment.committed name deed)
        (next.history.diffs.drop ledger.moment.history.diffs.length)
  | move => { ledger with moment := ledger.moment.after move }

def afterAll (ledger : Ledger) (moves : List Move) : Ledger :=
  moves.foldl after ledger

/-- The operations that a peer has committed to an entity. -/
def madeBy (ledger : Ledger) (name : String) (key : EntityKey) : List Update :=
  (ledger.made.filter fun entry => entry.1 = name ∧ entry.2.1 = key).map fun entry => entry.2.2

/-- The operations that the pushes of a peer have added to the log of an entity. -/
def pushedBy (ledger : Ledger) (name : String) (key : EntityKey) : List Update :=
  VersionDiff.operationsOn key ((ledger.pushed.filter fun entry => entry.1 = name).map Prod.snd)

/-- The operations that the pushes of all peers have added to the log of an entity. -/
def pushedTo (ledger : Ledger) (key : EntityKey) : List Update :=
  VersionDiff.operationsOn key (ledger.pushed.map Prod.snd)

/-- The server has logged what has been pushed, and each peer has pushed its commits in order, up
to those that are pending. -/
structure Balanced (ledger : Ledger) : Prop where
  logged : ∀ key, ledger.moment.world.server.log key = ledger.pushedTo key
  accounted : ∀ name key, (ledger.madeBy name key).mapM Update.stored =
    .ok (ledger.pushedBy name key ++ ledger.moment.world.pending name key)

/-- The pending commits of a peer are as they are read back. -/
theorem Balanced.stored {ledger : Ledger} (balanced : ledger.Balanced) {name : String}
    {peer : Peer} (found : ledger.moment.world.peers.get? name = some peer) :
    peer.client.state.PendingStored := by
  intro key commit member
  refine Update.stored_of_mapM_stored (balanced.accounted name key) commit ?_
  rw [World.pending_of_get? found]
  exact List.mem_append_right _ member

theorem pushedTo_on (ledger : Ledger) (moment : Moment) (name : String)
    (made : List (EntityKey × Update)) (diffs : List VersionDiff) (key : EntityKey) :
    (ledger.on moment name made diffs).pushedTo key =
      ledger.pushedTo key ++ VersionDiff.operationsOn key diffs := by
  simp [pushedTo, on, VersionDiff.operationsOn_append, Function.comp_def]

theorem pushedBy_on (ledger : Ledger) (moment : Moment) (name : String)
    (made : List (EntityKey × Update)) (diffs : List VersionDiff) (other : String)
    (key : EntityKey) : (ledger.on moment name made diffs).pushedBy other key =
      ledger.pushedBy other key ++
        if other = name then VersionDiff.operationsOn key diffs else [] := by
  unfold pushedBy on
  rw [List.filter_append, List.map_append, VersionDiff.operationsOn_append, List.filter_map]
  split
  next same =>
    subst same
    simp [Function.comp_def]
  next differ => simp [Function.comp_def, Ne.symm differ, VersionDiff.operationsOn]

theorem madeBy_on (ledger : Ledger) (moment : Moment) (name : String)
    (made : List (EntityKey × Update)) (diffs : List VersionDiff) (other : String)
    (key : EntityKey) : (ledger.on moment name made diffs).madeBy other key =
      ledger.madeBy other key ++
        if other = name then (made.filter fun entry => entry.1 = key).map Prod.snd else [] := by
  unfold madeBy on
  rw [List.filter_append, List.map_append, List.filter_map]
  split
  next same =>
    subst same
    simp [Function.comp_def]
  next differ => simp [Function.comp_def, Ne.symm differ]

theorem on_on (ledger : Ledger) (moment next : Moment) (name : String)
    (first second : List VersionDiff) :
    (ledger.on moment name [] first).on next name [] second =
      ledger.on next name [] (first ++ second) := by
  simp [on]

/-- A ledger stays balanced when the server has logged what one peer has pushed, and what this
peer had pending, with what it has committed, is what it has pushed and what is pending. -/
theorem Balanced.on {ledger : Ledger} (balanced : ledger.Balanced) {moment : Moment}
    {name : String} {made : List (EntityKey × Update)} {diffs : List VersionDiff}
    (logged : ∀ key, moment.world.server.log key =
      ledger.moment.world.server.log key ++ VersionDiff.operationsOn key diffs)
    (others : ∀ other, other ≠ name → ∀ key,
      moment.world.pending other key = ledger.moment.world.pending other key)
    (accounted : ∀ key, ∃ commits,
      ((made.filter fun entry => entry.1 = key).map Prod.snd).mapM Update.stored = .ok commits ∧
        ledger.moment.world.pending name key ++ commits =
          VersionDiff.operationsOn key diffs ++ moment.world.pending name key) :
    (ledger.on moment name made diffs).Balanced := by
  refine ⟨fun key => ?_, fun other key => ?_⟩
  · rw [pushedTo_on, ← balanced.logged]
    exact logged key
  · rw [madeBy_on, pushedBy_on, List.mapM_append, balanced.accounted other key]
    split
    next same =>
      subst same
      obtain ⟨commits, stored, moved⟩ := accounted key
      rw [stored]
      refine congrArg Except.ok ?_
      rw [List.append_assoc, List.append_assoc, moved]
      rfl
    next differ =>
      rw [List.append_nil]
      exact congrArg Except.ok ((List.append_nil _).trans (congrArg _ (others other differ key).symm))

/-- A ledger stays balanced when nothing is committed, pushed or pending anew. -/
theorem Balanced.of_same {ledger : Ledger} (balanced : ledger.Balanced) {moment : Moment}
    (logged : ∀ key, moment.world.server.log key = ledger.moment.world.server.log key)
    (pending : ∀ name key, moment.world.pending name key = ledger.moment.world.pending name key) :
    Balanced { ledger with moment := moment } := by
  refine ⟨fun key => (logged key).trans (balanced.logged key), fun name key => ?_⟩
  rw [pending]
  exact balanced.accounted name key

/-- A ledger stays balanced when a peer does something that keeps what is pending. -/
theorem Balanced.runPart {α : Type} {ledger : Ledger} (balanced : ledger.Balanced) {name : String}
    {peer : Peer} (found : ledger.moment.world.peers.get? name = some peer) {part : ClientM α}
    (keeps : ∀ key, (peer.client.run part).2.state.pending key = peer.client.state.pending key) :
    Balanced { ledger with
      moment := ⟨ledger.moment.history, (ledger.moment.world.runPeer name peer part).2⟩ } := by
  refine balanced.of_same (fun _ => rfl) fun other key => ?_
  rw [World.pending_runPeer]
  split
  next here =>
    rw [here, World.pending_of_get? found]
    exact keeps key
  · rfl

end Ledger

end LocalFirst
