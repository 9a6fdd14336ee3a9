import LocalFirst.Proofs.ClientAnswers
import LocalFirst.Proofs.VersionHistory
import LocalFirst.Sync.World

/-!
# Calls in a world

A call of a peer is a row of round trips: the server answers a request, and the peer
goes on with the answer.  What one round trip keeps, a whole call keeps, and the
allowance of requests is never used up.  Meanwhile the other peers only receive
diffs.
-/

namespace LocalFirst

/-- The diffs that a server broadcasts while it answers requests one after another, and the
server afterwards. -/
def Server.answerEach (server : Server) : List Request → List VersionDiff × Server
  | [] => ([], server)
  | request :: requests =>
      let answered := server.answer request
      let later := answered.2.2.answerEach requests
      (answered.2.1 ++ later.1, later.2)

theorem Server.answerEach_cons (server : Server) (request : Request) (requests : List Request) :
    server.answerEach (request :: requests) =
      ((server.answer request).2.1 ++ ((server.answer request).2.2.answerEach requests).1,
        ((server.answer request).2.2.answerEach requests).2) :=
  rfl

/-- A peer that has received diffs. -/
def Peer.receive (peer : Peer) (diffs : List VersionDiff) : Peer :=
  { peer with diffs := diffs.foldl Inbox.receive peer.diffs }

namespace World

theorem get?_broadcast (world : World) (diffs : List VersionDiff) (name : String) :
    (world.broadcast diffs).peers.get? name =
      (world.peers.get? name).map fun peer => peer.receive diffs :=
  (NameMap.get?_ofList
    (NameMap.nodup_keys_map_toList world.peers fun peer => peer.receive diffs) name).trans
    (NameMap.get?_map_toList world.peers (fun peer => peer.receive diffs) name)

theorem get?_runPeer {α : Type} (world : World) (name : String) (peer : Peer) (part : ClientM α)
    (other : String) : (world.runPeer name peer part).2.peers.get? other =
      if other = name then some { peer with client := (peer.client.run part).2 }
      else world.peers.get? other := by
  split
  next same =>
    subst same
    exact NameMap.get?_put_self _ _ _
  next differ => exact NameMap.get?_put_of_ne differ _ _

theorem ask_eq (world : World) (request : Request) :
    world.ask request = ((world.server.answer request).1,
      { world with server := (world.server.answer request).2.2 }.broadcast
        (world.server.answer request).2.1) :=
  rfl

/-- One round trip of a call: the server answers, and the peer goes on with the answer. -/
def exchange (world : World) (name : String) (peer : Peer) (suspended : Suspended) :
    Except ClientError Progress × World :=
  let answered := world.ask suspended.flight.request
  answered.2.runPeer name (peer.receive (world.server.answer suspended.flight.request).2.1)
    (Client.resume suspended.tag suspended.flight answered.1)

/-- The client after a round trip, with what it has come to. -/
def resumed (world : World) (peer : Peer) (suspended : Suspended) :
    Except ClientError Progress × Client :=
  peer.client.run (Client.resume suspended.tag suspended.flight
    (world.server.answer suspended.flight.request).1)

theorem exchange_result (world : World) (name : String) (peer : Peer) (suspended : Suspended) :
    (world.exchange name peer suspended).1 = (world.resumed peer suspended).1 :=
  rfl

theorem server_exchange (world : World) (name : String) (peer : Peer) (suspended : Suspended) :
    (world.exchange name peer suspended).2.server =
      (world.server.answer suspended.flight.request).2.2 :=
  rfl

theorem get?_exchange (world : World) (name : String) (peer : Peer) (suspended : Suspended)
    (other : String) :
    (world.exchange name peer suspended).2.peers.get? other =
      if other = name then
        some { peer.receive (world.server.answer suspended.flight.request).2.1 with
          client := (world.resumed peer suspended).2 }
      else (world.peers.get? other).map fun peer =>
        peer.receive (world.server.answer suspended.flight.request).2.1 := by
  rw [exchange, get?_runPeer]
  split
  · rfl
  · exact get?_broadcast _ _ _

/-- Without a script, a call goes on by round trips. -/
theorem settle_succ {world : World} {name : String} {peer : Peer}
    (found : world.peers.get? name = some peer) (noScript : peer.script = []) (allowance : Nat)
    (suspended : Suspended) :
    settle name (allowance + 1) world suspended =
      match world.exchange name peer suspended with
      | (.ok (.waiting next), world) =>
          (⟨next.flight.request :: (settle name allowance world next).1.requests,
            (settle name allowance world next).1.result⟩, (settle name allowance world next).2)
      | (result, world) => (⟨[], result⟩, world) := by
  have asked : world.respond name peer suspended.flight.request =
      world.ask suspended.flight.request := by
    rw [respond, noScript]
  have stays : ((world.ask suspended.flight.request).2.peers.get? name).getD peer =
      peer.receive (world.server.answer suspended.flight.request).2.1 := by
    rw [ask_eq, get?_broadcast, found]
    rfl
  simp only [settle, found, asked, stays]
  rfl

theorem requestsLeft_pos (flight : Flight) : 0 < flight.requestsLeft := by
  cases flight <;> simp only [Flight.requestsLeft] <;> omega

/-- What every round trip keeps holds when a call has ended, and it does end. -/
theorem settle_rule {name : String}
    (motive : List VersionDiff → World → Except ClientError Progress → Prop)
    (each : ∀ diffs world suspended, motive diffs world (.ok (.waiting suspended)) →
      ∃ peer, world.peers.get? name = some peer ∧ peer.script = [] ∧
        motive (diffs ++ (world.server.answer suspended.flight.request).2.1)
          (world.exchange name peer suspended).2 (world.exchange name peer suspended).1)
    (allowance : Nat) (diffs : List VersionDiff) (world : World) (suspended : Suspended)
    (holds : motive diffs world (.ok (.waiting suspended)))
    (enough : suspended.flight.requestsLeft ≤ allowance) :
    let settled := settle name allowance world suspended
    let answered := world.server.answerEach (suspended.flight.request :: settled.1.requests)
    motive (diffs ++ answered.1) settled.2 settled.1.result ∧ settled.2.server = answered.2 ∧
      ∀ next, settled.1.result ≠ .ok (.waiting next) := by
  induction allowance generalizing diffs world suspended with
  | zero => exact absurd enough (Nat.not_le.2 (requestsLeft_pos _))
  | succ allowance ih =>
      obtain ⟨peer, found, noScript, keeps⟩ := each diffs world suspended holds
      have fewer : ∀ next, (world.resumed peer suspended).1 = .ok (.waiting next) →
          next.flight.requestsLeft ≤ allowance := by
        intro next waits
        have decreases := (Client.run_resume peer.client suspended.tag suspended.flight _).2 next waits
        omega
      rw [settle_succ found noScript]
      rcases exchanged : world.exchange name peer suspended with ⟨result, after⟩
      have resultEq : result = (world.resumed peer suspended).1 := by
        rw [← exchange_result world name, exchanged]
      have serverEq : after.server = (world.server.answer suspended.flight.request).2.2 := by
        rw [← server_exchange world name peer, exchanged]
      rw [exchanged] at keeps
      match result with
      | .ok (.waiting next) =>
          obtain ⟨kept, sameServer, ends⟩ := ih _ after next keeps (fewer next resultEq.symm)
          dsimp only
          rw [Server.answerEach_cons, ← serverEq, ← List.append_assoc]
          exact ⟨kept, sameServer, ends⟩
      | .ok (.finished value) =>
          dsimp only
          rw [Server.answerEach_cons, Server.answerEach, List.append_nil]
          exact ⟨keeps, serverEq, by simp⟩
      | .error error =>
          dsimp only
          rw [Server.answerEach_cons, Server.answerEach, List.append_nil]
          exact ⟨keeps, serverEq, by simp⟩

/-- Let a call go on to its end after a part of it. -/
def goOn (name : String) (outcome : Except ClientError Progress × World) : Report × World :=
  match outcome with
  | (.ok (.waiting next), world) =>
      let settled := settle name next.flight.requestsLeft world next
      (⟨next.flight.request :: settled.1.requests, settled.1.result⟩, settled.2)
  | (result, world) => (⟨[], result⟩, world)

/-- A call is its first part and what follows. -/
theorem call_eq (world : World) (name : String) (peer : Peer) (call : Call) :
    world.call name peer call = goOn name (world.runPeer name peer (Client.start call)) := by
  simp only [World.call, begin]
  match world.runPeer name peer (Client.start call) with
  | (.ok (.waiting _), _) | (.ok (.finished _), _) | (.error _, _) => rfl

/-- A held call goes on with its answer. -/
theorem letGo_eq {world : World} {name label : String} {peer : Peer} {held : HeldCall}
    {response : held.flight.request.Response} (found : world.peers.get? name = some peer)
    (answered : held.response = some response) :
    world.letGo name peer label held =
      goOn name (World.runPeer
        { world with
          peers := world.peers.put name { peer with held := peer.held.erase label } }
        name { peer with held := peer.held.erase label }
        (Client.resume held.tag held.flight response)) := by
  simp only [letGo, modifyPeer, found, answered, NameMap.get?_put_self, Option.getD_some]
  match World.runPeer
      { world with peers := world.peers.put name { peer with held := peer.held.erase label } }
      name { peer with held := peer.held.erase label }
      (Client.resume held.tag held.flight response) with
  | (.ok (.waiting _), _) | (.ok (.finished _), _) | (.error _, _) => rfl

/-- A call that is held without an answer waits under its label. -/
theorem hold_eq (world : World) (name : String) (peer : Peer) (label : String) (call : Call) :
    (world.hold name peer label false call).2 =
      match (world.runPeer name peer (Client.start call)).1 with
      | .ok (.waiting ⟨tag, flight⟩) =>
          let started := { peer with client := (peer.client.run (Client.start call)).2 }
          let abandoned := Peer.abandon started label
          { world with
            peers := (world.peers.put name started).put name
              { abandoned with held := abandoned.held.put label ⟨tag, flight, none⟩ } }
      | _ => (world.runPeer name peer (Client.start call)).2 := by
  simp only [hold, begin, runPeer]
  match peer.client.run (Client.start call) with
  | (.ok (.waiting ⟨tag, flight⟩), client) =>
      simp [modifyPeer]
  | (.ok (.finished _), _) | (.error _, _) => rfl

/-- What every round trip keeps holds when a call has ended, and it does end. -/
theorem goOn_rule {name : String}
    (motive : List VersionDiff → World → Except ClientError Progress → Prop)
    (each : ∀ diffs world suspended, motive diffs world (.ok (.waiting suspended)) →
      ∃ peer, world.peers.get? name = some peer ∧ peer.script = [] ∧
        motive (diffs ++ (world.server.answer suspended.flight.request).2.1)
          (world.exchange name peer suspended).2 (world.exchange name peer suspended).1)
    {outcome : Except ClientError Progress × World} (holds : motive [] outcome.2 outcome.1) :
    let ended := goOn name outcome
    let answered := outcome.2.server.answerEach ended.1.requests
    motive answered.1 ended.2 ended.1.result ∧ ended.2.server = answered.2 ∧
      ∀ next, ended.1.result ≠ .ok (.waiting next) := by
  match outcome with
  | (.ok (.waiting next), world) => exact settle_rule motive each _ [] world next holds (Nat.le_refl _)
  | (.ok (.finished _), _) | (.error _, _) => exact ⟨holds, rfl, by simp [goOn]⟩

/-- Let the server answer the request at which a call is held. -/
def handle (world : World) (name : String) (peer : Peer) (label : String) (held : HeldCall) :
    World :=
  let answered := world.ask held.flight.request
  let peer := peer.receive (world.server.answer held.flight.request).2.1
  { answered.2 with
    peers := answered.2.peers.put name
      { peer with held := peer.held.put label ⟨held.tag, held.flight, some answered.1⟩ } }

end World

/-- What a peer does by itself: it dispatches actions to its store, applies any diff that was
ever broadcast, and makes calls.  A call runs to its end at once, or is held at its first
request until the server answers that, and then until the peer goes on. -/
inductive Deed where
  | wake (now : Instant)
  | dispatch (action : Action)
  | cancel
  | applyDiff (index : Nat)
  | call (call : Call)
  | send (label : String) (call : Call)
  | handle (label : String)
  | receive (label : String)
  | abandon (label : String)

/-- What happens in a world.  The server may be asked from elsewhere, too. -/
inductive Move where
  | insert (entityName : String) (entity : Document)
  | register (entityName : String) (user : Document) (password : String)
  | ask (request : Request)
  | reach (isReachable : Bool)
  | tick (now : Instant)
  | join (name : String) (config : ClientConfig)
  | act (name : String) (deed : Deed)

/-- A world, with all that its server has issued. -/
structure Moment where
  history : History
  world : World

namespace Moment

/-- A world with a server that has done nothing. -/
def start (diffCapacity : Nat) : Moment :=
  ⟨.empty, .ofCapacity diffCapacity⟩

/-- The moment with a peer changed. -/
def withPeer (moment : Moment) (name : String) (peer : Peer) : Moment :=
  { moment with world := { moment.world with peers := moment.world.peers.put name peer } }

/-- The moment with a server that has inserted an entity.  Without a string id nothing has been
inserted. -/
def withInserted (moment : Moment) (entityName : String) (entity : Document)
    (inserted : Except RemoteError (String × Server)) : Moment :=
  match inserted, (entity.get? "id").bind Document.string? with
  | .ok (version, server), some id =>
      ⟨moment.history.withInserted ⟨entityName, id⟩ version entity,
        { moment.world with server := server }⟩
  | _, _ => moment

/-- The moment after a peer has done something. -/
def perform (moment : Moment) (name : String) (peer : Peer) : Deed → Moment
  | .wake now => moment.withPeer name { peer with client := { peer.client with clock := now } }
  | .dispatch action =>
      { moment with world := (moment.world.runPeer name peer (Client.dispatch action)).2 }
  | .cancel => { moment with world := (moment.world.runPeer name peer Client.cancelPending).2 }
  | .applyDiff index =>
      match moment.history.diffs[index]? with
      | none => moment
      | some diff =>
          { moment with
            world := (moment.world.runPeer name peer (Client.applyVersionDiff diff)).2 }
  | .call call =>
      let called := moment.world.call name peer call
      ⟨moment.history.logged (moment.world.server.answerEach called.1.requests).1, called.2⟩
  | .send label call =>
      { moment with world := (moment.world.hold name peer label false call).2 }
  | .handle label =>
      match peer.held.get? label with
      | some ⟨tag, flight, none⟩ =>
          ⟨moment.history.logged (moment.world.server.answer flight.request).2.1,
            moment.world.handle name peer label ⟨tag, flight, none⟩⟩
      | _ => moment
  | .receive label =>
      match peer.held.get? label with
      | some ⟨tag, flight, some response⟩ =>
          let called := moment.world.letGo name peer label ⟨tag, flight, some response⟩
          ⟨moment.history.logged (moment.world.server.answerEach called.1.requests).1, called.2⟩
      | _ => moment
  | .abandon label => moment.withPeer name (World.Peer.abandon peer label)

/-- The moment after something has happened.  A peer that is not there does nothing, and no two
peers join under one name. -/
def after (moment : Moment) : Move → Moment
  | .insert entityName entity =>
      moment.withInserted entityName entity (moment.world.server.insert entityName entity)
  | .register entityName user password =>
      moment.withInserted entityName user (moment.world.server.register entityName user password)
  | .ask request =>
      ⟨moment.history.logged (moment.world.server.answer request).2.1,
        (moment.world.ask request).2⟩
  | .reach isReachable =>
      { moment with
        world := { moment.world with
          server := { moment.world.server with isReachable := isReachable } } }
  | .tick now =>
      { moment with
        world := { moment.world with server := { moment.world.server with clock := now } } }
  | .join name config =>
      match moment.world.peers.get? name, moment.world.join name config none with
      | none, .ok world => { moment with world := world }
      | _, _ => moment
  | .act name deed =>
      match moment.world.peers.get? name with
      | none => moment
      | some peer => moment.perform name peer deed

/-- The moment after a run. -/
def afterAll (moment : Moment) (moves : List Move) : Moment :=
  moves.foldl after moment

end Moment

end LocalFirst
