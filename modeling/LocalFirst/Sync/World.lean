import LocalFirst.Sync.Call
import LocalFirst.Sync.Server

/-!
# A server and its clients

A world holds one server and any number of clients.  Each client has an inbox
for the diffs that the server broadcasts, and a script: answers that take the
place of those of the server, oldest first.  Calls run to their end, or are
held at their first request until they are let go on.
-/

namespace LocalFirst

/-- An answer that takes the place of the server's. -/
inductive ScriptedAnswer where
  | error (error : RemoteError)
  | reply (contents : Json)

/-- A call that is held at a request.  With an answer, the request has reached
the server already. -/
structure HeldCall where
  tag : String
  flight : Flight
  response : Option flight.request.Response

structure Peer where
  client : Client
  diffs : Inbox VersionDiff
  script : List ScriptedAnswer
  held : NameMap HeldCall

structure World where
  server : Server
  peers : NameMap Peer
  joined : Nat
  diffCapacity : Nat

/-- What a call of a peer has come to: the requests that it made, and its
result or the call itself where it is still under way. -/
structure Report where
  requests : List Request
  result : Except ClientError Progress

namespace World

/-- A world with a server only. -/
def ofCapacity (diffCapacity : Nat) : World :=
  ⟨Server.empty, Keyed.empty, 0, diffCapacity⟩

/-- How many diffs wait for a client unless told otherwise. -/
def defaultCapacity : Nat :=
  1024

/-- Let a client join, with a store made from its configuration or around a
state.  It receives all diffs from now on. -/
def join (world : World) (name : String) (config : ClientConfig)
    (state : Option LocalState) : Except StateError World := do
  let store ← match state with
    | none => Store.ofConfig world.server.clock config
    | some state => pure (Store.ofState state config.eventCapacity)
  let ids : IdSource := ⟨world.joined + 1, 0⟩
  let client := Client.ofStore store config ids world.server.clock
  return { world with
    joined := world.joined + 1
    peers := world.peers.put name ⟨client, Inbox.ofCapacity world.diffCapacity, [], Keyed.empty⟩ }

/-- Send diffs to every peer. -/
def broadcast (world : World) (diffs : List VersionDiff) : World :=
  let deliver (peer : Peer) : Peer :=
    { peer with diffs := diffs.foldl Inbox.receive peer.diffs }
  { world with
    peers := Keyed.ofList (world.peers.toList.map (fun named => (named.1, deliver named.2))) }

/-- Let the server answer a request. -/
def ask (world : World) (request : Request) : request.Response × World :=
  let (response, diffs, server) := world.server.answer request
  (response, { world with server := server }.broadcast diffs)

/-- Read a scripted answer as the answer to a request. -/
def scripted (request : Request) : ScriptedAnswer → request.Response
  | .error error => .error error
  | .reply contents =>
      match request.readAnswer? contents with
      | some answer => .ok answer
      | none => .error (.network "unreadable answer")

/-- The answer to a request of a peer: the oldest one of its script, or else the
server's. -/
def respond (world : World) (name : String) (peer : Peer) (request : Request) :
    request.Response × World :=
  match peer.script with
  | answer :: script =>
      (scripted request answer,
        { world with peers := world.peers.put name { peer with script := script } })
  | [] => world.ask request

/-- Change a peer. -/
def modifyPeer (world : World) (name : String) (change : Peer → Peer) : World :=
  match world.peers.get? name with
  | none => world
  | some peer => { world with peers := world.peers.put name (change peer) }

/-- Run a part of a call of a peer. -/
def runPeer {α : Type} (world : World) (name : String) (peer : Peer) (call : ClientM α) :
    Except ClientError α × World :=
  let (result, client) := peer.client.run call
  (result, { world with peers := world.peers.put name { peer with client := client } })

/-- Let a peer apply the diffs that wait for it, and count those that apply.
After an error the diffs behind it wait on. -/
def pump (world : World) (name : String) (peer : Peer) : Except ClientError Nat × World :=
  let (result, client, remaining) := peer.client.pumpDiffs 0 peer.diffs.waiting
  let diffs := { peer.diffs.emptied with waiting := remaining }
  (result,
    { world with peers := world.peers.put name { peer with client := client, diffs := diffs } })

/-- Answer the requests of a call until it ends, or the allowance of requests is
used up. -/
def settle (name : String) : Nat → World → Suspended → Report × World
  | 0, world, suspended => (⟨[], .ok (.waiting suspended)⟩, world)
  | allowance + 1, world, ⟨tag, flight⟩ =>
      match world.peers.get? name with
      | none => (⟨[], .ok (.waiting ⟨tag, flight⟩)⟩, world)
      | some peer =>
          let (response, world) := world.respond name peer flight.request
          let peer := (world.peers.get? name).getD peer
          match world.runPeer name peer (Client.resume tag flight response) with
          | (.ok (.waiting next), world) =>
              let (report, world) := settle name allowance world next
              (⟨next.flight.request :: report.requests, report.result⟩, world)
          | (result, world) => (⟨[], result⟩, world)

/-- Start a call of a peer and stop at its first request. -/
def begin (world : World) (name : String) (peer : Peer) (call : Call) : Report × World :=
  match world.runPeer name peer (Client.start call) with
  | (.ok (.waiting suspended), world) =>
      (⟨[suspended.flight.request], .ok (.waiting suspended)⟩, world)
  | (result, world) => (⟨[], result⟩, world)

/-- Run a call of a peer to its end. -/
def call (world : World) (name : String) (peer : Peer) (call : Call) : Report × World :=
  match world.begin name peer call with
  | (⟨requests, .ok (.waiting suspended)⟩, world) =>
      let (report, world) := settle name suspended.flight.requestsLeft world suspended
      (⟨requests ++ report.requests, report.result⟩, world)
  | finished => finished

/-- Give up a held call. -/
def Peer.abandon (peer : Peer) (label : String) : Peer :=
  match peer.held.get? label with
  | none => peer
  | some held =>
      { peer with
        client := peer.client.abandon held.flight
        held := peer.held.erase label }

/-- Start a call and hold it at its first request.  With `answered`, the request
is answered, but the client does not see the answer yet. -/
def hold (world : World) (name : String) (peer : Peer) (label : String) (answered : Bool)
    (call : Call) : Report × World :=
  match world.begin name peer call with
  | (⟨requests, .ok (.waiting ⟨tag, flight⟩)⟩, world) =>
      let peer := (world.peers.get? name).getD peer
      let (response, world) : Option flight.request.Response × World :=
        if answered then
          let (response, world) := world.respond name peer flight.request
          (some response, world)
        else (none, world)
      let keep (peer : Peer) : Peer :=
        let peer := Peer.abandon peer label
        { peer with held := peer.held.put label ⟨tag, flight, response⟩ }
      (⟨requests, .ok (.waiting ⟨tag, flight⟩)⟩, world.modifyPeer name keep)
  | finished => finished

/-- Let a held call go on to its end. -/
def letGo (world : World) (name : String) (peer : Peer) (label : String) (held : HeldCall) :
    Report × World :=
  let world := world.modifyPeer name
    (fun peer => { peer with held := peer.held.erase label })
  let peer := (world.peers.get? name).getD peer
  match held.response with
  | none =>
      settle name held.flight.requestsLeft world ⟨held.tag, held.flight⟩
  | some response =>
      match world.runPeer name peer (Client.resume held.tag held.flight response) with
      | (.ok (.waiting next), world) =>
          let (report, world) := settle name next.flight.requestsLeft world next
          (⟨next.flight.request :: report.requests, report.result⟩, world)
      | (result, world) => (⟨[], result⟩, world)

end World

end LocalFirst
