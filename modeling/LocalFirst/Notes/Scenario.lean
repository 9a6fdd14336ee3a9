import LocalFirst.Notes.Screen

/-!
# Scenarios of the note demo

Each scenario lets a few clients share one note through a server, and shows how
their edits are pushed, rebased and reconciled.
-/

namespace LocalFirst

namespace Notes

/-- The world of a scenario, and the lines printed so far. -/
structure Stage where
  world : World
  lines : List String

/-- Part of a scenario.  An error ends it; the lines before it stay. -/
abbrev Script :=
  ExceptT ClientError (StateM Stage)

namespace Script

def print (lines : List String) : Script Unit :=
  modify (fun stage => { stage with lines := stage.lines ++ lines })

/-- Use an outcome of the state layer. -/
def ofState {α : Type} (result : Except StateError α) : Script α :=
  match result with
  | .ok value => return value
  | .error error => throw (.state error)

/-- Use an outcome of the server. -/
def ofRemote {α : Type} (result : Except RemoteError α) : Script α :=
  match result with
  | .ok value => return value
  | .error error => throw (.remote error)

def changeServer (change : Server → Server) : Script Unit :=
  modify (fun stage =>
    { stage with world := { stage.world with server := change stage.world.server } })

/-- Put the shared note on the server. -/
def shareNote : Script Unit := do
  let note : Document := .object [
    ("id", .string noteKey.id), ("title", .string "Groceries"), ("items", .array []),
    ("views", .int 0)]
  let (_, server) ← ofRemote ((← get).world.server.insert noteKey.entityName note)
  changeServer (fun _ => server)

/-- Let a client join the server, without following anything yet. -/
def connect (name : String) : Script Unit := do
  let config : ClientConfig := { initialEntities := [noteKey.entityName] }
  let world ← ofState ((← get).world.join name config none)
  modify (fun stage => { stage with world := world })

def peer (name : String) : Script Peer := do
  match (← get).world.peers.get? name with
  | some peer => return peer
  | none => throw .closed

/-- Run a call of a client to its end. -/
def call (name : String) (call : Call) : Script CallResult := do
  let (report, world) := (← get).world.call name (← peer name) call
  modify (fun stage => { stage with world := world })
  match report.result with
  | .ok (.finished result) => return result
  | .ok (.waiting _) => return .done
  | .error error => throw error

/-- Run a call of a client that needs no request. -/
def atOnce {α : Type} (name : String) (act : ClientM α) : Script α := do
  let (result, world) := (← get).world.runPeer name (← peer name) act
  modify (fun stage => { stage with world := world })
  match result with
  | .ok value => return value
  | .error error => throw error

def follow (name : String) : Script Unit := do
  let _ ← call name (.follow noteKey)

/-- Commit an edit of the note. -/
def edit (name : String) (path : String) (edit : Edit) : Script Unit :=
  atOnce name (Client.commit noteKey (Update.empty.insert (Path.parse path) edit))

/-- Push the note. -/
def push (name : String) : Script PushOutcome := do
  match ← call name (.push noteKey) with
  | .pushed outcome => return outcome
  | _ => return .clean

/-- Push the note and print how it went. -/
def showPush (name : String) : Script Unit := do
  print (pushArrow name (← push name))

/-- Take the waiting diffs of a client without applying them. -/
def takeDiffs (name : String) : Script (List VersionDiff) := do
  let diffs := (← peer name).diffs
  modify (fun stage =>
    { stage with
      world := stage.world.modifyPeer name (fun peer => { peer with diffs := diffs.emptied }) })
  return diffs.waiting

/-- Apply diffs, and count those that apply. -/
def applyDiffs (name : String) (diffs : List VersionDiff) : Script Nat := do
  let applied ← diffs.mapM (fun diff => atOnce name (Client.applyVersionDiff diff))
  return applied.countP id

/-- Apply the waiting diffs of a client. -/
def catchUp (name : String) : Script Nat := do
  let (result, world) := (← get).world.pump name (← peer name)
  modify (fun stage => { stage with world := world })
  match result with
  | .ok applied => return applied
  | .error error => throw error

/-- The note as the user of a client sees it. -/
def note (name : String) : Script Document := do
  ofState ((← peer name).client.state.current noteKey.entityName noteKey.id)

def showPeer (name : String) : Script Unit := do
  print (peerBox name (← peer name).client.state (← note name))

/-- Whether every client has pushed everything and agrees with the server. -/
def converged (names : List String) : Script Bool := do
  match (← get).world.server.entity? noteKey with
  | none => return false
  | some expected =>
      names.allM (fun name => do
        return pending (← peer name).client.state == 0 && (← note name).same expected)

def showVerdict (names : List String) : Script Unit := do
  print (verdict (← converged names))

end Script

open Script

/-- The edit that pushes one text. -/
def pushText (text : String) : Edit :=
  .push ⟨[.string text], none, none, none⟩

/-- A field of a note, as JSON text. -/
def fieldText (note : Document) (key : String) : String :=
  ((note.get? key).getD .null).text

/-- Two clients edit, push, and agree. -/
def demo : Script Unit := do
  print (header "DEMO: Optimistic Commits, Push & Rebase")
  shareNote
  print (heading "Phase 1: Two clients follow the same note")
  connect "alice"
  connect "bob"
  follow "alice"
  follow "bob"
  print (step "alice, bob: follow note/groceries")
  print (heading "Phase 2: Both edit locally, nothing sent yet")
  edit "alice" "items" (pushText "milk")
  print (step "alice: $push items \"milk\"")
  edit "alice" "items" (pushText "bread")
  print (step "alice: $push items \"bread\"")
  edit "bob" "items" (.addToSet [.string "eggs"])
  print (step "bob:   $addToSet items \"eggs\"")
  edit "bob" "views" (.inc (.int 1))
  print (step "bob:   $inc views 1")
  showPeer "alice"
  showPeer "bob"
  print (heading "Phase 3: Push; bob's commits are rebased onto alice's")
  showPush "alice"
  showPush "bob"
  let applied ← catchUp "alice"
  print (step ("alice: applied " ++ toString applied ++ " version diff(s) from the server"))
  let _ ← catchUp "bob"
  print (heading "Phase 4: Post-sync state")
  showPeer "alice"
  showPeer "bob"
  showVerdict ["alice", "bob"]
  print (heading "Final values")
  let final ← note "alice"
  print (step ("items = " ++ fieldText final "items" ++ " (alice's two, then bob's)"))
  print (step ("views = " ++ fieldText final "views" ++ " (bob: +1)"))

/-- Print how many of some diffs applied. -/
def showApplied (round : String) (total applied : Nat) : Script Unit :=
  print (step (round ++ " " ++ toString applied ++ " applied, " ++
    toString (total - applied) ++ " discarded as stale"))

/-- Two clients push at the same time; a third one receives the diffs out of
order and twice. -/
def conflict : Script Unit := do
  print (header "CONFLICT: Concurrent Pushes, Stale & Duplicated Diffs")
  shareNote
  print (heading "Phase 1: Three clients follow, two of them edit concurrently")
  connect "alice"
  connect "bob"
  connect "carol"
  ["alice", "bob", "carol"].forM follow
  edit "alice" "items"
    (.push ⟨[.string "pears", .string "apples"], none, none, some (.items .ascending)⟩)
  edit "alice" "views" (.inc (.int 5))
  print (step
    "alice: $push items \x7b$each: [pears, apples], $sort: 1\x7d, $inc views 5")
  edit "bob" "items" (.addToSet [.string "apples"])
  edit "bob" "title" (.set (.string "Fruit"))
  print (step "bob:   $addToSet items \"apples\", $set title \"Fruit\"")
  print (heading "Phase 2: Both push; the server orders alice first")
  showPush "alice"
  showPush "bob"
  print (step "bob's $addToSet replays on top of alice's items: no duplicate apples")
  print (heading "Phase 3: carol receives the diffs reversed, then twice in order")
  let diffs ← takeDiffs "carol"
  print (step ("carol: " ++ toString diffs.length ++ " diff(s) waiting"))
  showApplied "reversed:  " diffs.length (← applyDiffs "carol" diffs.reverse)
  showApplied "in order:  " diffs.length (← applyDiffs "carol" diffs)
  showApplied "duplicate: " diffs.length (← applyDiffs "carol" diffs)
  let _ ← catchUp "alice"
  let _ ← catchUp "bob"
  print (heading "Phase 4: Everyone agrees with the server")
  showPeer "alice"
  showPeer "bob"
  showPeer "carol"
  showVerdict ["alice", "bob", "carol"]

/-- A client edits while the server is out of reach, and pushes again later. -/
def offline : Script Unit := do
  print (header "OFFLINE: Edit While Unreachable, Reconnect & Repush")
  shareNote
  connect "alice"
  connect "bob"
  follow "alice"
  follow "bob"
  print (heading "Phase 1: The server becomes unreachable")
  changeServer (fun server => { server with isReachable := false })
  print ["  alice  ──✗──  server"]
  edit "alice" "title" (.set (.string "Weekend groceries"))
  print (step ("alice: $set title, push → " ++ describe (← push "alice")))
  edit "alice" "items" (pushText "tea")
  print (step ("alice: $push items \"tea\", push → " ++ describe (← push "alice")))
  edit "alice" "views" (.inc (.int 2))
  print (step "alice: $inc views 2 (not pushed)")
  let state := (← peer "alice").client.state
  print (step ("alice: " ++
    toString (state.enqueuedCommitCount noteKey.entityName noteKey.id) ++
    " commit(s) queued for repush, store is " ++ onlineText state.network.isOnline))
  showPeer "alice"
  print (heading "Phase 2: Connectivity returns; bob pushes first")
  changeServer (fun server => { server with isReachable := true })
  edit "bob" "items" (pushText "coffee")
  showPush "bob"
  print (heading "Phase 3: alice reconnects and repushes")
  match ← call "alice" .goOnline with
  | .repushed outcomes => outcomes.forM (fun outcome => print (pushArrow "alice" outcome))
  | _ => return ()
  showPush "alice"
  let _ ← catchUp "alice"
  let applied ← catchUp "bob"
  print (step ("bob: applied " ++ toString applied ++ " version diff(s)"))
  print (heading "Phase 4: Post-repush state")
  showPeer "alice"
  showPeer "bob"
  showVerdict ["alice", "bob"]

/-- The scenario with a name. -/
def scenario? : String → Option (Script Unit)
  | "demo" => some demo
  | "conflict" => some conflict
  | "offline" => some offline
  | _ => none

/-- Play a scenario: whether it succeeded, and the lines that it printed. -/
def play (script : Script Unit) : Bool × List String :=
  let (result, stage) :=
    StateT.run (ExceptT.run script) (⟨World.ofCapacity World.defaultCapacity, []⟩ : Stage)
  (result.isOk, stage.lines)

end Notes

end LocalFirst
