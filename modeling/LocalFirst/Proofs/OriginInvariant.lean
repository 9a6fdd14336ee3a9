import LocalFirst.Proofs.SoundMoments

/-!
# Origins in every run

Peers commit, push, pull and patch in any order while the server answers them and
others.  A push may wait for its answer while its entity is patched, unfollowed and
followed again; it holds the snapshot that it was sent from.  In every moment of a
run all origins are snapshots of the server, and every answer that waits is from
the history of the server.
-/

namespace LocalFirst

/-- An action that a user dispatches by itself.  What comes from the server, or takes the place
of the whole state, is not among them. -/
def Action.IsLocal : Action → Prop
  | .commit _ _ operation => operation.Timeless
  | .revert .. | .unfollow .. | .clear _ | .reset => True
  | action => action.IsBeside

/-- The operation that a call commits does not read the clock. -/
def Call.Timeless : Call → Prop
  | .commitAndPush _ operation => operation.Timeless
  | _ => True

/-- Actions are local, only pushes are held, and no operation reads the clock. -/
def Deed.Admissible : Deed → Prop
  | .dispatch action => action.IsLocal
  | .call made => made.Timeless
  | .send _ made => made.Timeless ∧ made.IsPush
  | _ => True

def Move.Admissible : Move → Prop
  | .ask request => request.Timeless
  | .act _ deed => deed.Admissible
  | _ => True

theorem Action.IsLocal.faithful {history : History} {state : LocalState} {action : Action}
    (isLocal : action.IsLocal) : action.Faithful history state := by
  cases action <;> first | exact isLocal | trivial

namespace Moment

/-- A part of a call that performs at most one faithful action. -/
theorem Sound.runPart {α : Type} {moment : Moment} (sound : moment.Sound) {name : String}
    {peer : Peer} (found : moment.world.peers.get? name = some peer) {part : ClientM α}
    (performs : (peer.client.run part).2.state.entities = peer.client.state.entities ∨
      ∃ action : Action, action.Faithful moment.history peer.client.state ∧
        peer.client.state.Undergoes action (peer.client.run part).2.state) :
    Sound { moment with world := (moment.world.runPeer name peer part).2 } := by
  have peerSound := sound.peers name peer found
  refine sound.withPeer name (peerSound.withClient ?_)
  obtain same | ⟨action, faithful, undergoes⟩ := performs
  · exact peerSound.snapshots.of_entities same
  · exact peerSound.snapshots.undergoes sound.accounts faithful undergoes

theorem Sound.start {moment : Moment} (sound : moment.Sound) {name : String} {peer : Peer}
    (found : moment.world.peers.get? name = some peer) {call : Call} (timeless : call.Timeless) :
    Underway name
      { moment with world := (moment.world.runPeer name peer (Client.start call)).2 }
      (moment.world.runPeer name peer (Client.start call)).1 := by
  have peerSound := sound.peers name peer found
  obtain ⟨performs, waits⟩ := Client.run_start peer.client call
  refine sound.runPeer peerSound _ ?_ fun next waiting => (waits next waiting).2.1
  obtain same | ⟨key, operation, rfl, undergoes⟩ := performs
  · exact peerSound.snapshots.of_entities same
  · exact peerSound.snapshots.undergoes sound.accounts (by exact timeless) undergoes

theorem Sound.send {moment : Moment} (sound : moment.Sound) {name : String} {peer : Peer}
    (found : moment.world.peers.get? name = some peer) (label : String) {call : Call}
    (timeless : call.Timeless) (isPush : call.IsPush) :
    Sound { moment with world := (moment.world.hold name peer label false call).2 } := by
  have peerSound := sound.peers name peer found
  obtain ⟨startSound, waits⟩ := sound.start found timeless
  rw [World.hold_eq]
  split
  next tag flight waiting =>
    obtain ⟨started, startedFound, backed⟩ := waits _ waiting
    obtain ⟨job, next, rfl⟩ :=
      isPush.awaits.1 ((Client.run_start peer.client call).2 _ waiting).2.2
    have startedSound := startSound.peers name _ (NameMap.get?_put_self name _ _)
    exact startSound.withPeer name ((startedSound.abandon label).withHeld
      ⟨⟨job, next, rfl, backed⟩, by simp⟩)
  · exact startSound

theorem Sound.handle {moment : Moment} (sound : moment.Sound) {name : String} {peer : Peer}
    (found : moment.world.peers.get? name = some peer) {label : String} {held : HeldCall}
    (heldFound : peer.held.get? label = some held) :
    Sound ⟨moment.history.logged (moment.world.server.answer held.flight.request).2.1,
      moment.world.handle name peer label held⟩ := by
  obtain ⟨⟨job, next, flightEq, backed⟩, _⟩ := (sound.peers name peer found).held label held heldFound
  have timeless : held.flight.request.Timeless := by
    rw [flightEq]
    exact backed.timeless
  have grows := moment.history.extends_logged
    (moment.world.server.answer held.flight.request).2.1
  obtain ⟨askSound, truthful⟩ := sound.ask timeless
  have peerSound := ((sound.peers name peer found).mono grows).receive
    (moment.world.server.answer held.flight.request).2.1
  refine askSound.withPeer name (peerSound.withHeld ⟨⟨job, next, flightEq, backed.mono grows⟩, ?_⟩)
  rintro _ ⟨⟩
  exact truthful

theorem Sound.receive {moment : Moment} (sound : moment.Sound) {name : String} {peer : Peer}
    (found : moment.world.peers.get? name = some peer) {label tag : String} {flight : Flight}
    {response : flight.request.Response}
    (heldFound : peer.held.get? label = some ⟨tag, flight, some response⟩) :
    let called := moment.world.letGo name peer label ⟨tag, flight, some response⟩
    Sound ⟨moment.history.logged (moment.world.server.answerEach called.1.requests).1,
      called.2⟩ := by
  have peerSound := sound.peers name peer found
  obtain ⟨⟨job, next, rfl, backed⟩, truthful⟩ := peerSound.held label _ heldFound
  have withoutHeld := peerSound.withoutHeld label
  have underway : Underway name _ _ := (sound.withPeer name withoutHeld).runPeer withoutHeld
    (Client.resume tag (.push job next) response)
    (snapshots_resume sound.accounts peerSound.snapshots backed (truthful response rfl))
    fun after waits => ((Client.run_resume _ _ _ _).2 after waits).2.1
  rw [World.letGo_eq found rfl]
  exact underway.goOn

/-- Whatever a peer does keeps all origins snapshots of the server. -/
theorem Sound.perform {moment : Moment} (sound : moment.Sound) {name : String} {peer : Peer}
    (found : moment.world.peers.get? name = some peer) {deed : Deed}
    (admissible : deed.Admissible) : (moment.perform name peer deed).Sound := by
  have peerSound := sound.peers name peer found
  cases deed with
  | wake now => exact sound.withPeer name (peerSound.withClient peerSound.snapshots)
  | dispatch action =>
      refine sound.runPart found ?_
      obtain ⟨_, undergoes⟩ | ⟨_, same⟩ := Client.run_dispatch_entities peer.client action
      · exact .inr ⟨action, admissible.faithful, undergoes⟩
      · exact .inl same
  | cancel => exact sound.runPart found (.inl (Client.quiet_cancelPending.entities peer.client))
  | applyDiff index =>
      simp only [Moment.perform]
      split
      · exact sound
      next diff member =>
        refine sound.runPart found ((Client.run_applyVersionDiff peer.client diff).imp_right ?_)
        exact fun undergoes => ⟨_, by exact List.mem_of_getElem? member, undergoes⟩
  | call call =>
      have underway := sound.start found (by exact admissible)
      simp only [Moment.perform, World.call_eq]
      exact underway.goOn
  | send label call => exact sound.send found label admissible.1 admissible.2
  | handle label =>
      simp only [Moment.perform]
      split
      next heldFound => exact sound.handle found heldFound
      · exact sound
  | receive label =>
      simp only [Moment.perform]
      split
      next heldFound => exact sound.receive found heldFound
      · exact sound
  | abandon label => exact sound.withPeer name (peerSound.abandon label)

end Moment

/-- A store that is made from a configuration follows nothing. -/
theorem Store.find?_ofConfig {now : Instant} {config : ClientConfig} {store : Store}
    (made : Store.ofConfig now config = .ok store) (entityName id : String) :
    store.state.find? entityName id = none := by
  simp only [Store.ofConfig, Except.bind_eq_ok, Except.pure_eq_ok] at made
  obtain ⟨state, cleared, rfl⟩ := made
  have clears : ∀ name ∈ config.initialEntities, ∀ before after : LocalState,
      (∀ entityName id, before.find? entityName id = none) →
      Action.reduce now before (.clear name) = .ok after →
      ∀ entityName id, after.find? entityName id = none := by
    intro name _ before after unknown reduced entityName id
    simpa [unknown, EntityInfo.ReadFrom] using LocalState.reduce_clear reduced entityName id
  exact Except.foldlM_preserves clears (fun _ _ => rfl) cleared entityName id

namespace Moment

theorem Sound.withInserted {moment : Moment} (sound : moment.Sound) {entityName : String}
    {entity : Document} {inserted : Except RemoteError (String × Server)}
    (inserts : ∀ version server, inserted = .ok (version, server) → ∃ before : Server,
      moment.world.server.insert entityName entity = .ok (version, before) ∧
        server.entities = before.entities ∧ server.ids = before.ids) :
    (moment.withInserted entityName entity inserted).Sound := by
  unfold Moment.withInserted
  split
  next version server id named =>
    obtain ⟨before, ok, sameEntities, sameIds⟩ := inserts version server rfl
    exact (sound.step (.insert ok named)).step (.adjust sameEntities sameIds)
  · exact sound

theorem Sound.join {moment : Moment} (sound : moment.Sound) {name : String}
    {config : ClientConfig} {world : World} (joined : moment.world.join name config none = .ok world) :
    Sound { moment with world := world } := by
  simp only [World.join, Except.bind_eq_ok, Except.pure_eq_ok] at joined
  obtain ⟨store, made, rfl⟩ := joined
  have counted : Sound { moment with
      world := { moment.world with joined := moment.world.joined + 1 } } :=
    ⟨sound.accounts, sound.peers⟩
  refine counted.withPeer name ⟨rfl, ?_, by simp⟩
  intro entityName id info found
  exact absurd (found.symm.trans (Store.find?_ofConfig made entityName id)) (by simp)

/-- Whatever happens keeps all origins snapshots of the server. -/
theorem Sound.after {moment : Moment} (sound : moment.Sound) {move : Move}
    (admissible : move.Admissible) : (moment.after move).Sound := by
  cases move with
  | insert entityName entity =>
      exact sound.withInserted fun version server ok => ⟨server, ok, rfl, rfl⟩
  | register entityName user password =>
      refine sound.withInserted fun version server ok => ?_
      simp only [Server.register, Except.bind_eq_ok, Except.pure_eq_ok] at ok
      obtain ⟨⟨_, before⟩, inserted, same⟩ := ok
      cases same
      exact ⟨before, inserted, rfl, rfl⟩
  | ask request => exact (sound.ask admissible).1
  | reach | tick => exact sound.step (.adjust rfl rfl)
  | join name config =>
      simp only [Moment.after]
      split
      next joined => exact sound.join joined
      · exact sound
  | act name deed =>
      simp only [Moment.after]
      split
      · exact sound
      next found => exact sound.perform found admissible

theorem sound_start (diffCapacity : Nat) : (Moment.start diffCapacity).Sound := by
  refine ⟨History.accounts_empty, fun name peer found => ?_⟩
  cases found

theorem sound_afterAll {moment : Moment} (sound : moment.Sound) {moves : List Move}
    (admissible : ∀ move ∈ moves, move.Admissible) : (moment.afterAll moves).Sound := by
  induction moves generalizing moment with
  | nil => exact sound
  | cons move rest ih =>
      obtain ⟨first, others⟩ := List.forall_mem_cons.1 admissible
      exact ih (sound.after first) others

/-- In every moment of a run, the origin of a followed entity is the document that the server
has held at the stored version.  The server issued the version for the entity with this key, or
for one whose document has held this id. -/
theorem origin_eq_held_of_run (diffCapacity : Nat) (moves : List Move)
    (admissible : ∀ move ∈ moves, move.Admissible) (name : String) (peer : Peer)
    (joined : ((start diffCapacity).afterAll moves).world.peers.get? name = some peer)
    (entityName id : String) (info : EntityInfo)
    (followed : peer.client.state.find? entityName id = some info) :
    let moment := (start diffCapacity).afterAll moves
    ∃ version server, info.versionId = some version ∧
      moment.history.Names server ⟨entityName, id⟩ ∧
      moment.history.Held server version info.origin ∧
      (∀ other document, moment.history.Held other version document →
        other = server ∧ document = info.origin) ∧
      (moment.world.server.version? server = some version →
        moment.world.server.entity? server = some info.origin) := by
  intro moment
  have sound : moment.Sound := sound_afterAll (sound_start diffCapacity) admissible
  obtain ⟨server, names, ⟨version, versionEq, held⟩, _⟩ :=
    (sound.peers name peer joined).snapshots entityName id info followed
  refine ⟨version, server, versionEq, names, held, fun other document otherHeld => ?_, ?_⟩
  · obtain ⟨rfl, rfl⟩ := otherHeld.unique sound.accounts.nodup held
    exact ⟨rfl, rfl⟩
  · intro latest
    obtain ⟨stored, found, rfl⟩ := Option.map_eq_some_iff.1 latest
    have current := (sound.accounts.held_current found).unique sound.accounts.nodup held
    rw [Server.entity?, found, Option.map_some, current.2]

/-- An operation rewrites the id of an entity before another peer follows it. -/
def rewrittenId : List Move :=
  [.insert "note" (.object [("id", .string "a")]),
    .join "x" {}, .join "y" {},
    .act "x" (.call (.follow ⟨"note", "a"⟩)),
    .act "x" (.call (.commitAndPush ⟨"note", "a"⟩ (Update.empty.set ⟨["id"]⟩ (.string "b")))),
    .act "y" (.call (.follow ⟨"note", "a"⟩))]

/-- The server need not have issued the stored version for the entity with the same key: what
was asked for as `a` is stored as `b`. -/
theorem not_held_of_rewrittenId : (∀ move ∈ rewrittenId, move.Admissible) ∧
    ∃ peer info version,
      ((start 8).afterAll rewrittenId).world.peers.get? "y" = some peer ∧
        peer.client.state.find? "note" "b" = some info ∧ info.versionId = some version ∧
        ∀ document,
          ¬ ((start 8).afterAll rewrittenId).history.Held ⟨"note", "b"⟩ version document := by
  constructor
  · simp only [rewrittenId, List.forall_mem_cons]
    exact ⟨trivial, trivial, trivial, trivial, Update.timeless_set _ _, trivial, by simp⟩
  · have stores : ((((start 8).afterAll rewrittenId).world.peers.get? "y").bind fun peer =>
        peer.client.state.find? "note" "b").map EntityInfo.versionId =
          some (some (IdSource.identifier 0 1)) := by decide +kernel
    have keys : ((start 8).afterAll rewrittenId).history.inserted.map Prod.fst ++
        ((start 8).afterAll rewrittenId).history.diffs.map VersionDiff.key =
          [⟨"note", "a"⟩, ⟨"note", "a"⟩] := by decide +kernel
    obtain ⟨info, found, versionEq⟩ := Option.map_eq_some_iff.1 stores
    obtain ⟨peer, joined, followed⟩ := Option.bind_eq_some_iff.1 found
    refine ⟨peer, info, _, joined, followed, versionEq, fun document held => ?_⟩
    have member := held.mem_keys
    rw [keys] at member
    simp at member

/-- A push meets a diff of another peer before its answer, and is settled on the origin that it
was sent from. -/
def crossedPush : List Move :=
  [.insert "note" (.object [("id", .string "a"), ("n", .int 0)]),
    .join "x" {}, .join "y" {},
    .act "x" (.call (.follow ⟨"note", "a"⟩)),
    .act "y" (.call (.follow ⟨"note", "a"⟩)),
    .act "x" (.dispatch (.commit "note" "a" (Update.empty.set ⟨["n"]⟩ (.int 1)))),
    .act "x" (.send "p" (.push ⟨"note", "a"⟩)),
    .act "y" (.call (.commitAndPush ⟨"note", "a"⟩ (Update.empty.set ⟨["m"]⟩ (.int 2)))),
    .act "x" (.handle "p"),
    .act "x" (.applyDiff 0),
    .act "x" (.receive "p")]

theorem admissible_crossedPush : ∀ move ∈ crossedPush, move.Admissible := by
  simp only [crossedPush, List.forall_mem_cons]
  exact ⟨trivial, trivial, trivial, trivial, trivial, Update.timeless_set _ _, ⟨trivial, trivial⟩,
    Update.timeless_set _ _, trivial, trivial, trivial, by simp⟩

theorem origin_eq_held_of_crossedPush : ∃ peer info version server,
    ((start 8).afterAll crossedPush).world.peers.get? "x" = some peer ∧
      peer.client.state.find? "note" "a" = some info ∧ info.versionId = some version ∧
      ((start 8).afterAll crossedPush).history.Held server version info.origin ∧
      info.commits.length = 0 := by
  have follows : ((((start 8).afterAll crossedPush).world.peers.get? "x").bind fun peer =>
      (peer.client.state.find? "note" "a")).map (fun info => info.commits.length) =
        some 0 := by decide +kernel
  obtain ⟨info, found, clean⟩ := Option.map_eq_some_iff.1 follows
  obtain ⟨peer, joined, followed⟩ := Option.bind_eq_some_iff.1 found
  obtain ⟨version, server, versionEq, _, held, _⟩ :=
    origin_eq_held_of_run 8 crossedPush admissible_crossedPush "x" peer joined "note" "a" info
      followed
  exact ⟨peer, info, version, server, joined, followed, versionEq, held, clean⟩

end Moment

end LocalFirst
