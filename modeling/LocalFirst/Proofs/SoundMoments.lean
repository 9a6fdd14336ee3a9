import LocalFirst.Proofs.Snapshots
import LocalFirst.Proofs.WorldSteps

/-!
# Sound moments of a run

A moment is sound when every origin is a snapshot of the server and every answer that waits is from
its history.  A longer history keeps a moment sound, and so does each exchange of a call with the
server.
-/

namespace LocalFirst

/-- A held call is a push that was sent from a snapshot; its answer is from the history. -/
structure HeldCall.Sound (history : History) (held : HeldCall) : Prop where
  push : ∃ job next, held.flight = .push job next ∧ job.Backed history
  truthful : ∀ response, held.response = some response →
    held.flight.request.Truthful history response

/-- A peer gets its answers from the server, and its origins are snapshots. -/
structure Peer.Sound (history : History) (peer : Peer) : Prop where
  noScript : peer.script = []
  snapshots : peer.client.state.Snapshots history
  held : ∀ label held, peer.held.get? label = some held → held.Sound history

namespace Moment

/-- The history holds all that the server has issued, and all peers are sound. -/
structure Sound (moment : Moment) : Prop where
  accounts : moment.history.Accounts moment.world.server
  peers : ∀ name peer, moment.world.peers.get? name = some peer → peer.Sound moment.history

end Moment

section Growth

variable {history longer : History} (grows : history.Extends longer)

include grows

theorem HeldCall.Sound.mono {held : HeldCall} (sound : held.Sound history) :
    held.Sound longer := by
  obtain ⟨⟨job, next, flightEq, backed⟩, truthful⟩ := sound
  exact ⟨⟨job, next, flightEq, backed.mono grows⟩,
    fun response responseEq => (truthful response responseEq).mono grows⟩

theorem Peer.Sound.mono {peer : Peer} (sound : peer.Sound history) : peer.Sound longer :=
  ⟨sound.noScript, sound.snapshots.mono grows,
    fun label held found => (sound.held label held found).mono grows⟩

theorem Flight.Backed.mono {state : LocalState} {flight : Flight}
    (backed : flight.Backed history state) : flight.Backed longer state := by
  cases flight with
  | push job next => exact PushJob.Backed.mono grows backed
  | _ => exact backed

end Growth

theorem Peer.Sound.receive {history : History} {peer : Peer} (sound : peer.Sound history)
    (diffs : List VersionDiff) : (peer.receive diffs).Sound history :=
  ⟨sound.noScript, sound.snapshots, sound.held⟩

theorem Peer.Sound.withClient {history : History} {peer : Peer} (sound : peer.Sound history)
    {client : Client} (snapshots : client.state.Snapshots history) :
    Peer.Sound history { peer with client := client } :=
  ⟨sound.noScript, snapshots, sound.held⟩

theorem Peer.Sound.withHeld {history : History} {peer : Peer} (sound : peer.Sound history)
    {label : String} {held : HeldCall} (heldSound : held.Sound history) :
    Peer.Sound history { peer with held := peer.held.put label held } := by
  refine ⟨sound.noScript, sound.snapshots, fun other found otherFound => ?_⟩
  by_cases same : other = label
  · subst same
    obtain rfl := Option.some.inj ((NameMap.get?_put_self other held peer.held).symm.trans otherFound)
    exact heldSound
  · exact sound.held other found ((NameMap.get?_put_of_ne same held peer.held) ▸ otherFound)

theorem Peer.Sound.withoutHeld {history : History} {peer : Peer} (sound : peer.Sound history)
    (label : String) : Peer.Sound history { peer with held := peer.held.erase label } := by
  refine ⟨sound.noScript, sound.snapshots, fun other found otherFound => ?_⟩
  by_cases same : other = label
  · subst same
    exact absurd (otherFound.symm.trans (NameMap.get?_erase_self other peer.held)) (by simp)
  · exact sound.held other found ((NameMap.get?_erase_of_ne same peer.held) ▸ otherFound)

theorem Peer.Sound.abandon {history : History} {peer : Peer} (sound : peer.Sound history)
    (label : String) : (World.Peer.abandon peer label).Sound history := by
  unfold World.Peer.abandon
  split
  · exact sound
  next held found =>
    refine (sound.withoutHeld label).withClient ?_
    have same : (peer.client.abandon held.flight).state = peer.client.state := by
      unfold Client.abandon
      split <;> rfl
    exact same ▸ sound.snapshots

namespace Moment

theorem Sound.withPeer {moment : Moment} (sound : moment.Sound) (name : String) {peer : Peer}
    (peerSound : peer.Sound moment.history) : (moment.withPeer name peer).Sound := by
  refine ⟨sound.accounts, fun other found otherFound => ?_⟩
  by_cases same : other = name
  · subst same
    obtain rfl := Option.some.inj
      ((NameMap.get?_put_self other peer moment.world.peers).symm.trans otherFound)
    exact peerSound
  · exact sound.peers other found
      ((NameMap.get?_put_of_ne same peer moment.world.peers) ▸ otherFound)

/-- The server takes a step that its history accounts for. -/
theorem Sound.step {moment : Moment} (sound : moment.Sound) {longer : History} {next : Server}
    (happens : Server.Step moment.history moment.world.server longer next) :
    Sound ⟨longer, { moment.world with server := next }⟩ :=
  ⟨sound.accounts.step happens, fun name peer found =>
    (sound.peers name peer found).mono happens.extends⟩

theorem Sound.broadcast {history : History} {world : World} (sound : Sound ⟨history, world⟩)
    (diffs : List VersionDiff) : Sound ⟨history, world.broadcast diffs⟩ := by
  refine ⟨sound.accounts, fun name peer found => ?_⟩
  rw [World.get?_broadcast, Option.map_eq_some_iff] at found
  obtain ⟨before, beforeFound, rfl⟩ := found
  exact (sound.peers name before beforeFound).receive diffs

/-- The answer to a request is from the history of the server after it. -/
theorem Sound.ask {moment : Moment} (sound : moment.Sound) {request : Request}
    (timeless : request.Timeless) :
    Sound ⟨moment.history.logged (moment.world.server.answer request).2.1,
      (moment.world.ask request).2⟩ ∧
    request.Truthful (moment.history.logged (moment.world.server.answer request).2.1)
      (moment.world.ask request).1 :=
  ⟨(sound.step (.answer timeless rfl)).broadcast _, sound.accounts.truthful timeless rfl⟩

/-- A moment in the middle of a call: all is sound, and what the call waits for fits. -/
def Underway (name : String) (moment : Moment) (result : Except ClientError Progress) : Prop :=
  moment.Sound ∧ ∀ suspended, result = .ok (.waiting suspended) →
    ∃ peer, moment.world.peers.get? name = some peer ∧
      suspended.flight.Backed moment.history peer.client.state

/-- A part of a call that keeps the origins snapshots, after which the call waits for what
fits. -/
theorem Sound.runPeer {moment : Moment} (sound : moment.Sound) {name : String} {peer : Peer}
    (peerSound : peer.Sound moment.history) (part : ClientM Progress)
    (snapshots : (peer.client.run part).2.state.Snapshots moment.history)
    (fits : ∀ suspended, (peer.client.run part).1 = .ok (.waiting suspended) →
      suspended.flight.Fits (peer.client.run part).2.state) :
    Underway name { moment with world := (moment.world.runPeer name peer part).2 }
      (moment.world.runPeer name peer part).1 :=
  ⟨sound.withPeer name (peerSound.withClient snapshots), fun suspended waits =>
    ⟨_, NameMap.get?_put_self name _ _, (fits suspended waits).backed snapshots⟩⟩

/-- Whatever a call does with its answer, all origins are snapshots afterwards. -/
theorem snapshots_resume {history : History} {server : Server} {client : Client} {tag : String}
    {flight : Flight} {response : flight.request.Response} (accounts : history.Accounts server)
    (snapshots : client.state.Snapshots history) (backed : flight.Backed history client.state)
    (truthful : flight.request.Truthful history response) :
    (client.run (Client.resume tag flight response)).2.state.Snapshots history := by
  obtain ⟨same | ⟨action, performs, undergoes⟩, _⟩ := Client.run_resume client tag flight response
  · exact snapshots.of_entities same
  · exact snapshots.undergoes accounts (performs.faithful accounts snapshots backed truthful)
      undergoes

/-- One round trip keeps all origins snapshots of the server. -/
theorem Sound.exchange {moment : Moment} (sound : moment.Sound) {name : String} {peer : Peer}
    (found : moment.world.peers.get? name = some peer) {suspended : Suspended}
    (backed : suspended.flight.Backed moment.history peer.client.state) :
    Underway name
      ⟨moment.history.logged (moment.world.server.answer suspended.flight.request).2.1,
        (moment.world.exchange name peer suspended).2⟩
      (moment.world.exchange name peer suspended).1 := by
  have grows := moment.history.extends_logged
    (moment.world.server.answer suspended.flight.request).2.1
  obtain ⟨askSound, truthful⟩ := sound.ask backed.timeless
  have peerSound := ((sound.peers name peer found).mono grows).receive
    (moment.world.server.answer suspended.flight.request).2.1
  refine askSound.runPeer peerSound _ ?_ fun next waits =>
    ((Client.run_resume _ _ _ _).2 next waits).2.1
  exact snapshots_resume askSound.accounts peerSound.snapshots (backed.mono grows) truthful

theorem logged_logged (history : History) (first second : List VersionDiff) :
    (history.logged first).logged second = history.logged (first ++ second) := by
  simp [History.logged]

/-- A call that has begun ends with all origins snapshots of the server. -/
theorem Underway.goOn {history : History} {name : String}
    {outcome : Except ClientError Progress × World}
    (underway : Underway name ⟨history, outcome.2⟩ outcome.1) :
    Sound ⟨history.logged (outcome.2.server.answerEach (World.goOn name outcome).1.requests).1,
      (World.goOn name outcome).2⟩ := by
  refine (World.goOn_rule
    (fun diffs world result => Underway name ⟨history.logged diffs, world⟩ result) ?_ ?_).1.1
  · intro diffs world suspended ⟨sound, waits⟩
    obtain ⟨peer, found, backed⟩ := waits suspended rfl
    refine ⟨peer, found, (sound.peers name peer found).noScript, ?_⟩
    rw [← logged_logged]
    exact sound.exchange found backed
  · rwa [History.logged_nil]

end Moment

end LocalFirst
