import LocalFirst.Proofs.CommitLedger
import LocalFirst.Proofs.OriginInvariant
import LocalFirst.Proofs.SettledCommits

/-!
# What a call does to a ledger

While a call is under way, each exchange with the server is entered into the ledger: what an
accepted push takes from the pending commits is what the server has logged with it.  A call
therefore ends with the ledger balanced, unless it is a push that ends with an error of the state.
-/

namespace LocalFirst

namespace Ledger

/-- A moment in the middle of a call.  It waits for what takes nothing away, with its tag among
the requests; only the end of a push with an error of the state may leave the ledger unbalanced. -/
structure Midcall (call : Call) (name : String) (ledger : Ledger)
    (result : Except ClientError Progress) : Prop where
  underway : Moment.Underway name ledger.moment result
  balanced : ledger.Balanced ∨ (call.IsPush ∧ ∃ fault, result = .error (.state fault))
  waits : ∀ suspended, result = .ok (.waiting suspended) → ∃ peer,
    ledger.moment.world.peers.get? name = some peer ∧
      peer.client.state.isPending suspended.tag = true ∧
      suspended.flight.Fits peer.client.state ∧
      suspended.flight.Spares peer.client ledger.moment.world.server ∧
      (suspended.flight.IsPushing → call.IsPush)

/-- One round trip takes from the pending commits what the server has logged with it. -/
theorem Midcall.exchange {call : Call} {name : String} {ledger : Ledger} {suspended : Suspended}
    (midcall : Midcall call name ledger (.ok (.waiting suspended))) :
    let diffs := (ledger.moment.world.server.answer suspended.flight.request).2.1
    ∃ peer, ledger.moment.world.peers.get? name = some peer ∧ peer.script = [] ∧
      Midcall call name
        (ledger.on ⟨ledger.moment.history.logged diffs,
          (ledger.moment.world.exchange name peer suspended).2⟩ name [] diffs)
        (ledger.moment.world.exchange name peer suspended).1 := by
  intro diffs
  obtain ⟨sound, backs⟩ := midcall.underway
  obtain ⟨peer, found, awaited, fits, spares, pushes⟩ := midcall.waits suspended rfl
  obtain ⟨_, backedFound, backed⟩ := backs suspended rfl
  obtain rfl := Option.some.inj (found.symm.trans backedFound)
  have peerSound := sound.peers name peer found
  have balanced : ledger.Balanced := midcall.balanced.resolve_right (by simp)
  have resumes := Client.run_resume peer.client suspended.tag suspended.flight
    (ledger.moment.world.server.answer suspended.flight.request).1
  refine ⟨peer, found, peerSound.noScript, sound.exchange found backed, ?_, fun next waits => ?_⟩
  · obtain taken | ⟨pushing, failed⟩ := Client.pending_resume peerSound.snapshots
      (balanced.stored found) awaited fits spares
    · refine .inl (balanced.on (Server.log_answer _ spares.isSync) ?_ fun key => ⟨[], rfl, ?_⟩)
      · intro other differ key
        exact (World.pending_exchange _ _ _ _ _ _).trans (if_neg differ)
      · rw [List.append_nil, World.pending_of_get? found, World.pending_exchange, if_pos rfl]
        exact taken key
    · exact .inr ⟨pushes pushing, failed⟩
  · obtain ⟨stillAwaited, nextFits, wasPushing, isPushing, _⟩ := resumes.2 next waits
    refine ⟨_, (World.get?_exchange _ _ _ _ _).trans (if_pos rfl), stillAwaited, nextFits,
      isPushing.spares _ _, fun _ => pushes wasPushing⟩

/-- A call that has begun ends with the ledger balanced, unless it is a push that ends with an
error of the state. -/
theorem Midcall.goOn {call : Call} {name : String} {ledger : Ledger}
    {outcome : Except ClientError Progress × World}
    (midcall : Midcall call name
      { ledger with moment := ⟨ledger.moment.history, outcome.2⟩ } outcome.1) :
    let ended := World.goOn name outcome
    let diffs := (outcome.2.server.answerEach ended.1.requests).1
    (ledger.on ⟨ledger.moment.history.logged diffs, ended.2⟩ name [] diffs).Balanced ∨
      (call.IsPush ∧ ended.1.failsInState = true) := by
  intro ended diffs
  let during := fun diffs world => ledger.on ⟨ledger.moment.history.logged diffs, world⟩ name [] diffs
  have ends : Midcall call name (during diffs ended.2) ended.1.result := by
    refine (World.goOn_rule (fun diffs world result =>
      Midcall call name (during diffs world) result) ?_ ?_).1
    · intro diffs world suspended underway
      obtain ⟨peer, found, noScript, exchanged⟩ := underway.exchange
      rw [on_on] at exchanged
      refine ⟨peer, found, noScript, ?_⟩
      simp only [during, ← Moment.logged_logged]
      exact exchanged
    · simp only [during, History.logged_nil]
      simpa [on] using midcall
  refine ends.balanced.imp_right ?_
  rintro ⟨isPush, fault, failed⟩
  refine ⟨isPush, ?_⟩
  rw [Report.failsInState, failed]

/-- A call begins without any effect on the ledger. -/
theorem Midcall.start {ledger : Ledger} (sound : ledger.moment.Sound) (balanced : ledger.Balanced)
    {name : String} {peer : Peer} (found : ledger.moment.world.peers.get? name = some peer)
    {call : Call} (noCommit : ∀ key operation, call ≠ .commitAndPush key operation)
    (spares : ∀ (client : Client) flight, client.state.entities = peer.client.state.entities →
      call.Awaits flight → flight.Spares client ledger.moment.world.server ∧
        (flight.IsPushing → call.IsPush)) :
    let started := ledger.moment.world.runPeer name peer (Client.start call)
    Midcall call name { ledger with moment := ⟨ledger.moment.history, started.2⟩ } started.1 := by
  intro started
  have timeless : call.Timeless := by
    cases call with
    | commitAndPush key operation => exact absurd rfl (noCommit key operation)
    | _ => trivial
  obtain ⟨performs, waits⟩ := Client.run_start peer.client call
  have same : (peer.client.run (Client.start call)).2.state.entities =
      peer.client.state.entities :=
    performs.resolve_right fun ⟨key, operation, callEq, _⟩ => noCommit key operation callEq
  refine ⟨sound.start found timeless,
    .inl (balanced.runPart found (LocalState.pending_of_entities same)), fun suspended waiting => ?_⟩
  obtain ⟨awaited, fits, awaits⟩ := waits suspended waiting
  exact ⟨_, NameMap.get?_put_self _ _ _, awaited, fits, spares _ _ same awaits⟩

end Ledger

/-- What a peer may do in a run whose commits are accounted for.  It follows nothing under the id
of an entity that it follows already, and no push ends with an error of the state. -/
def Moment.AllowsDeed (moment : Moment) (name : String) (peer : Peer) : Deed → Prop
  | .wake _ | .cancel | .applyDiff _ => True
  | .dispatch (.commit _ _ operation) => operation.Timeless
  | .dispatch action => action.IsBeside
  | .call (.follow key) => peer.client.overwritten moment.world.server key = none
  | .call (.pull _) => True
  | .call (.commitAndPush ..) => False
  | .call call => call.IsPush ∧ (moment.world.call name peer call).1.failsInState = false
  | _ => False

/-- What may happen in a run whose commits are accounted for. -/
def Moment.Allows (moment : Moment) : Move → Prop
  | .insert .. | .reach _ | .tick _ | .join .. => True
  | .act name deed => ∀ peer, moment.world.peers.get? name = some peer →
      moment.AllowsDeed name peer deed
  | _ => False

theorem Moment.AllowsDeed.admissible {moment : Moment} {name : String} {peer : Peer} {deed : Deed}
    (allowed : moment.AllowsDeed name peer deed) : deed.Admissible := by
  cases deed with
  | dispatch action => cases action <;> first | exact allowed | trivial
  | call call => cases call <;> trivial
  | send => exact False.elim allowed
  | _ => trivial

namespace Ledger

/-- Each move of a run is allowed in the moment in which it happens. -/
def Allows (ledger : Ledger) : List Move → Prop
  | [] => True
  | move :: moves => ledger.moment.Allows move ∧ (ledger.after move).Allows moves

/-- A call that is allowed ends with the ledger balanced. -/
theorem Balanced.call {ledger : Ledger} (sound : ledger.moment.Sound) (balanced : ledger.Balanced)
    {name : String} {peer : Peer} (found : ledger.moment.world.peers.get? name = some peer)
    {call : Call} (allowed : ledger.moment.AllowsDeed name peer (.call call)) :
    let called := ledger.moment.world.call name peer call
    let diffs := (ledger.moment.world.server.answerEach called.1.requests).1
    (ledger.on ⟨ledger.moment.history.logged diffs, called.2⟩ name [] diffs).Balanced := by
  have sparesPush : call.IsPush → ∀ (client : Client) flight,
      client.state.entities = peer.client.state.entities → call.Awaits flight →
        flight.Spares client ledger.moment.world.server ∧ (flight.IsPushing → call.IsPush) := by
    intro isPush client flight _ awaits
    obtain ⟨job, next, rfl⟩ := isPush.awaits.1 awaits
    exact ⟨trivial, fun _ => isPush⟩
  have midcall : Midcall call name
      { ledger with
        moment := ⟨ledger.moment.history,
          (ledger.moment.world.runPeer name peer (Client.start call)).2⟩ }
      (ledger.moment.world.runPeer name peer (Client.start call)).1 := by
    refine Midcall.start sound balanced found ?_ ?_
    · rintro key operation rfl
      exact allowed
    · cases call with
      | follow key =>
          rintro client _ same rfl
          refine ⟨?_, False.elim⟩
          have spared : peer.client.overwritten ledger.moment.world.server key = none := allowed
          simpa only [Flight.Spares, Client.overwritten, LocalState.find?, same] using spared
      | pull key =>
          rintro client _ _ ⟨kind, rfl⟩
          exact ⟨trivial, False.elim⟩
      | push | repush | goOnline => exact sparesPush trivial
      | commitAndPush => exact False.elim allowed
      | delete | login | logout => exact False.elim allowed.1
  intro called diffs
  have calledEq : called = _ := World.call_eq ledger.moment.world name peer call
  simp only [diffs, calledEq]
  refine midcall.goOn.resolve_right ?_
  rintro ⟨isPush, failed⟩
  rw [← World.call_eq] at failed
  cases call with
  | push | repush | goOnline => exact absurd (failed.symm.trans allowed.2) (by simp)
  | commitAndPush => exact allowed
  | _ => exact isPush

end Ledger

end LocalFirst
