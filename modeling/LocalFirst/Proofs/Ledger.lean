import LocalFirst.Proofs.LedgerCalls

/-!
# No commit is lost or logged twice

Calls run to their ends one after another, but a server may be out of reach, diffs may come late or
twice, and pushes may be cut into batches.  In every moment of such a run the ledger is balanced,
and a clean entity that has been pulled is that of the server.
-/

namespace LocalFirst

namespace Ledger

theorem on_nil (ledger : Ledger) (moment : Moment) (name : String) :
    ledger.on moment name [] [] = { ledger with moment := moment } := by
  simp [on]

/-- A commit is accounted for when it succeeds. -/
theorem Balanced.commit {ledger : Ledger} (balanced : ledger.Balanced) {name : String}
    {peer : Peer} (found : ledger.moment.world.peers.get? name = some peer)
    (entityName id : String) (operation : Update) :
    let part := Client.dispatch (.commit entityName id operation)
    (ledger.on ⟨ledger.moment.history, (ledger.moment.world.runPeer name peer part).2⟩ name
      (ledger.moment.committed name (.dispatch (.commit entityName id operation))) []).Balanced := by
  intro part
  simp only [Moment.committed, found]
  obtain ⟨succeeds, undergoes⟩ | ⟨⟨fault, fails⟩, same⟩ :=
    Client.run_dispatch_entities peer.client (.commit entityName id operation)
  · obtain ⟨commit, stored, pending⟩ := undergoes.pending_of_commit (balanced.stored found)
    rw [succeeds, if_pos (by rfl)]
    refine balanced.on (fun key => (List.append_nil _).symm) (fun other differ key => ?_) fun key => ?_
    · rw [World.pending_runPeer, if_neg differ]
    · refine ⟨if key = ⟨entityName, id⟩ then [commit] else [], ?_, ?_⟩
      · split
        next here => simp [here, stored]
        next differ => simp [Ne.symm differ]
      · rw [World.pending_of_get? found, ← pending key, World.pending_runPeer, if_pos rfl]
        rfl
  · rw [fails]
    exact (ledger.on_nil _ _).symm ▸ balanced.runPart found (LocalState.pending_of_entities same)

/-- What a peer may do keeps the ledger balanced. -/
theorem Balanced.perform {ledger : Ledger} (sound : ledger.moment.Sound)
    (balanced : ledger.Balanced) {name : String} {peer : Peer}
    (found : ledger.moment.world.peers.get? name = some peer) {deed : Deed}
    (allowed : ledger.moment.AllowsDeed name peer deed) :
    let next := ledger.moment.perform name peer deed
    (ledger.on next name (ledger.moment.committed name deed)
      (next.history.diffs.drop ledger.moment.history.diffs.length)).Balanced := by
  -- what leaves the history alone and commits nothing only has to keep what is pending
  have keeps : ∀ {α : Type} {part : ClientM α},
      (∀ key, (peer.client.run part).2.state.pending key = peer.client.state.pending key) →
      (ledger.on ⟨ledger.moment.history, (ledger.moment.world.runPeer name peer part).2⟩ name []
        (ledger.moment.history.diffs.drop ledger.moment.history.diffs.length)).Balanced := by
    intro α part pending
    rw [List.drop_length, on_nil]
    exact balanced.runPart found pending
  cases deed with
  | wake now =>
      exact @keeps Unit (modify fun client => { client with clock := now }) fun key => rfl
  | dispatch action =>
      cases action with
      | commit entityName id operation =>
          simp only [Moment.perform, List.drop_length]
          exact balanced.commit found entityName id operation
      | _ =>
          exact keeps (LocalState.pending_of_entities
            ((Client.quiet_dispatch (by exact allowed)).entities peer.client))
  | cancel =>
      exact keeps (LocalState.pending_of_entities
        (Client.quiet_cancelPending.entities peer.client))
  | applyDiff index =>
      have stored := balanced.stored found
      simp only [Moment.perform, Moment.committed]
      split
      · rw [List.drop_length, on_nil]
        exact balanced
      next diff _ =>
        refine keeps fun key => ?_
        obtain same | undergoes := Client.run_applyVersionDiff peer.client diff
        · exact LocalState.pending_of_entities same key
        · exact undergoes.pending_of_patch stored key
  | call call =>
      have called := Balanced.call sound balanced found allowed
      simp only [Moment.perform, Moment.committed, History.logged, List.drop_left']
      exact called
  | _ => exact allowed.elim

/-- Nothing is pending at a peer that has just joined. -/
theorem Balanced.join {ledger : Ledger} (balanced : ledger.Balanced) {name : String}
    {config : ClientConfig} {world : World}
    (absent : ledger.moment.world.peers.get? name = none)
    (joined : ledger.moment.world.join name config none = .ok world) :
    Balanced { ledger with moment := ⟨ledger.moment.history, world⟩ } := by
  simp only [World.join, Except.bind_eq_ok, Except.pure_eq_ok] at joined
  obtain ⟨store, made, rfl⟩ := joined
  refine balanced.of_same (fun _ => rfl) fun other key => ?_
  by_cases here : other = name
  · subst here
    rw [World.pending_of_get? (NameMap.get?_put_self _ _ _), World.pending, absent]
    exact LocalState.pending_of_unknown (Store.find?_ofConfig made key.entityName key.id)
  · rw [World.pending, NameMap.get?_put_of_ne here, World.pending]

/-- Whatever is allowed keeps all origins snapshots and the ledger balanced. -/
theorem Balanced.after {ledger : Ledger} (sound : ledger.moment.Sound)
    (balanced : ledger.Balanced) {move : Move} (allowed : ledger.moment.Allows move) :
    (ledger.after move).moment.Sound ∧ (ledger.after move).Balanced := by
  cases move with
  | insert entityName entity =>
      refine ⟨@Moment.Sound.after _ sound (.insert entityName entity) trivial, ?_⟩
      simp only [Ledger.after, Moment.after, Moment.withInserted]
      split
      next inserted _ => exact balanced.of_same (Server.log_of_insert inserted) fun _ _ => rfl
      · exact balanced
  | reach isReachable =>
      refine ⟨@Moment.Sound.after _ sound (.reach isReachable) trivial, ?_⟩
      exact balanced.of_same (fun _ => rfl) fun _ _ => rfl
  | tick now =>
      refine ⟨@Moment.Sound.after _ sound (.tick now) trivial, ?_⟩
      exact balanced.of_same (fun _ => rfl) fun _ _ => rfl
  | join name config =>
      refine ⟨@Moment.Sound.after _ sound (.join name config) trivial, ?_⟩
      simp only [Ledger.after, Moment.after]
      split
      next absent joined => exact balanced.join absent joined
      · exact balanced
  | act name deed =>
      simp only [Ledger.after, Moment.after]
      cases found : ledger.moment.world.peers.get? name with
      | none =>
          have idle : ledger.moment.committed name deed = [] := by
            unfold Moment.committed
            split
            · rw [found]
            · rfl
          rw [idle, List.drop_length, on_nil]
          exact ⟨sound, balanced⟩
      | some peer =>
          exact ⟨sound.perform found (allowed peer found).admissible,
            Balanced.perform sound balanced found (allowed peer found)⟩
  | _ => exact allowed.elim

/-- A ledger only watches the run. -/
theorem moment_afterAll (ledger : Ledger) (moves : List Move) :
    (ledger.afterAll moves).moment = ledger.moment.afterAll moves := by
  induction moves generalizing ledger with
  | nil => rfl
  | cons move moves ih =>
      have step : (ledger.after move).moment = ledger.moment.after move := by
        cases move <;> rfl
      exact (ih (ledger.after move)).trans (congrArg (Moment.afterAll · moves) step)

theorem balanced_start (diffCapacity : Nat) : (start diffCapacity).Balanced :=
  ⟨fun _ => rfl, fun _ _ => rfl⟩

theorem Balanced.afterAll {ledger : Ledger} {moves : List Move} (sound : ledger.moment.Sound)
    (balanced : ledger.Balanced) (allowed : ledger.Allows moves) :
    (ledger.afterAll moves).moment.Sound ∧ (ledger.afterAll moves).Balanced := by
  induction moves generalizing ledger with
  | nil => exact ⟨sound, balanced⟩
  | cons move moves ih =>
      obtain ⟨nextSound, next⟩ := Balanced.after sound balanced allowed.1
      exact ih nextSound next allowed.2

end Ledger

/-- An entity without pending commits is that of the server. -/
def World.CleanIsCurrent (world : World) (name : String) (key : EntityKey) : Prop :=
  ∀ peer info, world.peers.get? name = some peer →
    peer.client.state.find? key.entityName key.id = some info → info.commits = [] →
      world.server.entity? key = some info.current

namespace Moment

/-- A moment in the middle of a pull. -/
structure Midpull (key : EntityKey) (name : String) (moment : Moment)
    (result : Except ClientError Progress) : Prop where
  underway : Moment.Underway name moment result
  waits : ∀ suspended, result = .ok (.waiting suspended) → ∃ peer kind,
    moment.world.peers.get? name = some peer ∧
      peer.client.state.isPending suspended.tag = true ∧ kind.Fits peer.client.state key ∧
      suspended.flight = .pull key kind
  current : result = .ok (.finished .done) → moment.world.CleanIsCurrent name key

theorem Midpull.exchange {key : EntityKey} {name : String} {moment : Moment}
    {suspended : Suspended} (midpull : Midpull key name moment (.ok (.waiting suspended))) :
    let diffs := (moment.world.server.answer suspended.flight.request).2.1
    ∃ peer, moment.world.peers.get? name = some peer ∧ peer.script = [] ∧
      Midpull key name
        ⟨moment.history.logged diffs, (moment.world.exchange name peer suspended).2⟩
        (moment.world.exchange name peer suspended).1 := by
  intro diffs
  obtain ⟨sound, backs⟩ := midpull.underway
  obtain ⟨peer, kind, found, awaited, fits, flightEq⟩ := midpull.waits suspended rfl
  obtain ⟨_, backedFound, backed⟩ := backs suspended rfl
  obtain rfl := Option.some.inj (found.symm.trans backedFound)
  obtain ⟨tag, flight⟩ := suspended
  subst flightEq
  have peerSound := sound.peers name peer found
  refine ⟨peer, found, peerSound.noScript, sound.exchange found backed, ?_, ?_⟩
  · intro next waits
    have resumes := Client.run_resume peer.client tag (.pull key kind)
      (moment.world.server.answer (kind.request key)).1
    exact (resumes.2 next waits).2.2.1.elim
  · intro done after info afterFound followed clean
    rw [World.get?_exchange, if_pos rfl] at afterFound
    cases afterFound
    have current := Client.current_of_pull sound.accounts peerSound.snapshots awaited fits done
      info followed clean
    rw [World.server_exchange]
    cases kind <;> exact current

/-- When a pull has succeeded, a clean entity is that of the server. -/
theorem Sound.cleanIsCurrent_of_pull {moment : Moment} (sound : moment.Sound) {name : String}
    {peer : Peer} (found : moment.world.peers.get? name = some peer) (key : EntityKey)
    (done : (moment.world.call name peer (.pull key)).1.result = .ok (.finished .done)) :
    (moment.world.call name peer (.pull key)).2.CleanIsCurrent name key := by
  have timeless : (Call.pull key).Timeless := trivial
  obtain ⟨same, _, waits⟩ := Client.gives_startPull key peer.client trivial
  rw [World.call_eq] at done ⊢
  refine (World.goOn_rule (fun diffs world result =>
    Midpull key name ⟨moment.history.logged diffs, world⟩ result) ?_ ?_).1.current done
  · intro diffs world suspended midpull
    obtain ⟨peer, found, noScript, exchanged⟩ := midpull.exchange
    rw [logged_logged] at exchanged
    exact ⟨peer, found, noScript, exchanged⟩
  · rw [History.logged_nil]
    refine ⟨sound.start found timeless, fun suspended waiting => ?_, fun done => ?_⟩
    · obtain ⟨⟨awaited, fits⟩, tag, kind, waitingEq⟩ := waits _ waiting
      cases waitingEq
      exact ⟨_, kind, NameMap.get?_put_self _ _ _, awaited, fits, rfl⟩
    · obtain ⟨_, tag, kind, waitingEq⟩ := waits _ done
      cases waitingEq

end Moment

namespace Ledger

/-- In every moment of a run, the log of an entity holds what has been pushed to it, in order.
For each peer and entity, the operations that its pushes have added to the log, followed by the
pending ones, are those that it has committed, as they are read back.  An entity that has just been
pulled and has no pending commits is that of the server. -/
theorem balanced_of_run (diffCapacity : Nat) (moves : List Move)
    (allowed : (start diffCapacity).Allows moves) :
    let ledger := (start diffCapacity).afterAll moves
    let world := ledger.moment.world
    (∀ key, world.server.log key = ledger.pushedTo key) ∧
      (∀ name key, (ledger.madeBy name key).mapM Update.stored =
        .ok (ledger.pushedBy name key ++ world.pending name key)) ∧
      ∀ name peer key, world.peers.get? name = some peer →
        (world.call name peer (.pull key)).1.result = .ok (.finished .done) →
          (world.call name peer (.pull key)).2.CleanIsCurrent name key := by
  intro ledger world
  obtain ⟨sound, balanced⟩ :=
    Balanced.afterAll (Moment.sound_start diffCapacity) (balanced_start diffCapacity) allowed
  exact ⟨balanced.logged, balanced.accounted, fun name peer key found done =>
    sound.cleanIsCurrent_of_pull found key done⟩

theorem allows_follow {moment : Moment} {name : String} {key : EntityKey}
    (spared : (moment.world.peers.get? name).all (fun peer =>
      (peer.client.overwritten moment.world.server key).isNone) = true) :
    moment.Allows (.act name (.call (.follow key))) := by
  intro peer found
  rw [found] at spared
  exact Option.isNone_iff_eq_none.1 spared

theorem allows_push {moment : Moment} {name : String} {call : Call}
    (isPush : ∀ peer : Peer, (moment.world.call name peer call).1.failsInState = false →
      moment.AllowsDeed name peer (.call call))
    (succeeds : (moment.world.peers.get? name).all (fun peer =>
      !(moment.world.call name peer call).1.failsInState) = true) :
    moment.Allows (.act name (.call call)) := by
  intro peer found
  rw [found] at succeeds
  exact isPush peer (by simpa using succeeds)

/-- Commits wait while their peer is offline, and are pushed one at a time; a diff comes late. -/
def queuedPush : List Move :=
  [.insert "note" (.object [("id", .string "a"), ("n", .int 0)]),
    .join "x" { maxPushBatch := some 1 }, .join "y" {},
    .act "x" (.call (.follow ⟨"note", "a"⟩)),
    .act "y" (.call (.follow ⟨"note", "a"⟩)),
    .act "x" (.dispatch .offline),
    .act "x" (.dispatch (.commit "note" "a" (Update.empty.set ⟨["n"]⟩ (.int 1)))),
    .act "x" (.dispatch (.commit "note" "a" (Update.empty.set ⟨["n"]⟩ (.int 2)))),
    .act "x" (.call (.push ⟨"note", "a"⟩)),
    .act "x" (.call .goOnline),
    .act "x" (.applyDiff 0)]

theorem allows_queuedPush : (start 8).Allows queuedPush := by
  refine ⟨trivial, trivial, trivial, allows_follow (by decide +kernel),
    allows_follow (by decide +kernel), fun _ _ => trivial, fun _ _ => Update.timeless_set _ _,
    fun _ _ => Update.timeless_set _ _, allows_push (fun _ => And.intro trivial) (by decide +kernel),
    allows_push (fun _ => And.intro trivial) (by decide +kernel), fun _ _ => trivial, trivial⟩

/-- A peer follows an entity, and another one by an id that it holds no longer. -/
def rewrittenId : List Move :=
  [.insert "note" (.object [("id", .string "a")]), .insert "note" (.object [("id", .string "b")]),
    .join "x" {}, .join "y" {},
    .act "x" (.call (.follow ⟨"note", "a"⟩)),
    .act "x" (.dispatch (.commit "note" "a" (Update.empty.set ⟨["id"]⟩ (.string "b")))),
    .act "x" (.call (.push ⟨"note", "a"⟩)),
    .act "y" (.call (.follow ⟨"note", "b"⟩)),
    .act "y" (.dispatch (.commit "note" "b" (Update.empty.set ⟨["n"]⟩ (.int 1))))]

theorem allows_rewrittenId : (start 8).Allows rewrittenId := by
  refine ⟨trivial, trivial, trivial, trivial, allows_follow (by decide +kernel),
    fun _ _ => Update.timeless_set _ _, allows_push (fun _ => And.intro trivial) (by decide +kernel),
    allows_follow (by decide +kernel), fun _ _ => Update.timeless_set _ _, trivial⟩

/-- A commit is lost when its entity makes way for another one that holds the same id: `y` does
not follow `a`, whose document holds the id `b` by then. -/
theorem lost_of_rewrittenId : (start 8).Allows rewrittenId ∧
    (∃ peer, ((start 8).afterAll rewrittenId).moment.world.peers.get? "y" = some peer ∧
      peer.client.state.find? "note" "a" = none) ∧
    let ledger := ((start 8).afterAll rewrittenId).after
      (.act "y" (.call (.follow ⟨"note", "a"⟩)))
    (ledger.madeBy "y" ⟨"note", "b"⟩).mapM Update.stored ≠
      .ok (ledger.pushedBy "y" ⟨"note", "b"⟩ ++ ledger.moment.world.pending "y" ⟨"note", "b"⟩) := by
  have unknown : (((start 8).afterAll rewrittenId).moment.world.peers.get? "y").map
      (fun peer => (peer.client.state.find? "note" "a").isNone) = some true := by decide +kernel
  have lengths :
      let ledger := ((start 8).afterAll rewrittenId).after
        (.act "y" (.call (.follow ⟨"note", "a"⟩)))
      (ledger.madeBy "y" ⟨"note", "b"⟩).length = 1 ∧
        (ledger.pushedBy "y" ⟨"note", "b"⟩ ++
          ledger.moment.world.pending "y" ⟨"note", "b"⟩).length = 0 := by decide +kernel
  refine ⟨allows_rewrittenId, ?_, fun accounted => ?_⟩
  · obtain ⟨peer, found, unknown⟩ := Option.map_eq_some_iff.1 unknown
    exact ⟨peer, found, Option.isNone_iff_eq_none.1 unknown⟩
  · have same := lengths.1.symm.trans
      ((Except.mapM_eq_ok_iff.1 accounted).length_eq.trans lengths.2)
    exact absurd same (by decide)

theorem balanced_of_queuedPush :
    let ledger := (start 8).afterAll queuedPush
    let world := ledger.moment.world
    (ledger.madeBy "x" ⟨"note", "a"⟩).length = 2 ∧
      (ledger.pushedBy "x" ⟨"note", "a"⟩).length = 1 ∧
      world.server.log ⟨"note", "a"⟩ = ledger.pushedTo ⟨"note", "a"⟩ ∧
      (ledger.madeBy "x" ⟨"note", "a"⟩).mapM Update.stored =
        .ok (ledger.pushedBy "x" ⟨"note", "a"⟩ ++ world.pending "x" ⟨"note", "a"⟩) ∧
      ∃ peer, world.peers.get? "y" = some peer ∧
        (world.call "y" peer (.pull ⟨"note", "a"⟩)).2.CleanIsCurrent "y" ⟨"note", "a"⟩ := by
  have lengths :
      let ledger := (start 8).afterAll queuedPush
      (ledger.madeBy "x" ⟨"note", "a"⟩).length = 2 ∧
        (ledger.pushedBy "x" ⟨"note", "a"⟩).length = 1 := by decide +kernel
  have pulls :
      let world := ((start 8).afterAll queuedPush).moment.world
      (world.peers.get? "y").map (fun peer =>
        (world.call "y" peer (.pull ⟨"note", "a"⟩)).1.succeeds) = some true := by decide +kernel
  obtain ⟨logged, accounted, converges⟩ := balanced_of_run 8 queuedPush allows_queuedPush
  obtain ⟨peer, found, succeeds⟩ := Option.map_eq_some_iff.1 pulls
  exact ⟨lengths.1, lengths.2, logged _, accounted _ _, peer, found,
    converges "y" peer _ found (Report.result_of_succeeds succeeds)⟩

end Ledger

end LocalFirst
