import LocalFirst.Proofs.Equality
import LocalFirst.Proofs.WithEntity

/-!
# A commit taken back

A commit moves the head forward from where it is, and a revert computes it anew from the origin.
That the second undoes the first needs that heads are replays, in the state before the commit, and
that the revert finds the commit that was made: both go through the stored form, which equals itself
where no key repeats and no float is not-a-number.
-/

namespace LocalFirst

theorem Action.Admissible.incremental {action : Action} (admissible : action.Admissible) :
    action.Incremental := by
  cases action <;> first | exact admissible.elim | trivial

/-- A head that replays is no null, so that it is read back as it is. -/
theorem EntityInfo.HeadReplays.settled_eq {info : EntityInfo} (replays : info.HeadReplays) :
    info.settled = info := by
  obtain ⟨origin, versionId, commits, headField⟩ := info
  refine congrArg (EntityInfo.mk origin versionId commits) ?_
  rcases replays.head with ⟨_, noHead⟩ | ⟨_, head, headEq, applied⟩
  · cases noHead
    rfl
  · cases headEq
    have isObject := Update.isObject_of_applyAll replays.origin (applied default)
    simp [Option.filter, isObject.isNull]

namespace LocalState

open Document

theorem headsReplay_empty : LocalState.empty.HeadsReplay := by
  intro entityName id info found
  cases found

theorem HeadsReplay.commitsStored {state : LocalState} (replay : state.HeadsReplay)
    (entityName id : String) : state.CommitsStored entityName id :=
  fun info found => (replay entityName id info found).stored

/-- Behind commits that differ from it, a commit is the first that equals it. -/
theorem removeFirst_append {request : Update} {commits : List Update}
    (differ : ∀ commit ∈ commits, commit.same request = false)
    (itself : request.same request = true) :
    removeFirst request (commits ++ [request]) = commits := by
  induction commits with
  | nil => simp [removeFirst, itself]
  | cons commit rest ih =>
      obtain ⟨firstDiffers, restDiffer⟩ := List.forall_mem_cons.1 differ
      simp [removeFirst, firstDiffers, ih restDiffer]

variable {state next : LocalState} {entityName id : String} {info : EntityInfo} {operation : Update}

/-- Where heads are replays, the revert of a commit that is not pending yet restores the state. -/
theorem HeadsReplay.reduce_revert_of_commit (replay : state.HeadsReplay) (orderly : state.Orderly)
    (followed : state.find? entityName id = some info)
    (distinct : operation.Carries KeysDistinct) (numbers : operation.Carries (Everywhere NotNaN))
    (notPending : ∀ parsed, operation.stored = .ok parsed →
      ∀ commit ∈ info.commits, commit.same parsed = false) {now : Instant} (later : Instant)
    (committed : Action.reduce now state (.commit entityName id operation) = .ok next) :
    Action.reduce later next (.revert entityName id [operation]) = .ok state := by
  have replays := replay entityName id info followed
  obtain ⟨_, parsed, head, known, parsedOk, _, rfl⟩ :=
    reduce_commit_eq (replay.commitsStored entityName id) committed
  obtain rfl := Option.some.inj (followed.symm.trans known)
  let after : EntityInfo :=
    EntityInfo.settled { info with commits := info.commits ++ [parsed], head := some head }
  have found : (state.withEntity entityName id after).find? entityName id = some after :=
    find?_withEntity_self state entityName id after
  have stored : (state.withEntity entityName id after).CommitsStored entityName id := by
    intro other otherFound
    obtain rfl := Option.some.inj (found.symm.trans otherFound)
    exact List.forall_mem_append.2
      ⟨replays.stored, List.forall_mem_singleton.2 (Update.stored_of_stored parsedOk)⟩
  have itself : parsed.same parsed = true :=
    Update.same_refl (Update.carries_keysDistinct_of_stored distinct parsedOk)
      (numbers.stored wireSafe_notNaN parsedOk)
  have requestsOk : [operation].mapM Update.stored = .ok [parsed] := by simp [parsedOk]
  -- None of the commits in front equals the new one, so that the revert finds this one.
  have remaining : removeAll [parsed] after.commits = info.commits :=
    removeFirst_append (notPending parsed parsedOk) itself
  obtain ⟨oldHead, headOk, headEq⟩ := replays.headOf later
  have restores : EntityInfo.settled
      { after with commits := removeAll [parsed] after.commits, head := some oldHead } = info := by
    rw [remaining, ← replays.settled_eq]
    exact congrArg (EntityInfo.mk info.origin info.versionId info.commits) headEq.symm
  rw [reduce_revert_of_headOf (by exact orderly.queue) stored
      (orderly.addressable entityName id info followed) found requestsOk
      (by rw [remaining]; exact headOk),
    withEntity_withEntity, restores, withEntity_of_find? followed]

end LocalState

namespace Store

open LocalState

/-- In every state of a run from the empty one, to commit an operation and to revert it again
changes nothing, head included, unless an equal commit was pending. -/
theorem reduce_revert_of_commit_of_run (eventCapacity : Nat) (steps : List (Instant × Action))
    (admissible : ∀ step ∈ steps, step.2.Admissible) (state next : LocalState)
    (reached : ((ofState .empty eventCapacity).afterAll steps).state = state)
    (entityName id : String) (info : EntityInfo)
    (followed : state.find? entityName id = some info) (operation : Update)
    (distinct : operation.Carries Document.KeysDistinct)
    (numbers : operation.Carries (Document.Everywhere Document.NotNaN))
    (notPending : ∀ parsed, operation.stored = .ok parsed →
      ∀ commit ∈ info.commits, commit.same parsed = false) (now later : Instant)
    (committed : Action.reduce now state (.commit entityName id operation) = .ok next) :
    Action.reduce later next (.revert entityName id [operation]) = .ok state := by
  subst reached
  have replay : ((ofState .empty eventCapacity).afterAll steps).state.HeadsReplay :=
    headsReplay_afterAll headsReplay_empty admissible
  have orderly : ((ofState .empty eventCapacity).afterAll steps).state.Orderly :=
    orderly_afterAll orderly_empty fun step member => (admissible step member).incremental
  exact replay.reduce_revert_of_commit orderly followed distinct numbers notPending later committed

/-- A second commit of the note, with an array and a float. -/
def tagNote : Update :=
  (Update.empty.push ⟨["tags"]⟩ (.array [.float 0.5])).set ⟨["n"]⟩ (.int 2)

theorem reduce_revert_of_commit_tagNote : ∃ next,
    Action.reduce default ((ofState .empty 4).afterAll followAndCommit).state
      (.commit "note" "a" tagNote) = .ok next ∧
    (next.find? "note" "a").map (fun info => info.commits.length) = some 2 ∧
    Action.reduce ⟨1700000000, 0⟩ next (.revert "note" "a" [tagNote]) =
      .ok ((ofState .empty 4).afterAll followAndCommit).state := by
  have admissible : ∀ step ∈ followAndCommit, step.2.Admissible :=
    List.forall_mem_cons.2 ⟨trivial, List.forall_mem_cons.2
      ⟨show Update.Timeless _ by decide, by simp⟩⟩
  have distinct : tagNote.Carries Document.KeysDistinct := by
    change ∀ value ∈ [Document.int 2, .array [.float 0.5]], value.KeysDistinct
    simp [Document.KeysDistinct, Document.ItemKeysDistinct]
  have numbers : tagNote.Carries (Document.Everywhere Document.NotNaN) := by
    have half : (0.5 : Float).isNaN = false := by decide +kernel
    change ∀ value ∈ [Document.int 2, .array [.float 0.5]], value.Everywhere Document.NotNaN
    exact List.forall_mem_cons.2 ⟨trivial, List.forall_mem_singleton.2 ⟨trivial, half, trivial⟩⟩
  obtain ⟨info, followed, notPending⟩ : ∃ info,
      ((ofState .empty 4).afterAll followAndCommit).state.find? "note" "a" = some info ∧
        ∀ commit ∈ info.commits, commit.same tagNote = false :=
    ⟨_, rfl, by rintro commit (_ | ⟨_, ⟨⟩⟩); rfl⟩
  obtain ⟨next, committed, both⟩ : ∃ next,
      Action.reduce default ((ofState .empty 4).afterAll followAndCommit).state
        (.commit "note" "a" tagNote) = .ok next ∧
      (next.find? "note" "a").map (fun info => info.commits.length) = some 2 := ⟨_, rfl, rfl⟩
  have isStored : tagNote.stored = .ok tagNote := rfl
  refine ⟨next, committed, both, ?_⟩
  refine reduce_revert_of_commit_of_run 4 followAndCommit admissible _ next rfl "note" "a" info
    followed tagNote distinct numbers (fun parsed parsedOk => ?_) default _ committed
  exact Except.ok.inj (isStored.symm.trans parsedOk) ▸ notPending

end Store

end LocalFirst
