import LocalFirst.Proofs.CommitRevert

/-!
# Commits acknowledged in turn

To acknowledge commits is to fold the first of them into the origin.  The head is the replay of the
commits on the origin, so that what the folded ones and the others make of it together stays what it
was.  Folding a log in two parts ends where folding it at once ends.
-/

namespace LocalFirst

namespace EntityInfo

variable {info : EntityInfo} {acknowledged rest : List Update}

/-- The commits in front can be folded into the origin, and the current document stays. -/
theorem HeadReplays.exists_fold (replays : info.HeadReplays)
    (pending : info.commits = acknowledged ++ rest) (versionId : String) :
    ∃ folded : EntityInfo, folded.HeadReplays ∧ folded.current = info.current ∧
      folded.commits = rest ∧ folded.versionId = some versionId ∧
      ∀ now, Update.applyAll now info.origin acknowledged = .ok folded.origin := by
  have timeless := pending ▸ replays.timeless
  have stored := pending ▸ replays.stored
  have applied := replays.applyAll_commits default
  rw [pending] at applied
  obtain ⟨synced, folds, restApplied⟩ := Update.exists_applyAll_of_append timeless applied
  have restTimeless := (List.forall_mem_append.1 timeless).2
  have isObject := Update.isObject_of_applyAll replays.origin (folds default)
  have restStored := (List.forall_mem_append.1 stored).2
  cases rest with
  | nil =>
      refine ⟨.clean synced (some versionId), headReplays_clean isObject _, ?_, rfl, rfl, folds⟩
      exact Except.ok.inj (restApplied default)
  | cons commit others =>
      exact ⟨⟨synced, some versionId, commit :: others, some info.current⟩,
        ⟨isObject, restStored, restTimeless, .inr ⟨by simp, _, rfl, restApplied⟩⟩,
        rfl, rfl, rfl, folds⟩

end EntityInfo

namespace LocalState

variable {state : LocalState} {entityName id : String} {info folded : EntityInfo}
  {acknowledged : List Update} {versionId : String}

/-- To synchronise on the stored origin is to fold the acknowledged commits into it. -/
theorem Orderly.reduce_synchronize_of_fold (orderly : state.Orderly)
    (followed : state.find? entityName id = some info) (replays : folded.HeadReplays)
    (pending : info.commits = acknowledged ++ folded.commits)
    (version : folded.versionId = some versionId) {now : Instant}
    (folds : Update.applyAll now info.origin acknowledged = .ok folded.origin) :
    Action.reduce now state (.synchronize ⟨entityName, id, versionId, []⟩ acknowledged) =
      .ok (state.withEntity entityName id folded) := by
  obtain ⟨head, headOk, headEq⟩ := replays.headOf now
  have settles : EntityInfo.settled ⟨folded.origin, some versionId, folded.commits,
      if head.isNull then none else some head⟩ = folded := by
    rw [← replays.settled_eq, EntityInfo.settled, EntityInfo.settled, headEq, version]
    cases isNull : head.isNull <;> simp [Option.filter, isNull]
  have reduced := reduce_synchronize_of_replays orderly.queue
    (orderly.addressable _ _ _ followed) followed pending
    (by exact folds : Update.applyAll now info.origin ([] ++ acknowledged) = .ok folded.origin)
    headOk replays.stored versionId
  rwa [settles] at reduced

/-- Commits can be acknowledged in two parts as well as at once. -/
theorem HeadsReplay.reduce_synchronize_append (replay : state.HeadsReplay) (orderly : state.Orderly)
    (followed : state.find? entityName id = some info) {first second rest : List Update}
    (pending : info.commits = (first ++ second) ++ rest) (firstVersion versionId : String)
    (now later : Instant) : ∃ between,
      Action.reduce now state (.synchronize ⟨entityName, id, firstVersion, []⟩ first) =
        .ok between ∧
      Action.reduce later between (.synchronize ⟨entityName, id, versionId, []⟩ second) =
        Action.reduce now state
          (.synchronize ⟨entityName, id, versionId, []⟩ (first ++ second)) := by
  have replays := replay entityName id info followed
  obtain ⟨folded, foldedReplays, _, foldedCommits, foldedVersion, folds⟩ :=
    replays.exists_fold pending versionId
  rw [List.append_assoc] at pending
  obtain ⟨half, halfReplays, _, halfCommits, halfVersion, halfFolds⟩ :=
    replays.exists_fold pending firstVersion
  subst foldedCommits
  have reduced := orderly.reduce_synchronize_of_fold followed halfReplays
    (pending.trans (congrArg (first ++ ·) halfCommits.symm)) halfVersion (halfFolds now)
  have foldsRest : Update.applyAll later half.origin second = .ok folded.origin := by
    have whole := folds later
    rwa [Update.applyAll_append, halfFolds later] at whole
  refine ⟨_, reduced, ?_⟩
  rw [(orderly.reduce (by exact trivial) reduced).reduce_synchronize_of_fold
      (find?_withEntity_self _ _ _ _) foldedReplays halfCommits foldedVersion foldsRest,
    withEntity_withEntity,
    orderly.reduce_synchronize_of_fold followed foldedReplays
      (pending.trans (List.append_assoc ..).symm) foldedVersion (folds now)]

end LocalState

namespace Store

open LocalState

/-- In every state of a run from the empty one, the commits in front can be acknowledged: the
current document stays, the other commits stay pending, and two parts of the commits in turn come to
the same as all of them at once. -/
theorem synchronize_of_run (eventCapacity : Nat) (steps : List (Instant × Action))
    (admissible : ∀ step ∈ steps, step.2.Admissible) (state : LocalState)
    (reached : ((ofState .empty eventCapacity).afterAll steps).state = state)
    (entityName id : String) (info : EntityInfo)
    (followed : state.find? entityName id = some info) (acknowledged rest : List Update)
    (pending : info.commits = acknowledged ++ rest) (versionId : String) (now : Instant) :
    ∃ next known,
      Action.reduce now state (.synchronize ⟨entityName, id, versionId, []⟩ acknowledged) =
        .ok next ∧
      next.find? entityName id = some known ∧ known.current = info.current ∧
      known.commits = rest ∧ (known.head = none ↔ rest = []) ∧ known.versionId = some versionId ∧
      ∀ first second, acknowledged = first ++ second → ∀ firstVersion later, ∃ between,
        Action.reduce now state (.synchronize ⟨entityName, id, firstVersion, []⟩ first) =
          .ok between ∧
        Action.reduce later between (.synchronize ⟨entityName, id, versionId, []⟩ second) =
          .ok next := by
  subst reached
  have replay : ((ofState .empty eventCapacity).afterAll steps).state.HeadsReplay :=
    headsReplay_afterAll headsReplay_empty admissible
  have orderly : ((ofState .empty eventCapacity).afterAll steps).state.Orderly :=
    orderly_afterAll orderly_empty fun step member => (admissible step member).incremental
  obtain ⟨folded, replays, current, rfl, version, folds⟩ :=
    (replay entityName id info followed).exists_fold pending versionId
  have reduced := orderly.reduce_synchronize_of_fold followed replays pending version (folds now)
  refine ⟨_, folded, reduced, find?_withEntity_self _ _ _ _, current, rfl, replays.head_eq_none_iff,
    version, ?_⟩
  rintro first second rfl firstVersion later
  obtain ⟨between, firstReduced, secondReduced⟩ := replay.reduce_synchronize_append orderly followed
    pending firstVersion versionId now later
  exact ⟨between, firstReduced, secondReduced.trans reduced⟩

/-- Two further commits of the note. -/
def commitTwice : List (Instant × Action) :=
  [(default, .commit "note" "a" tagNote),
    (default, .commit "note" "a" (Update.empty.unset ⟨["n"]⟩))]

/-- Two of three commits are acknowledged, each by itself or both at once; the third has the field
removed. -/
theorem synchronize_of_commitTwice : ∃ state first second third next between known,
    ((ofState .empty 4).afterAll (followAndCommit ++ commitTwice)).state = state ∧
    (state.find? "note" "a").map EntityInfo.commits = some [first, second, third] ∧
    Action.reduce default state (.synchronize ⟨"note", "a", "w", []⟩ [first, second]) = .ok next ∧
    next.find? "note" "a" = some known ∧ known.commits = [third] ∧
    known.current.resolve? ⟨["n"]⟩ = none ∧
    Action.reduce default state (.synchronize ⟨"note", "a", "v", []⟩ [first]) = .ok between ∧
    Action.reduce ⟨1700000000, 0⟩ between (.synchronize ⟨"note", "a", "w", []⟩ [second]) =
      .ok next := by
  have admissible : ∀ step ∈ followAndCommit ++ commitTwice, step.2.Admissible := by
    simp only [followAndCommit, commitTwice, List.cons_append, List.nil_append,
      List.forall_mem_cons]
    exact ⟨trivial, show Update.Timeless _ by decide, show Update.Timeless _ by decide,
      show Update.Timeless _ by decide, by simp⟩
  obtain ⟨info, followed, first, second, third, pending, removed⟩ : ∃ info,
      ((ofState .empty 4).afterAll (followAndCommit ++ commitTwice)).state.find? "note" "a" =
        some info ∧
      ∃ first second third, info.commits = [first, second] ++ [third] ∧
        info.current.resolve? ⟨["n"]⟩ = none :=
    ⟨_, rfl, _, _, _, rfl, rfl⟩
  obtain ⟨next, known, reduced, found, current, rest, _, _, inTurn⟩ :=
    synchronize_of_run 4 (followAndCommit ++ commitTwice) admissible _ rfl "note" "a" info followed
      [first, second] [third] pending "w" default
  obtain ⟨between, firstReduced, secondReduced⟩ :=
    inTurn [first] [second] rfl "v" ⟨1700000000, 0⟩
  have commits : (((ofState .empty 4).afterAll (followAndCommit ++ commitTwice)).state.find?
      "note" "a").map EntityInfo.commits = some [first, second, third] := by
    rw [followed, Option.map_some, pending]
    rfl
  exact ⟨_, first, second, third, next, between, known, rfl, commits,
    reduced, found, rest, current ▸ removed, firstReduced, secondReduced⟩

end Store

end LocalFirst
