import LocalFirst.Proofs.WithEntity

/-!
# Diffs one by one and operations at once

The server tells a client about a change in two ways: it sends each diff as it is made, and it
answers a pull with the whole log since a version.  The first way runs one operation on the origin
at a time and replays the commits after each, the second runs all operations and replays the commits
once.  Both move the entity by the same relation, `Advances`, and the relation is transitive, as the
head in between plays no part in what follows.
-/

namespace LocalFirst

/-- Diffs of one entity that lead from a version to another, each made for the version that the one
before it leads to. -/
def VersionDiff.Lead (entityName id : String) : String → List VersionDiff → String → Prop
  | first, [], last => first = last
  | first, diff :: rest, last =>
      (diff.entityName = entityName ∧ diff.id = id ∧ diff.prevVersionId = first) ∧
        Lead entityName id diff.versionId rest last

/-- The commits replay at one time as at another: it is the same time, or none of them reads the
clock. -/
def EntityInfo.ReplaysAlike (info : EntityInfo) (time now : Instant) : Prop :=
  time = now ∨ ∀ commit ∈ info.commits, commit.Timeless

namespace LocalState

open EntityInfo

/-- Apply diffs one after another, each at its own time. -/
def patchAll (state : LocalState) (diffs : List (Instant × VersionDiff)) :
    Except StateError LocalState :=
  diffs.foldlM (fun state diff => Action.reduce diff.1 state (.patch diff.2)) state

/-- Operations go under the commits of an entity and lead it to a version. -/
def Advances (now : Instant) (state : LocalState) (entityName id versionId : String)
    (operations : List Update) (next : LocalState) : Prop :=
  (entityPath entityName id).fault? = none ∧
    ∃ info origin head, state.find? entityName id = some info ∧
      Update.applyAll now info.origin operations = .ok origin ∧
      headOf now origin info.commits = .ok head ∧
      next = state.withEntity entityName id
        (settled ⟨origin, some versionId, info.commits, some head⟩)

variable {now time : Instant} {state between next : LocalState} {entityName id : String}

theorem addressable_of_setVersion {origin head : Document} {versionId : String}
    (applied : state.applyCommand now (setVersion entityName id origin versionId head) = .ok next) :
    (entityPath entityName id).fault? = none :=
  addressable_of_fields
    [("head", .set head), ("origin", .set origin), ("versionId", .set (.string versionId))]
    (by simp) (toList_setVersion entityName id origin versionId head) (by simp [Edit.operator])
    applied

variable {versionId laterVersionId : String} {operations laterOperations : List Update}

/-- A rebase advances the entity by its operations. -/
theorem reduce_rebase_eq_ok_iff (queue : state.QueueReads)
    (stored : state.CommitsStored entityName id) :
    Action.reduce now state (.rebase ⟨entityName, id, versionId, operations⟩) = .ok next ↔
      Advances now state entityName id versionId operations next := by
  have effect : ∀ {next},
      Action.reduce now state (.rebase ⟨entityName, id, versionId, operations⟩) = .ok next →
      Advances now state entityName id versionId operations next := by
    intro next reduced
    obtain ⟨_, info, origin, head, known, applied, headOk, reads⟩ := reduce_rebase reduced
    have found := eq_settled_of_readFrom reads (stored info known)
    refine ⟨?_, info, origin, head, known, applied, headOk, eq_withEntity_of_reduce reduced
      (by simp) (fun _ _ here => here) (fun _ here => here) found⟩
    simp only [Action.reduce, Action.update, rebase, Except.bind_eq_ok, Except.pure_eq_ok]
      at reduced
    obtain ⟨_, ⟨_, _, _, _, _, _, rfl⟩, moved⟩ := reduced
    exact addressable_of_setVersion moved
  refine ⟨effect, ?_⟩
  rintro ⟨addressable, info, origin, head, known, applied, headOk, nextEq⟩
  obtain ⟨other, reduced⟩ : ∃ other,
      Action.reduce now state (.rebase ⟨entityName, id, versionId, operations⟩) = .ok other :=
    exists_reduce_rebase queue addressable known applied headOk
      (Update.mapM_stored_eq_ok (stored info known))
  obtain ⟨_, _, _, _, otherKnown, otherApplied, otherHeadOk, otherEq⟩ := effect reduced
  obtain rfl := Option.some.inj (known.symm.trans otherKnown)
  obtain rfl := Except.ok.inj (applied.symm.trans otherApplied)
  obtain rfl := Except.ok.inj (headOk.symm.trans otherHeadOk)
  rw [reduced, nextEq, otherEq]

/-- A patch for the stored version advances the entity by its operation. -/
theorem advances_of_reduce_patch {diff : VersionDiff} {info : EntityInfo}
    (stored : state.CommitsStored diff.entityName diff.id)
    (known : state.find? diff.entityName diff.id = some info)
    (versionEq : info.versionId = some diff.prevVersionId)
    (reduced : Action.reduce now state (.patch diff) = .ok next) :
    Advances now state diff.entityName diff.id diff.versionId [diff.operation] next := by
  obtain ⟨_, otherKnown, ⟨stale, _⟩ | ⟨_, _, origin, head, applied, headOk, reads⟩⟩ :=
    reduce_patch reduced
  all_goals obtain rfl := Option.some.inj (known.symm.trans otherKnown)
  · exact absurd versionEq stale
  · have found := eq_settled_of_readFrom reads (stored info known)
    refine ⟨?_, info, origin, head, known, by simp [Update.applyAll, applied], headOk,
      eq_withEntity_of_reduce reduced (by simp) (fun _ _ here => here) (fun _ here => here) found⟩
    simp only [Action.reduce, Action.update, patch, Except.bind_eq_ok] at reduced
    obtain ⟨_, ⟨other, otherKnown, updated⟩, moved⟩ := reduced
    obtain rfl := Option.some.inj (known.symm.trans (find?_of_entityInfo otherKnown))
    simp only [versionEq, ne_eq, not_true_eq_false, if_false, Except.bind_eq_ok, Except.pure_eq_ok]
      at updated
    obtain ⟨_, _, _, _, rfl⟩ := updated
    exact addressable_of_setVersion moved

/-- What is known about the entity once it has advanced. -/
theorem Advances.find? (advances : Advances now state entityName id versionId operations next) :
    ∃ info after, state.find? entityName id = some info ∧ next.find? entityName id = some after ∧
      after.versionId = some versionId ∧ after.commits = info.commits := by
  obtain ⟨_, info, origin, head, known, _, _, rfl⟩ := advances
  exact ⟨info, _, known, find?_withEntity_self _ _ _ _, rfl, rfl⟩

theorem Advances.queueReads (queue : state.QueueReads)
    (advances : Advances now state entityName id versionId operations next) : next.QueueReads := by
  obtain ⟨_, _, _, _, _, _, _, rfl⟩ := advances
  exact queue

theorem Advances.commitsStored (stored : state.CommitsStored entityName id)
    (advances : Advances now state entityName id versionId operations next) :
    next.CommitsStored entityName id := by
  obtain ⟨info, after, known, found, _, same⟩ := advances.find?
  intro other otherFound
  obtain rfl := Option.some.inj (found.symm.trans otherFound)
  exact same ▸ stored info known

/-- To advance twice is to advance by the operations of both.  The head in between was computed for
nothing. -/
theorem Advances.trans (first : Advances time state entityName id versionId operations between)
    (second : Advances now between entityName id laterVersionId laterOperations next)
    (timeless : ∀ operation ∈ operations, operation.Timeless) :
    Advances now state entityName id laterVersionId (operations ++ laterOperations) next := by
  obtain ⟨addressable, info, origin, _, known, applied, _, rfl⟩ := first
  obtain ⟨_, after, laterOrigin, head, found, laterApplied, headOk, rfl⟩ := second
  obtain rfl := Option.some.inj ((find?_withEntity_self _ _ _ _).symm.trans found)
  refine ⟨addressable, info, laterOrigin, head, known, ?_, headOk, withEntity_withEntity _ _ _ _ _⟩
  rw [Update.applyAll_append, Update.applyAll_eq_of_timeless timeless now time, applied]
  exact laterApplied

/-- When nothing reads the clock, the entity advances alike at any time. -/
theorem Advances.at_time {info : EntityInfo} (known : state.find? entityName id = some info)
    (advances : Advances time state entityName id versionId operations next)
    (timeless : ∀ operation ∈ operations, operation.Timeless) (alike : info.ReplaysAlike time now) :
    Advances now state entityName id versionId operations next := by
  rcases alike with rfl | commitsTimeless
  · exact advances
  obtain ⟨addressable, other, origin, head, otherKnown, applied, headOk, nextEq⟩ := advances
  obtain rfl := Option.some.inj (known.symm.trans otherKnown)
  refine ⟨addressable, info, origin, head, known, ?_, ?_, nextEq⟩
  · rwa [Update.applyAll_eq_of_timeless timeless now time]
  · rwa [headOf, Update.applyAll_eq_of_timeless commitsTimeless now time]

/-- Diffs that lead from the stored version to another advance the entity by their operations. -/
theorem advances_of_patchAll {info : EntityInfo} {first last : String}
    {diffs : List (Instant × VersionDiff)} (nonempty : diffs ≠ [])
    (stored : state.CommitsStored entityName id) (known : state.find? entityName id = some info)
    (versionEq : info.versionId = some first)
    (lead : VersionDiff.Lead entityName id first (diffs.map Prod.snd) last)
    (timeless : ∀ diff ∈ diffs, diff.2.operation.Timeless)
    (patched : state.patchAll diffs = .ok next) :
    Advances (diffs.getLast nonempty).1 state entityName id last
      (diffs.map fun diff => diff.2.operation) next := by
  induction diffs generalizing state info first with
  | nil => exact absurd rfl nonempty
  | cons diff rest ih =>
      obtain ⟨time, diff⟩ := diff
      obtain ⟨⟨rfl, rfl, rfl⟩, restLead⟩ := lead
      obtain ⟨diffTimeless, restTimeless⟩ := List.forall_mem_cons.1 timeless
      rw [patchAll, List.foldlM_cons, Except.bind_eq_ok] at patched
      obtain ⟨between, reduced, restPatched⟩ := patched
      have advances := advances_of_reduce_patch stored known versionEq reduced
      -- The head is the one of the last diff; the diffs before it leave only an origin behind.
      cases rest with
      | nil =>
          cases restPatched
          cases restLead
          exact advances
      | cons second rest =>
          obtain ⟨_, after, _, found, afterVersion, _⟩ := advances.find?
          exact advances.trans (ih (by simp) (advances.commitsStored stored) found afterVersion
            restLead restTimeless restPatched) (by simpa using diffTimeless)

/-- Diffs one after another make of a state what one rebase with their operations makes of it, and
so do two rebases and one with the operations of both. -/
theorem rebase_of_patchAll (state : LocalState) (restores : ofDocument state.toDocument = .ok state)
    (entityName id : String) (info : EntityInfo)
    (followed : state.find? entityName id = some info) :
    (∀ (first last : String) (diffs : List (Instant × VersionDiff)) (nonempty : diffs ≠ [])
      (now : Instant) (next : LocalState), info.versionId = some first →
      VersionDiff.Lead entityName id first (diffs.map Prod.snd) last →
      (∀ diff ∈ diffs, diff.2.operation.Timeless) →
      info.ReplaysAlike (diffs.getLast nonempty).1 now → state.patchAll diffs = .ok next →
      Action.reduce now state
        (.rebase ⟨entityName, id, last, diffs.map fun diff => diff.2.operation⟩) = .ok next) ∧
    (∀ (between last : String) (xs ys : List Update) (time later now : Instant)
      (middle next : LocalState), (∀ operation ∈ xs ++ ys, operation.Timeless) →
      info.ReplaysAlike later now →
      Action.reduce time state (.rebase ⟨entityName, id, between, xs⟩) = .ok middle →
      Action.reduce later middle (.rebase ⟨entityName, id, last, ys⟩) = .ok next →
      Action.reduce now state (.rebase ⟨entityName, id, last, xs ++ ys⟩) = .ok next) := by
  have queue := queueReads_of_ofDocument restores
  have stored := commitsStored_of_roundTrips restores entityName id
  constructor
  · intro first last diffs nonempty now next versionEq lead timeless alike patched
    have advances := advances_of_patchAll nonempty stored followed versionEq lead timeless patched
    exact (reduce_rebase_eq_ok_iff queue stored).2
      (advances.at_time followed (List.forall_mem_map.2 timeless) alike)
  · intro between last xs ys time later now middle next timeless alike reduced laterReduced
    have advances := (reduce_rebase_eq_ok_iff queue stored).1 reduced
    have laterAdvances := (reduce_rebase_eq_ok_iff (advances.queueReads queue)
      (advances.commitsStored stored)).1 laterReduced
    have both := advances.trans laterAdvances fun operation member =>
      timeless operation (List.mem_append_left ys member)
    exact (reduce_rebase_eq_ok_iff queue stored).2 (both.at_time followed timeless alike)

/-- The server has counted on, and later given the note a title. -/
def countThenTitle : List (Instant × VersionDiff) :=
  [(default, countBelow),
    (⟨1700000000, 0⟩, ⟨"a.b", "1.x", "v4", "v3",
      Update.empty.set (Path.parse "title") (.string "renamed")⟩)]

/-- Two diffs below a pending commit, in two patches, in two rebases and in one. -/
theorem rebase_of_patchAll_countThenTitle :
    ∃ next, dottedNotes.patchAll countThenTitle = .ok next ∧
      Action.reduce default dottedNotes
        (.rebase ⟨"a.b", "1.x", "v4", countThenTitle.map fun diff => diff.2.operation⟩) =
          .ok next ∧
      ∃ middle, Action.reduce default dottedNotes
        (.rebase ⟨"a.b", "1.x", "v3", [countBelow.operation]⟩) = .ok middle ∧
      ∃ last, Action.reduce default middle (.rebase ⟨"a.b", "1.x", "v4", [countBelow.operation]⟩) =
          .ok last ∧
        Action.reduce default dottedNotes
          (.rebase ⟨"a.b", "1.x", "v4", [countBelow.operation] ++ [countBelow.operation]⟩) =
            .ok last := by
  have restores : ofDocument dottedNotes.toDocument = .ok dottedNotes := rfl
  obtain ⟨info, followed, versionEq, timeless⟩ : ∃ info,
      dottedNotes.find? "a.b" "1.x" = some info ∧ info.versionId = some "v2" ∧
        ∀ commit ∈ info.commits, commit.Timeless := ⟨_, rfl, rfl, by decide⟩
  obtain ⟨next, patched⟩ : ∃ next, dottedNotes.patchAll countThenTitle = .ok next := ⟨_, rfl⟩
  obtain ⟨middle, last, reduced, laterReduced⟩ : ∃ middle last,
      Action.reduce default dottedNotes (.rebase ⟨"a.b", "1.x", "v3", [countBelow.operation]⟩) =
        .ok middle ∧
      Action.reduce default middle (.rebase ⟨"a.b", "1.x", "v4", [countBelow.operation]⟩) =
        .ok last := ⟨_, _, rfl, rfl⟩
  obtain ⟨patches, rebases⟩ :=
    rebase_of_patchAll dottedNotes restores "a.b" "1.x" info followed
  exact ⟨next, patched,
    patches "v2" "v4" countThenTitle (by simp [countThenTitle]) default next versionEq
      ⟨⟨rfl, rfl, rfl⟩, ⟨rfl, rfl, rfl⟩, rfl⟩ (by decide) (.inr timeless) patched,
    middle, reduced, last, laterReduced,
    rebases "v3" "v4" [countBelow.operation] [countBelow.operation] default default default middle
      last (by decide) (.inl rfl) reduced laterReduced⟩

end LocalState

end LocalFirst
