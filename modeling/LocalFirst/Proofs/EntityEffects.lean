import LocalFirst.Proofs.CommandEffects

/-!
# What becomes of the entities

Parts of calls that work on the queue or the network may stand before and behind an
action on an entity.  Of what the action makes of the state, only the entities are
then of interest: the other entities stay as they are, and the commits of the entity
are written and read back.
-/

namespace LocalFirst

namespace LocalState

/-- The entities became what an action makes of them. -/
def Undergoes (before : LocalState) (action : Action) (after : LocalState) : Prop :=
  ∃ now start stop, start.entities = before.entities ∧ action.reduce now start = .ok stop ∧
    after.entities = stop.entities

theorem Undergoes.of_entities {before after last : LocalState} {action : Action}
    (undergoes : before.Undergoes action after) (same : last.entities = after.entities) :
    before.Undergoes action last := by
  obtain ⟨now, start, stop, starts, reduced, stops⟩ := undergoes
  exact ⟨now, start, stop, starts, reduced, same.trans stops⟩

/-- Only one entity may differ. -/
def DiffersAt (before after : LocalState) (entityName id : String) : Prop :=
  ∀ other otherId, ¬ (other = entityName ∧ otherId = id) →
    after.find? other otherId = before.find? other otherId

theorem find?_of_entities {state next : LocalState} (same : next.entities = state.entities)
    (entityName id : String) : next.find? entityName id = state.find? entityName id := by
  rw [find?, same, find?]

/-- The commits of an entity are as they are read back. -/
def CommitsStored (state : LocalState) (entityName id : String) : Prop :=
  ∀ info, state.find? entityName id = some info → ∀ commit ∈ info.commits,
    commit.stored = .ok commit

theorem CommitsStored.of_entities {state next : LocalState} {entityName id : String}
    (stored : state.CommitsStored entityName id) (same : next.entities = state.entities) :
    next.CommitsStored entityName id := by
  intro info found
  exact stored info ((find?_of_entities same _ _).symm.trans found)

theorem commitsStored_of_read {state : LocalState} {entityName id : String} {now : EntityInfo}
    {commits : List Update} (known : state.find? entityName id = some now)
    (read : commits.mapM Update.stored = .ok now.commits) :
    state.CommitsStored entityName id := by
  intro info found
  obtain rfl := Option.some.inj (known.symm.trans found)
  exact Update.stored_of_mapM_stored read

theorem ConcernsEntity.differsAt {before start stop after : LocalState} {entityName id : String}
    (concerns : ConcernsEntity start stop entityName id) (starts : start.entities = before.entities)
    (stops : after.entities = stop.entities) : DiffersAt before after entityName id := by
  intro other otherId differ
  rw [find?_of_entities stops, concerns.others other otherId differ, find?_of_entities starts]

/-- A commit is appended, and the origin and its version stay. -/
theorem Undergoes.commit {before after : LocalState} {entityName id : String}
    {operation : Update} (undergoes : before.Undergoes (.commit entityName id operation) after) :
    DiffersAt before after entityName id ∧ ∃ info now, before.find? entityName id = some info ∧
      after.find? entityName id = some now ∧ now.versionId = info.versionId ∧
      now.origin = info.origin ∧
      (info.commits ++ [operation]).mapM Update.stored = .ok now.commits := by
  obtain ⟨_, start, stop, starts, reduced, stops⟩ := undergoes
  obtain ⟨concerns, info, _, head, known, _, _, reads⟩ := reduce_commit reduced
  obtain ⟨commits, read, nowKnown⟩ := readFrom_toDocument reads
  rw [find?_of_entities starts] at known
  rw [← find?_of_entities stops] at nowKnown
  exact ⟨concerns.differsAt starts stops, info, _, known, nowKnown, rfl, rfl, read⟩

/-- A patch leaves everything as it is, or moves the origin and leaves the commits. -/
theorem Undergoes.patch {before after : LocalState} {diff : VersionDiff}
    (undergoes : before.Undergoes (.patch diff) after) :
    DiffersAt before after diff.entityName diff.id ∧
      ∃ info now, before.find? diff.entityName diff.id = some info ∧
        after.find? diff.entityName diff.id = some now ∧
        (now = info ∨ info.commits.mapM Update.stored = .ok now.commits) := by
  obtain ⟨_, start, stop, starts, reduced, stops⟩ := undergoes
  obtain ⟨info, known, ⟨_, rfl⟩ | ⟨_, concerns, origin, head, _, _, reads⟩⟩ := reduce_patch reduced
  · have same : after.entities = before.entities := stops.trans starts
    rw [find?_of_entities starts] at known
    exact ⟨fun other otherId _ => find?_of_entities same other otherId, info, info, known,
      by rw [find?_of_entities same, known], .inl rfl⟩
  · obtain ⟨commits, read, nowKnown⟩ := readFrom_toDocument reads
    rw [find?_of_entities starts] at known
    rw [← find?_of_entities stops] at nowKnown
    exact ⟨concerns.differsAt starts stops, info, _, known, nowKnown, .inr read⟩

theorem Undergoes.commitsStored_of_commit {before after : LocalState} {entityName id : String}
    {operation : Update} (undergoes : before.Undergoes (.commit entityName id operation) after) :
    after.CommitsStored entityName id := by
  obtain ⟨_, _, _, _, nowKnown, _, _, read⟩ := undergoes.commit
  exact commitsStored_of_read nowKnown read

theorem Undergoes.commitsStored_of_patch {before after : LocalState} {diff : VersionDiff}
    (undergoes : before.Undergoes (.patch diff) after)
    (stored : before.CommitsStored diff.entityName diff.id) :
    after.CommitsStored diff.entityName diff.id := by
  obtain ⟨_, info, now, known, nowKnown, rfl | read⟩ := undergoes.patch
  · intro other found
    obtain rfl := Option.some.inj (nowKnown.symm.trans found)
    exact stored _ known
  · exact commitsStored_of_read nowKnown read

/-- A rebase replays operations on the origin and leaves the commits. -/
theorem Undergoes.rebase {before after : LocalState} {command : PushCommand}
    (undergoes : before.Undergoes (.rebase command) after) :
    DiffersAt before after command.entityName command.id ∧
      ∃ time info now, before.find? command.entityName command.id = some info ∧
        after.find? command.entityName command.id = some now ∧
        now.versionId = some command.versionId ∧
        Update.applyAll time info.origin command.operations = .ok now.origin ∧
        info.commits.mapM Update.stored = .ok now.commits ∧
        (info.commits = [] → now.head = none) := by
  obtain ⟨time, start, stop, starts, reduced, stops⟩ := undergoes
  obtain ⟨concerns, info, origin, head, known, applied, headOk, reads⟩ := reduce_rebase reduced
  obtain ⟨commits, read, nowKnown⟩ := readFrom_toDocument reads
  rw [find?_of_entities starts] at known
  rw [← find?_of_entities stops] at nowKnown
  refine ⟨concerns.differsAt starts stops, time, info, _, known, nowKnown, rfl, applied, read,
    fun clean => ?_⟩
  simp only [headOf, clean, List.isEmpty_nil, if_true, Except.ok.injEq] at headOk
  subst headOk
  rfl

/-- A synchronisation replays operations and acknowledged commits on a given origin, and drops
as many commits from the front. -/
theorem Undergoes.synchronizeFrom {before after : LocalState} {command : PushCommand}
    {origin : Document} {acknowledged : List Update}
    (undergoes : before.Undergoes (.synchronizeFrom command origin acknowledged) after) :
    DiffersAt before after command.entityName command.id ∧
      ∃ time info now, before.find? command.entityName command.id = some info ∧
        after.find? command.entityName command.id = some now ∧
        now.versionId = some command.versionId ∧
        Update.applyAll time origin (command.operations ++ acknowledged) = .ok now.origin ∧
        (info.commits.drop acknowledged.length).mapM Update.stored = .ok now.commits := by
  obtain ⟨time, start, stop, starts, reduced, stops⟩ := undergoes
  obtain ⟨concerns, info, synced, head, known, applied, _, reads⟩ :=
    reduce_synchronizeFrom reduced
  obtain ⟨commits, read, nowKnown⟩ := readFrom_toDocument reads
  rw [find?_of_entities starts] at known
  rw [← find?_of_entities stops] at nowKnown
  exact ⟨concerns.differsAt starts stops, time, info, _, known, nowKnown, rfl, applied, read⟩

/-- A followed entity stands under the id that it holds, and has no commits. -/
theorem Undergoes.follow {before after : LocalState} {entityName : String} {entity : Document}
    {versionId : Option String}
    (undergoes : before.Undergoes (.follow entityName entity versionId) after) :
    ∃ id, (entity.get? "id").bind Document.string? = some id ∧
      DiffersAt before after entityName id ∧
      after.find? entityName id = some (.clean entity versionId) := by
  obtain ⟨_, start, stop, starts, reduced, stops⟩ := undergoes
  obtain ⟨id, idOk, concerns, known⟩ := reduce_follow reduced
  exact ⟨id, idOk, concerns.differsAt starts stops, (find?_of_entities stops _ _).trans known⟩

end LocalState

end LocalFirst
