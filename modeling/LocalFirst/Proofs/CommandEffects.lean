import LocalFirst.Proofs.CommandUpdates

/-!
# Effects of the actions on one entity

An action on one entity leaves the others alone, and the queue, the network, the session and the
last error as they are.  What becomes of the entity itself is said by one lemma for each action.
-/

namespace LocalFirst

namespace LocalState

/-- A commit is appended in its stored form, and moves the head. -/
theorem reduce_commit {now : Instant} {state next : LocalState} {entityName id : String}
    {operation : Update}
    (reduced : Action.reduce now state (.commit entityName id operation) = .ok next) :
    ConcernsEntity state next entityName id ∧
      ∃ info parsed head, state.find? entityName id = some info ∧
        operation.stored = .ok parsed ∧ parsed.apply now info.current = .ok head ∧
        EntityInfo.ReadFrom
          (some (EntityInfo.toDocument
            { info with commits := info.commits ++ [operation], head := some head }))
          (next.find? entityName id) := by
  simp only [Action.reduce, Action.update, commit, current, Except.bind_eq_ok, Except.pure_eq_ok,
    Except.mapError_eq_ok, Except.map_eq_ok] at reduced
  obtain ⟨_, ⟨_, ⟨info, known, rfl⟩, parsed, parsedOk, head, headOk, rfl⟩, applied⟩ := reduced
  have found := find?_of_entityInfo known
  obtain ⟨concerns, reads⟩ := concernsEntity_of_fields
    [("head", .set head), ("commits", .push ⟨[operation.toDocument], none, none, none⟩)]
    (by simp) (toList_commit entityName id operation.toDocument head) (by simp [Edit.operator])
    found rfl applied
  refine ⟨concerns, info, parsed, head, found, parsedOk, headOk, ?_⟩
  have written : Push.run ⟨[operation.toDocument], none, none, none⟩
      (info.commits.map Update.toDocument) =
        (info.commits ++ [operation]).map Update.toDocument := by
    simp [Push.run, Push.place, Push.cut, List.take_of_length_le, List.drop_of_length_le]
  rw [written] at reads
  exact reads

/-- Drop the first equal commit for each request. -/
def removeAll (requests commits : List Update) : List Update :=
  requests.foldl (fun commits request => removeFirst request commits) commits

theorem removeFirst_sublist (request : Update) (commits : List Update) :
    (removeFirst request commits).Sublist commits := by
  fun_induction removeFirst request commits with
  | case1 => exact .slnil
  | case2 commit commits => exact List.sublist_cons_self commit commits
  | case3 commit commits _ ih => exact ih.cons_cons commit

theorem removeAll_sublist (requests commits : List Update) :
    (removeAll requests commits).Sublist commits := by
  induction requests generalizing commits with
  | nil => exact .refl commits
  | cons request rest ih => exact (ih _).trans (removeFirst_sublist request commits)

/-- What a revert leaves of the commits: the requests are compared in stored form, so that all of
them have to be read before anything comes of them. -/
theorem foldlM_removeFirst_eq_ok {operations commits remaining : List Update} :
    operations.foldlM (fun commits operation => do
      let stored ← operation.stored.mapError StateError.update
      return removeFirst stored commits) commits = .ok remaining ↔
    ∃ requests, operations.mapM Update.stored = .ok requests ∧
      removeAll requests commits = remaining := by
  induction operations generalizing commits with
  | nil => simp [removeAll]
  | cons operation rest ih =>
      simp only [List.foldlM_cons, List.mapM_cons, Except.bind_eq_ok, Except.pure_eq_ok,
        Except.mapError_eq_ok, ih]
      constructor
      · rintro ⟨_, ⟨parsed, parsedOk, rfl⟩, requests, restOk, removed⟩
        exact ⟨_, ⟨parsed, parsedOk, requests, restOk, rfl⟩, removed⟩
      · rintro ⟨_, ⟨parsed, parsedOk, requests, restOk, rfl⟩, removed⟩
        exact ⟨_, ⟨parsed, parsedOk, rfl⟩, requests, restOk, removed⟩

/-- A revert drops the first equal commit for each operation and rebuilds the head. -/
theorem reduce_revert {now : Instant} {state next : LocalState} {entityName id : String}
    {operations : List Update}
    (reduced : Action.reduce now state (.revert entityName id operations) = .ok next) :
    ConcernsEntity state next entityName id ∧
      ∃ info requests head, state.find? entityName id = some info ∧
        operations.mapM Update.stored = .ok requests ∧
        headOf now info.origin (removeAll requests info.commits) = .ok head ∧
        EntityInfo.ReadFrom
          (some (EntityInfo.toDocument
            { info with commits := removeAll requests info.commits, head := some head }))
          (next.find? entityName id) := by
  simp only [Action.reduce, Action.update, revert, Except.bind_eq_ok, Except.pure_eq_ok,
    foldlM_removeFirst_eq_ok] at reduced
  obtain ⟨_, ⟨info, known, _, ⟨requests, requestsOk, rfl⟩, head, headOk, rfl⟩, applied⟩ := reduced
  have found := find?_of_entityInfo known
  obtain ⟨concerns, reads⟩ := concernsEntity_of_fields
    [("commits", .set (.array ((removeAll requests info.commits).map Update.toDocument))),
      ("head", .set head)]
    (by simp) (toList_revert entityName id _ head) (by simp [Edit.operator]) found rfl applied
  exact ⟨concerns, info, requests, head, found, requestsOk, headOk, reads⟩

/-- Moving an entity to an origin and a version. -/
theorem concernsEntity_of_setVersion {now : Instant} {state next : LocalState}
    {entityName id versionId : String} {info : EntityInfo} {origin head : Document}
    (known : state.find? entityName id = some info)
    (applied : state.applyCommand now (setVersion entityName id origin versionId head) =
      .ok next) :
    ConcernsEntity state next entityName id ∧
      EntityInfo.ReadFrom
        (some (EntityInfo.toDocument ⟨origin, some versionId, info.commits, some head⟩))
        (next.find? entityName id) :=
  concernsEntity_of_fields
    [("head", .set head), ("origin", .set origin),
      ("versionId", .set (.string versionId))]
    (by simp) (toList_setVersion entityName id origin versionId head) (by simp [Edit.operator])
    known rfl applied

/-- A patch moves an entity from the version before the diff to the version of the diff, and
changes nothing on any other version. -/
theorem reduce_patch {now : Instant} {state next : LocalState} {diff : VersionDiff}
    (reduced : Action.reduce now state (.patch diff) = .ok next) :
    ∃ info, state.find? diff.entityName diff.id = some info ∧
      ((info.versionId ≠ some diff.prevVersionId ∧ next = state) ∨
        (info.versionId = some diff.prevVersionId ∧
          ConcernsEntity state next diff.entityName diff.id ∧
          ∃ origin head, diff.operation.apply now info.origin = .ok origin ∧
            headOf now origin info.commits = .ok head ∧
            EntityInfo.ReadFrom
              (some (EntityInfo.toDocument ⟨origin, some diff.versionId, info.commits, some head⟩))
              (next.find? diff.entityName diff.id))) := by
  simp only [Action.reduce, Action.update, patch, Except.bind_eq_ok] at reduced
  obtain ⟨update, ⟨info, known, updated⟩, applied⟩ := reduced
  refine ⟨info, find?_of_entityInfo known, ?_⟩
  split at updated
  next stale =>
    cases updated
    exact .inl ⟨stale, (Except.ok.inj applied).symm⟩
  next fresh =>
    simp only [Except.bind_eq_ok, Except.pure_eq_ok, Except.mapError_eq_ok] at updated
    obtain ⟨origin, originOk, head, headOk, rfl⟩ := updated
    obtain ⟨concerns, reads⟩ := concernsEntity_of_setVersion (find?_of_entityInfo known) applied
    exact .inr ⟨not_not.1 fresh, concerns, origin, head, originOk, headOk, reads⟩

/-- A rebase replays the operations on the stored origin. -/
theorem reduce_rebase {now : Instant} {state next : LocalState} {command : PushCommand}
    (reduced : Action.reduce now state (.rebase command) = .ok next) :
    ConcernsEntity state next command.entityName command.id ∧
      ∃ info origin head, state.find? command.entityName command.id = some info ∧
        Update.applyAll now info.origin command.operations = .ok origin ∧
        headOf now origin info.commits = .ok head ∧
        EntityInfo.ReadFrom
          (some (EntityInfo.toDocument ⟨origin, some command.versionId, info.commits, some head⟩))
          (next.find? command.entityName command.id) := by
  simp only [Action.reduce, Action.update, rebase, Except.bind_eq_ok, Except.pure_eq_ok,
    Except.mapError_eq_ok] at reduced
  obtain ⟨_, ⟨info, known, origin, originOk, head, headOk, rfl⟩, applied⟩ := reduced
  have found := find?_of_entityInfo known
  obtain ⟨concerns, reads⟩ := concernsEntity_of_setVersion found applied
  exact ⟨concerns, info, origin, head, found, originOk, headOk, reads⟩

/-- A synchronisation replays operations and acknowledged commits on a given origin, and
drops as many commits from the front. -/
theorem reduce_synchronizeFrom {now : Instant} {state next : LocalState} {command : PushCommand}
    {origin : Document} {acknowledged : List Update}
    (reduced : Action.reduce now state (.synchronizeFrom command origin acknowledged) =
      .ok next) :
    ConcernsEntity state next command.entityName command.id ∧
      ∃ info synced head, state.find? command.entityName command.id = some info ∧
        Update.applyAll now origin (command.operations ++ acknowledged) = .ok synced ∧
        headOf now synced (info.commits.drop acknowledged.length) = .ok head ∧
        EntityInfo.ReadFrom
          (some (EntityInfo.toDocument
            ⟨synced, some command.versionId, info.commits.drop acknowledged.length,
              if head.isNull then none else some head⟩))
          (next.find? command.entityName command.id) := by
  simp only [Action.reduce, Action.update, synchronizeFrom, Except.bind_eq_ok, Except.pure_eq_ok,
    Except.mapError_eq_ok] at reduced
  obtain ⟨_, ⟨info, known, synced, syncedOk, head, headOk, rfl⟩, applied⟩ := reduced
  obtain ⟨concerns, reads⟩ := concernsEntity_of_set applied
  exact ⟨concerns, info, synced, head, find?_of_entityInfo known, syncedOk, headOk, reads⟩

/-- To synchronise is to synchronise from the stored origin. -/
theorem reduce_synchronize {now : Instant} {state next : LocalState} {command : PushCommand}
    {acknowledged : List Update}
    (reduced : Action.reduce now state (.synchronize command acknowledged) = .ok next) :
    ∃ info, state.find? command.entityName command.id = some info ∧
      Action.reduce now state (.synchronizeFrom command info.origin acknowledged) = .ok next := by
  simp only [Action.reduce, Action.update, synchronize, Except.bind_eq_ok] at reduced ⊢
  obtain ⟨update, ⟨info, known, updated⟩, applied⟩ := reduced
  exact ⟨info, find?_of_entityInfo known, update, updated, applied⟩

theorem entityId_eq_ok {entityName id : String} {entity : Document} :
    entityId entityName entity = .ok id ↔ (entity.get? "id").bind Document.string? = some id := by
  unfold entityId
  cases (entity.get? "id").bind Document.string? <;> simp

/-- A followed entity stands under the id that it holds, and has no commits. -/
theorem reduce_follow {now : Instant} {state next : LocalState} {entityName : String}
    {entity : Document} {versionId : Option String}
    (reduced : Action.reduce now state (.follow entityName entity versionId) = .ok next) :
    ∃ id, (entity.get? "id").bind Document.string? = some id ∧
      ConcernsEntity state next entityName id ∧
      next.find? entityName id = some (.clean entity versionId) := by
  simp only [Action.reduce, Action.update, follow, Except.bind_eq_ok, Except.pure_eq_ok]
    at reduced
  obtain ⟨_, ⟨id, idOk, rfl⟩, applied⟩ := reduced
  obtain ⟨concerns, reads⟩ := concernsEntity_of_set applied
  obtain ⟨commits, commitsOk, known⟩ := readFrom_toDocument reads
  cases commitsOk
  exact ⟨id, entityId_eq_ok.1 idOk, concerns, known⟩

theorem reduce_unfollow {now : Instant} {state next : LocalState} {entityName id : String}
    (reduced : Action.reduce now state (.unfollow entityName id) = .ok next) :
    ConcernsEntity state next entityName id ∧ next.find? entityName id = none := by
  simp only [Action.reduce, Action.update, Except.bind_eq_ok, Except.ok.injEq,
    exists_eq_left'] at reduced
  refine concernsEntity_of_applyCommand [(entityName, id)] none rfl rfl
    (by simp) reduced ?_
  intro document result holds _ updated
  simp only [Update.apply, unfollow, Update.unset, Update.insert, Update.empty, Keyed.insert,
    Keyed.empty, Keyed.insertInto, List.foldlM_cons, List.foldlM_nil, Except.bind_eq_ok,
    Except.pure_eq_ok] at updated
  obtain ⟨_, ran, rfl⟩ := updated
  exact Entry.changesEntity_of_unset holds ran

end LocalState

end LocalFirst
