import LocalFirst.Proofs.ActionEffects
import LocalFirst.Proofs.ReadBack

/-!
# Actions that go through

On a state that can be read back, forgetting a request never fails, and a synchronisation fails only
when the operations, the acknowledged commits or the commits behind them cannot be replayed or
written.
-/

namespace LocalFirst

namespace LocalState

theorem entityInfo_of_find? {state : LocalState} {entityName id : String} {info : EntityInfo}
    (known : state.find? entityName id = some info) :
    state.entityInfo entityName id = .ok info := by
  rw [entityInfo, known]

/-- A command beside the entities goes through when what it writes is a state again. -/
theorem exists_applyCommand_beside {now : Instant} {state changed : LocalState} {update : Update}
    (nonempty : update.isEmpty = false) (reaches : touchedEntities update = some [])
    (beside : changed.entities = (state.scopedTo []).entities) (queue : changed.QueueReads)
    (updated : update.apply now (state.scopedTo []).toDocument = .ok changed.toDocument) :
    ∃ next, state.applyCommand now update = .ok next := by
  have noEntity : ∀ entityName id entity, changed.toDocument.entityAt entityName id = some entity →
      ∃ info, EntityInfo.ofDocument entity = .ok info := by
    intro entityName id entity found
    have unknown : changed.find? entityName id = none := by
      rw [find?, beside]
      exact (find?_scopedTo state [] entityName id).trans (by simp)
    rw [entityAt_toDocument, unknown] at found
    cases found
  obtain ⟨result, read⟩ := exists_ofDocument (holdsEntities_toDocument changed) (fun _ _ => rfl)
    queue noEntity
  rw [applyCommand_eq nonempty reaches, apply_eq, updated]
  exact ⟨_, congrArg (Except.map _ <| Except.mapError _ ·) read⟩

/-- A request can be forgotten. -/
theorem exists_reduce_removeNetworkRequest {state : LocalState} (queue : state.QueueReads)
    (now : Instant) (tag : String) :
    ∃ next, Action.reduce now state (.removeNetworkRequest tag) = .ok next ∧ next.QueueReads := by
  let requests := state.network.requests.erase tag
  let without : LocalState :=
    { state.scopedTo [] with network := { state.network with requests := requests } }
  have updated : (state.removeRequest tag).apply now (state.scopedTo []).toDocument =
      .ok without.toDocument := by
    obtain ⟨entities, unreachedCommits, network, session, error⟩ := state
    cases session <;> cases error <;> rfl
  have nonempty : (state.removeRequest tag).isEmpty = false := rfl
  have beside : without.entities = (state.scopedTo []).entities := rfl
  obtain ⟨next, applied⟩ := exists_applyCommand_beside nonempty rfl beside
    (by exact queue : without.QueueReads) updated
  exact ⟨next, applied, queueReads_of_applyCommand nonempty applied⟩

/-- A request can be recorded. -/
theorem exists_reduce_networkRequest {state : LocalState} (queue : state.QueueReads)
    (now : Instant) (tag : String) :
    ∃ next, Action.reduce now state (.networkRequest tag) = .ok next ∧ next.QueueReads := by
  let recorded : LocalState :=
    { state.scopedTo [] with
      network := { state.network with requests := state.network.requests ++ [tag] } }
  have written : recorded.network.toDocument = .object [
      ("requests", .array (Push.run ⟨[.string tag], none, none, none⟩
        (state.network.requests.map Document.string))),
      ("isOnline", .bool state.network.isOnline)] := by
    rw [run_push_tag]
    rfl
  have updated : (addRequest tag).apply now (state.scopedTo []).toDocument =
      .ok recorded.toDocument := by
    unfold toDocument
    rw [written]
    obtain ⟨entities, unreachedCommits, network, session, error⟩ := state
    cases session <;> cases error <;> rfl
  have nonempty : (addRequest tag).isEmpty = false := rfl
  have beside : recorded.entities = (state.scopedTo []).entities := rfl
  obtain ⟨next, applied⟩ := exists_applyCommand_beside nonempty rfl beside
    (by exact queue : recorded.QueueReads) updated
  exact ⟨next, applied, queueReads_of_applyCommand nonempty applied⟩

/-- A command that writes one entity goes through when its update does, and the commits of the
entity can be written. -/
theorem exists_applyCommand {now : Instant} {state : LocalState} {update : Update}
    {touched : List (String × String)} {entityName id : String} {value : EntityInfo}
    {document : Document} {commits : List Update} (queue : state.QueueReads)
    (nonempty : update.isEmpty = false) (reaches : touchedEntities update = some touched)
    (onlyEntity : ∀ other otherId,
      (other, otherId) ∈ touched ↔ other = entityName ∧ otherId = id)
    (updated : update.apply now (state.scopedTo touched).toDocument = .ok document)
    (changes : Document.ChangesEntity (state.scopedTo touched).toDocument document entityName id
      (some value.toDocument))
    (written : value.commits.mapM Update.stored = .ok commits) :
    ∃ next, state.applyCommand now update = .ok next := by
  have readable : ∀ other otherId entity, document.entityAt other otherId = some entity →
      ∃ info, EntityInfo.ofDocument entity = .ok info := by
    intro other otherId entity found
    rw [changes.entityAt] at found
    split at found
    · obtain rfl := Option.some.inj found
      exact ⟨_, EntityInfo.ofDocument_toDocument_eq_ok.2 ⟨commits, written, rfl⟩⟩
    next differ =>
      have untouched : (other, otherId) ∉ touched := fun member =>
        differ ((onlyEntity other otherId).1 member)
      rw [entityAt_toDocument, find?_scopedTo, if_neg untouched] at found
      cases found
  obtain ⟨result, read⟩ := exists_ofDocument changes.holds changes.beside (by exact queue) readable
  rw [applyCommand_eq nonempty reaches, apply_eq, updated]
  exact ⟨_, congrArg (Except.map _ <| Except.mapError _ ·) read⟩

/-- An entity can be set as a whole when it can be addressed and its commits can be written. -/
theorem exists_applyCommand_set {state : LocalState} {entityName id : String} {value : EntityInfo}
    {commits : List Update} (queue : state.QueueReads)
    (addressable : (entityPath entityName id).fault? = none)
    (written : value.commits.mapM Update.stored = .ok commits) (now : Instant) :
    ∃ next, state.applyCommand now
      (Update.empty.set (entityPath entityName id) value.toDocument) = .ok next := by
  let update := Update.empty.set (entityPath entityName id) value.toDocument
  have holds := holdsEntities_toDocument (state.scopedTo [(entityName, id)])
  obtain ⟨document, ran⟩ := Entry.exists_run_set holds addressable now value.toDocument
  have updated : update.apply now (state.scopedTo [(entityName, id)]).toDocument =
      .ok document := by
    change (Entry.run now _ _ >>= fun changed => pure changed) = _
    rw [ran]
    rfl
  have notEmpty : update.isEmpty = false := rfl
  exact exists_applyCommand queue notEmpty
    (by rfl : touchedEntities update = some [(entityName, id)]) (by simp) updated
    (Entry.changesEntity_of_set holds ran) written

/-- A synchronisation goes through when the entity can be addressed, the operations, the
acknowledged commits and the commits behind them can be replayed, and these can be written. -/
theorem exists_reduce_synchronizeFrom {now : Instant} {state : LocalState}
    {command : PushCommand} {origin synced head : Document} {acknowledged rest : List Update}
    {info : EntityInfo} (queue : state.QueueReads)
    (addressable : (entityPath command.entityName command.id).fault? = none)
    (known : state.find? command.entityName command.id = some info)
    (replayed : Update.applyAll now origin (command.operations ++ acknowledged) = .ok synced)
    (headOk : headOf now synced (info.commits.drop acknowledged.length) = .ok head)
    (written : (info.commits.drop acknowledged.length).mapM Update.stored = .ok rest) :
    ∃ next, Action.reduce now state (.synchronizeFrom command origin acknowledged) = .ok next := by
  let value : EntityInfo := ⟨synced, some command.versionId, info.commits.drop acknowledged.length,
    if head.isNull then none else some head⟩
  let update := Update.empty.set (entityPath command.entityName command.id) value.toDocument
  have updateOk : Action.update now state (.synchronizeFrom command origin acknowledged) =
      .ok update := by
    simp only [Action.update, synchronizeFrom, Except.bind_eq_ok, Except.pure_eq_ok,
      Except.mapError_eq_ok]
    exact ⟨info, entityInfo_of_find? known, synced, replayed, head, headOk, rfl⟩
  obtain ⟨next, applied⟩ : ∃ next, state.applyCommand now update = .ok next :=
    exists_applyCommand_set queue addressable (by exact written : value.commits.mapM _ = _) now
  refine ⟨next, ?_⟩
  simp only [Action.reduce, Except.bind_eq_ok]
  exact ⟨update, updateOk, applied⟩

/-- Fields of a followed entity can be set. -/
theorem exists_runs_fields {document entity : Document} {entityName id : String}
    {edits : List (String × Edit)} (sets : ∀ edit ∈ edits, ∃ value, edit.2 = .set value)
    (holds : document.HoldsEntities) (found : document.entityAt entityName id = some entity)
    (isObject : entity.IsObject)
    (addressable : ∀ edit ∈ edits, (entityField entityName id edit.1).fault? = none)
    (now : Instant) :
    ∃ result, (edits.map fun edit => (⟨entityField entityName id edit.1, edit.2⟩ : Entry)).foldlM
      (Entry.run now) document = .ok result := by
  induction edits generalizing document entity with
  | nil => exact ⟨document, rfl⟩
  | cons edit rest ih =>
      obtain ⟨field, edit⟩ := edit
      obtain ⟨⟨value, rfl⟩, restSets⟩ := List.forall_mem_cons.1 sets
      obtain ⟨fieldAddressable, restAddressable⟩ := List.forall_mem_cons.1 addressable
      obtain ⟨between, ran⟩ :=
        Entry.exists_run_set_field holds found isObject fieldAddressable now value
      obtain ⟨node, acted, changed⟩ :=
        Entry.changesEntity_of_field holds found (by simp [Edit.operator]) ran
      have nodeFound : between.entityAt entityName id = some node := by
        rw [changed.entityAt, if_pos ⟨rfl, rfl⟩]
      obtain ⟨result, restRan⟩ := ih restSets changed.holds nodeFound
        (Edit.isObject_of_act isObject acted) restAddressable
      refine ⟨result, ?_⟩
      rw [List.map_cons, List.foldlM_cons, ran]
      exact restRan

theorem entityField_addressable {entityName id field : String}
    (addressable : (entityPath entityName id).fault? = none) (nonempty : field.isEmpty = false) :
    (entityField entityName id field).fault? = none := by
  simp only [entityField, entityPath, Path.child, Path.fault?, Path.isRoot] at addressable ⊢
  simp_all

/-- Setting fields of a followed entity goes through when the entity can be addressed and what it
becomes can be written. -/
theorem exists_applyCommand_fields {now : Instant} {state : LocalState} {update : Update}
    {entityName id : String} {info value : EntityInfo} {commits : List Update}
    (edits : List (String × Edit)) (nonempty : edits ≠ [])
    (entries : update.entries.toList =
      edits.map (fun edit => ⟨entityField entityName id edit.1, edit.2⟩))
    (sets : ∀ edit ∈ edits, edit.1.isEmpty = false ∧ ∃ value, edit.2 = .set value)
    (queue : state.QueueReads) (addressable : (entityPath entityName id).fault? = none)
    (known : state.find? entityName id = some info)
    (runs : runFields now info.toDocument edits = .ok value.toDocument)
    (written : value.commits.mapM Update.stored = .ok commits) :
    ∃ next, state.applyCommand now update = .ok next := by
  let touched := edits.map fun _ => (entityName, id)
  have notRename : ∀ edit ∈ edits, edit.2.operator ≠ .rename := by
    intro edit member
    obtain ⟨_, value, isSet⟩ := sets edit member
    simp [isSet, Edit.operator]
  have onlyEntity := mem_touched_of_fields nonempty entityName id
  have holds := holdsEntities_toDocument (state.scopedTo touched)
  have found : (state.scopedTo touched).toDocument.entityAt entityName id =
      some info.toDocument := by
    rw [entityAt_toDocument, find?_scopedTo, if_pos ((onlyEntity _ _).2 ⟨rfl, rfl⟩), known]
    rfl
  obtain ⟨document, ran⟩ := exists_runs_fields (fun edit member => (sets edit member).2) holds found
    ⟨_, rfl⟩ (fun edit member => entityField_addressable addressable (sets edit member).1) now
  obtain ⟨node, acted, changed⟩ := changesEntity_of_fields nonempty notRename holds found ran
  obtain rfl := Except.ok.inj (runs.symm.trans acted)
  have updated : update.apply now (state.scopedTo touched).toDocument = .ok document := by
    rw [Update.apply, entries]
    exact ran
  have updateNonempty : update.isEmpty = false := by
    simp [Update.isEmpty, Keyed.isEmpty, entries, nonempty]
  exact exists_applyCommand queue updateNonempty (touchedEntities_of_fields entries notRename)
    onlyEntity updated changed written

/-- A revert goes through when the entity can be addressed, the operations can be written, and the
commits that stay can be replayed and written. -/
theorem exists_reduce_revert {now : Instant} {state : LocalState} {entityName id : String}
    {operations requests commits : List Update} {info : EntityInfo} {head : Document}
    (queue : state.QueueReads) (addressable : (entityPath entityName id).fault? = none)
    (known : state.find? entityName id = some info)
    (requestsOk : operations.mapM Update.stored = .ok requests)
    (headOk : headOf now info.origin (removeAll requests info.commits) = .ok head)
    (written : (removeAll requests info.commits).mapM Update.stored = .ok commits) :
    ∃ next, Action.reduce now state (.revert entityName id operations) = .ok next := by
  let remaining := removeAll requests info.commits
  let value : EntityInfo := { info with commits := remaining, head := some head }
  obtain ⟨next, applied⟩ := exists_applyCommand_fields
    [("commits", .set (.array (remaining.map Update.toDocument))), ("head", .set head)]
    (by simp) (toList_revert entityName id _ head) (by simp) queue addressable known
    (by rfl : runFields now info.toDocument _ = .ok value.toDocument) written
  refine ⟨next, ?_⟩
  simp only [Action.reduce, Action.update, revert, entityInfo_of_find? known, Except.bind_eq_ok,
    foldlM_removeFirst_eq_ok]
  exact ⟨_, ⟨info, rfl, remaining, ⟨requests, requestsOk, rfl⟩, head, headOk, rfl⟩, applied⟩

/-- An entity can be moved to an origin and a version when it can be addressed and its commits can
be written. -/
theorem exists_applyCommand_setVersion {state : LocalState} {entityName id : String}
    {info : EntityInfo} {commits : List Update} (queue : state.QueueReads)
    (addressable : (entityPath entityName id).fault? = none)
    (known : state.find? entityName id = some info)
    (written : info.commits.mapM Update.stored = .ok commits) (now : Instant) (origin : Document)
    (versionId : String) (head : Document) :
    ∃ next, state.applyCommand now (setVersion entityName id origin versionId head) = .ok next := by
  let value : EntityInfo := ⟨origin, some versionId, info.commits, some head⟩
  exact exists_applyCommand_fields
    [("head", .set head), ("origin", .set origin), ("versionId", .set (.string versionId))]
    (by simp) (toList_setVersion entityName id origin versionId head) (by simp) queue addressable
    known (by rfl : runFields now info.toDocument _ = .ok value.toDocument) written

/-- A patch for the stored version goes through when the entity can be addressed, the operation
can be applied and the commits replayed on its result, and these can be written. -/
theorem exists_reduce_patch {now : Instant} {state : LocalState} {diff : VersionDiff}
    {info : EntityInfo} {origin head : Document} {commits : List Update}
    (queue : state.QueueReads)
    (addressable : (entityPath diff.entityName diff.id).fault? = none)
    (known : state.find? diff.entityName diff.id = some info)
    (versionEq : info.versionId = some diff.prevVersionId)
    (applied : diff.operation.apply now info.origin = .ok origin)
    (headOk : headOf now origin info.commits = .ok head)
    (written : info.commits.mapM Update.stored = .ok commits) :
    ∃ next, Action.reduce now state (.patch diff) = .ok next := by
  obtain ⟨next, moved⟩ := exists_applyCommand_setVersion queue addressable known written now origin
    diff.versionId head
  refine ⟨next, ?_⟩
  simp only [Action.reduce, Action.update, patch, entityInfo_of_find? known, Except.bind_eq_ok]
  exact ⟨_, ⟨info, rfl, by simp [applied, headOk, versionEq]⟩, moved⟩

/-- A rebase goes through when the entity can be addressed, the operations can be applied and the
commits replayed on their result, and these can be written. -/
theorem exists_reduce_rebase {now : Instant} {state : LocalState} {command : PushCommand}
    {info : EntityInfo} {origin head : Document} {commits : List Update}
    (queue : state.QueueReads)
    (addressable : (entityPath command.entityName command.id).fault? = none)
    (known : state.find? command.entityName command.id = some info)
    (applied : Update.applyAll now info.origin command.operations = .ok origin)
    (headOk : headOf now origin info.commits = .ok head)
    (written : info.commits.mapM Update.stored = .ok commits) :
    ∃ next, Action.reduce now state (.rebase command) = .ok next := by
  obtain ⟨next, moved⟩ := exists_applyCommand_setVersion queue addressable known written now origin
    command.versionId head
  refine ⟨next, ?_⟩
  simp only [Action.reduce, Action.update, rebase, entityInfo_of_find? known, Except.bind_eq_ok]
  exact ⟨_, ⟨info, rfl, by simp [applied, headOk]⟩, moved⟩

/-- A synchronisation that goes through has addressed the entity. -/
theorem addressable_of_reduce_synchronizeFrom {now : Instant} {state next : LocalState}
    {command : PushCommand} {origin : Document} {acknowledged : List Update}
    (reduced : Action.reduce now state (.synchronizeFrom command origin acknowledged) =
      .ok next) :
    (entityPath command.entityName command.id).fault? = none := by
  simp only [Action.reduce, Action.update, synchronizeFrom, Except.bind_eq_ok, Except.pure_eq_ok]
    at reduced
  obtain ⟨_, ⟨_, _, _, _, head, _, rfl⟩, applied⟩ := reduced
  obtain ⟨_, _, updated, _⟩ := applyCommand_eq_ok rfl
    (by rfl : touchedEntities _ = some [(command.entityName, command.id)]) applied
  simp only [Update.apply, Update.set, Update.insert, Update.empty, Keyed.insert, Keyed.empty,
    Keyed.insertInto, List.foldlM_cons, Except.bind_eq_ok] at updated
  obtain ⟨_, ran, _⟩ := updated
  exact Entry.fault?_of_run (by simp [Edit.operator]) ran

/-- To synchronise is to synchronise from the stored origin. -/
theorem reduce_synchronize_eq {now : Instant} {state : LocalState} {command : PushCommand}
    {acknowledged : List Update} {info : EntityInfo}
    (known : state.find? command.entityName command.id = some info) :
    Action.reduce now state (.synchronize command acknowledged) =
      Action.reduce now state (.synchronizeFrom command info.origin acknowledged) := by
  simp only [Action.reduce, Action.update, synchronize, entityInfo_of_find? known]
  rfl

end LocalState

end LocalFirst
