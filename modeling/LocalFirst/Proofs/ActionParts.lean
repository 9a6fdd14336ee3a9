import LocalFirst.Proofs.ActionEffects
import LocalFirst.Proofs.UpdateFootprint

/-!
# The part of an action

Each action is about some entities and some fields beside them.  The update of a command stays
within them, as names and ids are single segments of the paths that are written: no text in them,
with dots or digits, leads anywhere else.
-/

namespace LocalFirst

open LocalState

/-- A document holds an id, under which it is followed. -/
def Document.HoldsId (document : Document) (id : String) : Prop :=
  (document.get? "id").bind Document.string? = some id

namespace Action

/-- The entities that an action is about. -/
def ReachesEntity : Action → String → String → Prop
  | .replace _, _, _ | .reset, _, _ | .assign _, _, _ => True
  | .clear cleared, entityName, _ => entityName = cleared
  | .commit name target _, entityName, id | .revert name target _, entityName, id
  | .unfollow name target, entityName, id => entityName = name ∧ id = target
  | .follow name entity _, entityName, id => entityName = name ∧ entity.HoldsId id
  | .followAll name entities _, entityName, id =>
      entityName = name ∧ ∃ entity ∈ entities, entity.HoldsId id
  | .setSession session user versionId, entityName, id =>
      entityName = session.entityName ∧ versionId.isSome = true ∧
        ∃ entity, user = some entity ∧ entity.HoldsId id
  | .patch diff, entityName, id => entityName = diff.entityName ∧ id = diff.id
  | .rebase command, entityName, id | .synchronize command _, entityName, id
  | .synchronizeFrom command _ _, entityName, id =>
      entityName = command.entityName ∧ id = command.id
  | _, _, _ => False

/-- The fields beside the entities that an action is about. -/
def ReachesField : Action → Field → Prop
  | .replace _, _ | .reset, _ | .assign _, _ => True
  | .addUnreachedCommits _, field | .removeUnreachedCommits _, field => field = .unreachedCommits
  | .networkRequest _, field | .removeNetworkRequest _, field | .online, field
  | .offline, field => field = .network
  | .error _ _, field | .resolveError, field => field = .error
  | .setSession _ _ _, field | .unsetSession, field => field = .session
  | _, _ => False

/-- What an action keeps of the entity that it is about: commits are made and reverted on an origin
that stays, and a diff or a rebase moves the origin under commits that stay. -/
def KeepsOfEntity (state next : LocalState) : Action → Prop
  | .commit entityName id _ | .revert entityName id _ =>
      ∃ before after, state.find? entityName id = some before ∧
        next.find? entityName id = some after ∧ after.origin = before.origin ∧
          after.versionId = before.versionId
  | .patch diff =>
      ∃ before after, state.find? diff.entityName diff.id = some before ∧
        next.find? diff.entityName diff.id = some after ∧ after.commits = before.commits
  | .rebase command =>
      ∃ before after, state.find? command.entityName command.id = some before ∧
        next.find? command.entityName command.id = some after ∧ after.commits = before.commits
  | _ => True

end Action

namespace LocalState

/-- An update that follows entities leads to those that are listed. -/
theorem exists_holdsId_of_followAll {entityName : String} {entities : List Document}
    {versionsById : NameMap String} {update : Update}
    (followed : followAll entityName entities versionsById = .ok update) :
    ∀ path ∈ update.paths, ∃ entity ∈ entities, ∃ id, entity.HoldsId id ∧
      path = entityPath entityName id := by
  let Listed (update : Update) : Prop :=
    ∀ path ∈ update.paths, ∃ entity ∈ entities, ∃ id, entity.HoldsId id ∧
      path = entityPath entityName id
  have none : Listed Update.empty := fun path member => absurd member List.not_mem_nil
  have keeps : ∀ entity ∈ entities, ∀ before after : Update, Listed before →
      (do
        let id ← entityId entityName entity
        let followed ← follow entityName entity (versionsById.get? id)
        return before.merge followed) = Except.ok after → Listed after := by
    intro entity listed before after holds merged path member
    simp only [follow, Except.bind_eq_ok, Except.pure_eq_ok] at merged
    obtain ⟨id, idOk, _, ⟨_, idOk', rfl⟩, rfl⟩ := merged
    obtain rfl := Except.ok.inj (idOk.symm.trans idOk')
    obtain ⟨entry, entryMember, rfl⟩ := List.mem_map.1 member
    rcases Keyed.mem_toList_insertAll entryMember with inserted | there
    · obtain rfl := List.mem_singleton.1 inserted
      exact ⟨entity, listed, id, entityId_eq_ok.1 idOk, rfl⟩
    · exact holds entry.path (List.mem_map_of_mem there)
  exact Except.foldlM_preserves keeps none followed

theorem withinParts_of_setVersion (entityName id : String) (origin : Document) (versionId : String)
    (head : Document) :
    WithinParts (setVersion entityName id origin versionId head)
      (fun other otherId => other = entityName ∧ otherId = id) fun _ => False :=
  withinParts_of_fields
    [("head", .set head), ("origin", .set origin), ("versionId", .set (.string versionId))]
    (toList_setVersion entityName id origin versionId head) (by simp [Edit.operator])

theorem withinParts_of_synchronizeFrom {now : Instant} {state : LocalState}
    {command : PushCommand} {origin : Document} {acknowledged : List Update} {update : Update}
    (updateOk : state.synchronizeFrom now command origin acknowledged = .ok update) :
    WithinParts update (fun other otherId => other = command.entityName ∧ otherId = command.id)
      fun _ => False := by
  simp only [synchronizeFrom, Except.bind_eq_ok, Except.pure_eq_ok] at updateOk
  obtain ⟨_, _, _, _, _, _, rfl⟩ := updateOk
  exact withinParts_of_entityPath rfl rfl

/-- A session is written, and its user followed. -/
theorem withinParts_of_followUser (session : Document) (entityName id : String) (user : Document) :
    WithinParts ((Update.empty.set ⟨["session"]⟩ session).merge
        (Update.empty.set (entityPath entityName id) user))
      (fun other otherId => other = entityName ∧ otherId = id) fun field => field = .session where
  reaches := by
    rw [touchedEntities_merge_session]
    rfl
  inEntities path member other otherId rest segments := by
    rw [Update.paths, toList_merge_session] at member
    rcases List.mem_cons.1 member with rfl | member
    · cases segments
      exact ⟨rfl, rfl⟩
    · obtain rfl := List.mem_singleton.1 member
      exact absurd (List.cons.inj segments).1 (by decide)
  inFields path member field begins := by
    rw [Update.paths, toList_merge_session] at member
    rcases List.mem_cons.1 member with rfl | member
    · exact absurd (Option.some.inj begins).symm field.key_ne_entities
    · obtain rfl := List.mem_singleton.1 member
      exact Field.key_injective (Option.some.inj begins).symm

/-- The update of an action stays within the part of the action, unless it clears a name. -/
theorem withinParts_of_update {action : Action} {now : Instant} {state : LocalState}
    {update : Update} (notClear : ∀ entityName, action ≠ .clear entityName)
    (updateOk : action.update now state = .ok update) :
    WithinParts update action.ReachesEntity action.ReachesField := by
  cases action
  case clear entityName => exact absurd rfl (notClear entityName)
  case replace | reset | assign =>
    cases updateOk
    exact withinParts_empty
  case commit entityName id operation =>
    simp only [Action.update, commit, Except.bind_eq_ok, Except.pure_eq_ok] at updateOk
    obtain ⟨_, _, _, _, head, _, rfl⟩ := updateOk
    exact withinParts_of_fields
      [("head", .set head), ("commits", .push ⟨[operation.toDocument], none, none, none⟩)]
      (toList_commit entityName id operation.toDocument head) (by simp [Edit.operator])
  case revert entityName id operations =>
    simp only [Action.update, revert, Except.bind_eq_ok, Except.pure_eq_ok] at updateOk
    obtain ⟨_, _, commits, _, head, _, rfl⟩ := updateOk
    exact withinParts_of_fields
      [("commits", .set (.array (commits.map Update.toDocument))), ("head", .set head)]
      (toList_revert entityName id _ head) (by simp [Edit.operator])
  case follow entityName entity versionId =>
    simp only [Action.update, follow, Except.bind_eq_ok, Except.pure_eq_ok] at updateOk
    obtain ⟨id, idOk, rfl⟩ := updateOk
    exact (withinParts_of_entityPath rfl rfl).mono
      (fun _ _ same => ⟨same.1, same.2 ▸ entityId_eq_ok.1 idOk⟩) fun _ => False.elim
  case followAll entityName entities versionsById =>
    have listed := exists_holdsId_of_followAll updateOk
    have follows := follows_of_followAll updateOk
    obtain ⟨touched, collected, _⟩ := entityAt_of_follows now follows
    have reaches := (touchedEntities_of_follows follows).trans collected
    refine ⟨by rw [reaches]; rfl, fun path member other otherId rest segments => ?_,
      fun path member field begins => ?_⟩
    · obtain ⟨entity, isListed, id, holdsId, rfl⟩ := listed path member
      cases segments
      exact ⟨rfl, entity, isListed, holdsId⟩
    · obtain ⟨_, _, id, _, rfl⟩ := listed path member
      exact absurd (Option.some.inj begins).symm field.key_ne_entities
  case unfollow =>
    cases updateOk
    exact withinParts_of_entityPath rfl rfl
  case addUnreachedCommits entry =>
    cases updateOk
    unfold enqueue
    simp only
    split
    · exact withinParts_empty
    · exact withinParts_of_field .unreachedCommits rfl rfl rfl
  case setSession session user versionId =>
    rcases setSession_eq_ok updateOk with rfl | ⟨entity, version, id, rfl, rfl, idOk, rfl⟩
    · exact (withinParts_of_field .session rfl rfl rfl).mono (fun _ _ => False.elim)
        fun _ same => same
    · exact (withinParts_of_followUser ..).mono
        (fun _ _ same => ⟨same.1, rfl, entity, rfl, same.2 ▸ idOk⟩) fun _ same => same
  case patch diff =>
    simp only [Action.update, patch, Except.bind_eq_ok] at updateOk
    obtain ⟨info, _, updateOk⟩ := updateOk
    split at updateOk
    · cases updateOk
      exact withinParts_empty
    · simp only [Except.bind_eq_ok, Except.pure_eq_ok] at updateOk
      obtain ⟨_, _, _, _, rfl⟩ := updateOk
      exact withinParts_of_setVersion ..
  case rebase command =>
    simp only [Action.update, rebase, Except.bind_eq_ok, Except.pure_eq_ok] at updateOk
    obtain ⟨_, _, _, _, _, _, rfl⟩ := updateOk
    exact withinParts_of_setVersion ..
  case synchronize command acknowledged =>
    simp only [Action.update, synchronize, Except.bind_eq_ok] at updateOk
    obtain ⟨_, _, updateOk⟩ := updateOk
    exact withinParts_of_synchronizeFrom updateOk
  case synchronizeFrom => exact withinParts_of_synchronizeFrom updateOk
  case removeUnreachedCommits =>
    cases updateOk
    exact withinParts_of_field .unreachedCommits rfl rfl rfl
  case networkRequest | removeNetworkRequest | online | offline =>
    cases updateOk
    exact withinParts_of_field .network rfl rfl rfl
  case unsetSession =>
    cases updateOk
    exact withinParts_of_field .session rfl rfl rfl
  case error | resolveError =>
    cases updateOk
    exact withinParts_of_field .error rfl rfl rfl

end LocalState

end LocalFirst
