import LocalFirst.Proofs.DistinctStates
import LocalFirst.Proofs.HeadInvariant

/-!
# No action brings in a repeated key

The updates of the actions carry documents of the state and of the action.  So no action brings a
repeated key into a state, and this goes also for the actions that overwrite the state as a whole.
-/

namespace LocalFirst

open Document

/-- No key repeats in what the action brings into a state.  A revert brings nothing. -/
def Action.RepeatsNoKey : Action → Prop
  | .replace state => state.RepeatsNoKey
  | .assign updates => ∀ update ∈ updates, update.Carries Document.KeysDistinct
  | .commit _ _ operation => operation.Carries Document.KeysDistinct
  | .follow _ entity _ => entity.KeysDistinct
  | .followAll _ entities _ => ∀ entity ∈ entities, entity.KeysDistinct
  | .setSession session user _ =>
      session.values.KeysDistinct ∧ ∀ entity, user = some entity → entity.KeysDistinct
  | .patch diff => diff.operation.Carries Document.KeysDistinct
  | .rebase command => ∀ operation ∈ command.operations, operation.Carries Document.KeysDistinct
  | .synchronize command acknowledged =>
      ∀ operation ∈ command.operations ++ acknowledged, operation.Carries Document.KeysDistinct
  | .synchronizeFrom command origin acknowledged => origin.KeysDistinct ∧
      ∀ operation ∈ command.operations ++ acknowledged, operation.Carries Document.KeysDistinct
  | _ => True

namespace LocalState

variable {now : Instant} {state next : LocalState} {update : Update} {entityName id : String}

theorem RepeatsNoKey.entityInfo (distinct : state.RepeatsNoKey) {info : EntityInfo}
    (known : state.entityInfo entityName id = .ok info) : info.RepeatsNoKey :=
  distinct.entities entityName id info (find?_of_entityInfo known)

theorem keysDistinct_headOf {origin head : Document} {commits : List Update}
    (distinct : origin.KeysDistinct)
    (carry : ∀ commit ∈ commits, commit.Carries Document.KeysDistinct)
    (headOk : headOf now origin commits = .ok head) : head.KeysDistinct := by
  unfold headOf at headOk
  split at headOk
  · cases headOk
    trivial
  · exact Update.keysDistinct_applyAll carry distinct (Except.mapError_eq_ok.1 headOk)

open Update

theorem carries_setVersion {origin head : Document} (versionId : String)
    (originDistinct : origin.KeysDistinct) (headDistinct : head.KeysDistinct) :
    (setVersion entityName id origin versionId head).Carries Document.KeysDistinct :=
  ((carries_empty.set originDistinct).set (keysDistinct_string versionId)).set headDistinct

theorem RepeatsNoKey.carries_commit {operation : Update} (distinct : state.RepeatsNoKey)
    (carries : operation.Carries Document.KeysDistinct)
    (committed : state.commit now entityName id operation = .ok update) :
    update.Carries Document.KeysDistinct := by
  simp only [commit, LocalState.current, Except.bind_eq_ok, Except.pure_eq_ok,
    Except.mapError_eq_ok, Except.map_eq_ok] at committed
  obtain ⟨_, ⟨info, known, rfl⟩, parsed, parsedOk, head, headOk, rfl⟩ := committed
  have stored := keysDistinct_toDocument carries
  have parsedCarries := carries_keysDistinct_of_stored carries parsedOk
  exact (carries_empty.push stored).set
    (keysDistinct_apply parsedCarries (distinct.entityInfo known).current headOk)

theorem RepeatsNoKey.carries_revert {operations : List Update} (distinct : state.RepeatsNoKey)
    (reverted : state.revert now entityName id operations = .ok update) :
    update.Carries Document.KeysDistinct := by
  simp only [revert, Except.bind_eq_ok, Except.pure_eq_ok, foldlM_removeFirst_eq_ok] at reverted
  obtain ⟨info, known, _, ⟨requests, _, rfl⟩, head, headOk, rfl⟩ := reverted
  have infoDistinct := distinct.entityInfo known
  have remaining : ∀ commit ∈ removeAll requests info.commits,
      commit.Carries Document.KeysDistinct :=
    fun commit member => infoDistinct.commits commit
      ((removeAll_sublist requests info.commits).subset member)
  have written := keysDistinct_array_map fun commit member =>
    keysDistinct_toDocument (remaining commit member)
  exact (carries_empty.set written).set (keysDistinct_headOf infoDistinct.origin remaining headOk)

theorem carries_follow {entity : Document} {versionId : Option String}
    (distinct : entity.KeysDistinct) (followed : follow entityName entity versionId = .ok update) :
    update.Carries Document.KeysDistinct := by
  simp only [follow, Except.bind_eq_ok, Except.pure_eq_ok] at followed
  obtain ⟨_, _, rfl⟩ := followed
  exact carries_empty.set (EntityInfo.repeatsNoKey_clean distinct versionId).toDocument

theorem carries_followAll {entities : List Document} {versionsById : NameMap String}
    (distinct : ∀ entity ∈ entities, entity.KeysDistinct)
    (followed : followAll entityName entities versionsById = .ok update) :
    update.Carries Document.KeysDistinct := by
  refine Except.foldlM_preserves (fun entity member before after carries merged => ?_)
    carries_empty followed
  simp only [Except.bind_eq_ok, Except.pure_eq_ok] at merged
  obtain ⟨_, _, update, followed, rfl⟩ := merged
  exact carries.merge (carries_follow (distinct entity member) followed)

theorem carries_setSession {session : Session} {user : Option Document} {versionId : Option String}
    (distinct : session.values.KeysDistinct)
    (userDistinct : ∀ entity, user = some entity → entity.KeysDistinct)
    (updated : setSession session user versionId = .ok update) :
    update.Carries Document.KeysDistinct := by
  have carries :
      (Update.empty.set ⟨["session"]⟩ session.toDocument).Carries Document.KeysDistinct :=
    carries_empty.set (keysDistinct_toDocument_session distinct)
  unfold setSession at updated
  dsimp only at updated
  split at updated
  · rw [Except.map_eq_ok] at updated
    obtain ⟨followed, follows, rfl⟩ := updated
    exact carries.merge (carries_follow (userDistinct _ rfl) follows)
  · exact Except.ok.inj updated ▸ carries

theorem RepeatsNoKey.carries_synchronizeFrom {command : PushCommand} {origin : Document}
    {acknowledged : List Update} (distinct : state.RepeatsNoKey)
    (originDistinct : origin.KeysDistinct)
    (carry : ∀ operation ∈ command.operations ++ acknowledged,
      operation.Carries Document.KeysDistinct)
    (synchronized : state.synchronizeFrom now command origin acknowledged = .ok update) :
    update.Carries Document.KeysDistinct := by
  simp only [synchronizeFrom, Except.bind_eq_ok, Except.pure_eq_ok, Except.mapError_eq_ok]
    at synchronized
  obtain ⟨info, known, moved, movedOk, head, headOk, rfl⟩ := synchronized
  have movedDistinct := keysDistinct_applyAll carry originDistinct movedOk
  have remaining : ∀ commit ∈ info.commits.drop acknowledged.length,
      commit.Carries Document.KeysDistinct :=
    fun commit member => (distinct.entityInfo known).commits commit (List.mem_of_mem_drop member)
  refine carries_empty.set (EntityInfo.RepeatsNoKey.toDocument
    ⟨movedDistinct, remaining, fun shown headEq => ?_⟩)
  dsimp only at headEq
  split at headEq
  · cases headEq
  · exact Option.some.inj headEq ▸ keysDistinct_headOf movedDistinct remaining headOk

theorem RepeatsNoKey.carries_patch {diff : VersionDiff} (distinct : state.RepeatsNoKey)
    (carries : diff.operation.Carries Document.KeysDistinct)
    (patched : state.patch now diff = .ok update) : update.Carries Document.KeysDistinct := by
  simp only [patch, Except.bind_eq_ok] at patched
  obtain ⟨info, known, patched⟩ := patched
  split at patched
  · exact Except.ok.inj patched ▸ carries_empty
  · simp only [Except.bind_eq_ok, Except.pure_eq_ok, Except.mapError_eq_ok] at patched
    obtain ⟨origin, originOk, head, headOk, rfl⟩ := patched
    have infoDistinct := distinct.entityInfo known
    have originDistinct := keysDistinct_apply carries infoDistinct.origin originOk
    exact carries_setVersion _ originDistinct
      (keysDistinct_headOf originDistinct infoDistinct.commits headOk)

theorem RepeatsNoKey.carries_rebase {command : PushCommand} (distinct : state.RepeatsNoKey)
    (carry : ∀ operation ∈ command.operations, operation.Carries Document.KeysDistinct)
    (rebased : state.rebase now command = .ok update) : update.Carries Document.KeysDistinct := by
  simp only [rebase, Except.bind_eq_ok, Except.pure_eq_ok, Except.mapError_eq_ok] at rebased
  obtain ⟨info, known, origin, originOk, head, headOk, rfl⟩ := rebased
  have infoDistinct := distinct.entityInfo known
  have originDistinct := keysDistinct_applyAll carry infoDistinct.origin originOk
  exact carries_setVersion _ originDistinct
    (keysDistinct_headOf originDistinct infoDistinct.commits headOk)

theorem carries_enqueue (state : LocalState) (entry : UnreachedCommit) :
    (state.enqueue entry).Carries Document.KeysDistinct := by
  unfold enqueue
  dsimp only
  split
  · exact carries_empty
  · exact carries_empty.push (keysDistinct_toDocument_unreached _)

theorem carries_dequeue (entry : UnreachedCommit) :
    (dequeue entry).Carries Document.KeysDistinct :=
  carries_empty.insert
    (List.forall_mem_singleton.2 (keysDistinct_toDocument_unreached entry))

/-- The update of an action carries no repeated key. -/
theorem RepeatsNoKey.carries_update {action : Action} (distinct : state.RepeatsNoKey)
    (actionDistinct : action.RepeatsNoKey) (updated : action.update now state = .ok update) :
    update.Carries Document.KeysDistinct := by
  cases action
  case commit => exact distinct.carries_commit actionDistinct updated
  case revert => exact distinct.carries_revert updated
  case patch => exact distinct.carries_patch actionDistinct updated
  case rebase => exact distinct.carries_rebase actionDistinct updated
  case synchronizeFrom =>
    exact distinct.carries_synchronizeFrom actionDistinct.1 actionDistinct.2 updated
  case synchronize =>
    rw [Action.update, synchronize, Except.bind_eq_ok] at updated
    obtain ⟨info, known, synchronized⟩ := updated
    exact distinct.carries_synchronizeFrom (distinct.entityInfo known).origin actionDistinct
      synchronized
  case follow => exact carries_follow actionDistinct updated
  case followAll => exact carries_followAll actionDistinct updated
  case setSession => exact carries_setSession actionDistinct.1 actionDistinct.2 updated
  case replace | reset | assign => exact Except.ok.inj updated ▸ carries_empty
  case clear => exact Except.ok.inj updated ▸ carries_empty.set keysDistinct_emptyObject
  case unfollow | unsetSession | resolveError =>
    exact Except.ok.inj updated ▸ carries_empty.unset _
  case addUnreachedCommits => exact Except.ok.inj updated ▸ carries_enqueue state _
  case removeUnreachedCommits => exact Except.ok.inj updated ▸ carries_dequeue _
  case networkRequest =>
    exact Except.ok.inj updated ▸ carries_empty.push (keysDistinct_string _)
  case removeNetworkRequest =>
    exact Except.ok.inj updated ▸ carries_empty.set (keysDistinct_strings _)
  case online | offline => exact Except.ok.inj updated ▸ carries_empty.set (keysDistinct_bool _)
  case error =>
    exact Except.ok.inj updated ▸ carries_empty.set (keysDistinct_toDocument_error _)

theorem repeatsNoKey_empty : LocalState.empty.RepeatsNoKey where
  entities entityName id info found := by cases found
  session session sessionEq := by cases sessionEq

/-- After an action, an entity is as before, or has been read from a document, or comes with the
state that replaces all. -/
theorem RepeatsNoKey.restored_of_reduce {action : Action} (distinct : state.RepeatsNoKey)
    (actionDistinct : action.RepeatsNoKey) (reduced : action.reduce now state = .ok next)
    {info : EntityInfo} (found : next.find? entityName id = some info) :
    state.find? entityName id = some info ∨ info.Restored ∨ action = .replace next := by
  rcases reduce_eq_ok reduced with
    ⟨update, updated, applied⟩ | replaced | ⟨_, rfl⟩ | ⟨updates, rfl, applied⟩
  · have carries := distinct.carries_update actionDistinct updated
    rcases distinct.restored_of_applyCommand carries applied found with before | restored
    · exact .inl before
    · exact .inr (.inl restored)
  · exact .inr (.inr replaced)
  · cases found
  · obtain ⟨document, documentDistinct, read⟩ := distinct.exists_of_applyAll actionDistinct applied
    exact .inr (.inl (restored_of_ofDocument documentDistinct read found))

/-- No action brings a repeated key into a state. -/
theorem RepeatsNoKey.reduce {action : Action} (distinct : state.RepeatsNoKey)
    (actionDistinct : action.RepeatsNoKey) (reduced : action.reduce now state = .ok next) :
    next.RepeatsNoKey := by
  rcases reduce_eq_ok reduced with
    ⟨update, updated, applied⟩ | rfl | ⟨_, rfl⟩ | ⟨updates, rfl, applied⟩
  · exact distinct.applyCommand (distinct.carries_update actionDistinct updated) applied
  · exact actionDistinct
  · exact repeatsNoKey_empty
  · obtain ⟨document, documentDistinct, read⟩ := distinct.exists_of_applyAll actionDistinct applied
    exact repeatsNoKey_of_ofDocument documentDistinct read

end LocalState

namespace Store

theorem repeatsNoKey_afterAll {store : Store} {steps : List (Instant × Action)}
    (begins : store.state.RepeatsNoKey) (distinct : ∀ step ∈ steps, step.2.RepeatsNoKey) :
    (store.afterAll steps).state.RepeatsNoKey :=
  afterAll_preserves (fun step member _ _ before reduced =>
    before.reduce (distinct step member) reduced) begins

end Store

end LocalFirst
