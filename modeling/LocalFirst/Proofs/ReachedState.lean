import LocalFirst.Proofs.HeadInvariant
import LocalFirst.Proofs.ReadyActions

/-!
# States that a store reaches

Whatever actions a store has carried out, unless they replaced its state as a whole: the counts of
the queue can be read back, every followed entity can be addressed, as it has come in at its own
path, and an entity without commits has no head.  In such a state a patch for the stored version of
an entity without commits goes through as soon as its operation can be applied.
-/

namespace LocalFirst

/-- The action does not overwrite the state as a whole. -/
def Action.Incremental : Action → Prop
  | .replace _ | .assign _ => False
  | _ => True

theorem Update.fault?_of_apply {now : Instant} {update : Update} {document result : Document}
    (notRename : ∀ entry ∈ update.entries.toList, entry.edit.operator ≠ .rename)
    (applied : update.apply now document = .ok result) :
    ∀ entry ∈ update.entries.toList, entry.path.fault? = none := by
  unfold apply at applied
  generalize update.entries.toList = entries at notRename applied
  induction entries generalizing document with
  | nil => simp
  | cons entry rest ih =>
      obtain ⟨entryNotRename, restNotRename⟩ := List.forall_mem_cons.1 notRename
      simp only [List.foldlM_cons, Except.bind_eq_ok] at applied
      obtain ⟨between, ran, restApplied⟩ := applied
      exact List.forall_mem_cons.2
        ⟨Entry.fault?_of_run entryNotRename ran, ih restNotRename restApplied⟩

namespace LocalState

/-- Every followed entity can be addressed. -/
def Addressable (state : LocalState) : Prop :=
  ∀ entityName id info, state.find? entityName id = some info →
    (entityPath entityName id).fault? = none

theorem fault?_of_touched {now : Instant} {update : Update} {touched : List (String × String)}
    {document result : Document} {entityName id : String}
    (reaches : touchedEntities update = some touched)
    (applied : update.apply now document = .ok result) (member : (entityName, id) ∈ touched) :
    (entityPath entityName id).fault? = none := by
  obtain ⟨path, isPath, rest, segments⟩ := exists_path_of_touchedEntities reaches member
  obtain ⟨entry, entryMember, rfl⟩ := List.mem_map.1 isPath
  have notRename : ∀ entry ∈ update.entries.toList, entry.edit.operator ≠ .rename :=
    fun entry member => (staysWithin_of_touchedEntities reaches entry member).1
  have sound := Update.fault?_of_apply notRename applied entry entryMember
  simp only [Path.fault?, Path.isRoot, segments, entityPath] at sound ⊢
  simp_all

variable {now : Instant} {state next : LocalState}

/-- A command on single entities addresses those that it touches. -/
theorem Addressable.applyCommand {update : Update} {touched : List (String × String)}
    (addressable : state.Addressable) (reaches : touchedEntities update = some touched)
    (applied : state.applyCommand now update = .ok next) : next.Addressable := by
  cases isEmpty : update.isEmpty with
  | true =>
      simp only [LocalState.applyCommand, isEmpty, if_true, Except.ok.injEq] at applied
      exact applied ▸ addressable
  | false =>
      obtain ⟨_, _, updated, _, found, _⟩ := applyCommand_eq_ok isEmpty reaches applied
      intro entityName id info known
      rw [found] at known
      split at known
      next member => exact fault?_of_touched reaches updated member
      · exact addressable entityName id info known

theorem Addressable.of_concernsEntity {entityName id : String} {info : EntityInfo}
    (addressable : state.Addressable) (concerns : ConcernsEntity state next entityName id)
    (known : state.find? entityName id = some info) : next.Addressable := by
  intro other otherId otherInfo found
  by_cases here : other = entityName ∧ otherId = id
  · obtain ⟨rfl, rfl⟩ := here
    exact addressable other otherId info known
  · rw [concerns.others other otherId here] at found
    exact addressable other otherId otherInfo found

theorem Addressable.of_entities (addressable : state.Addressable)
    (same : next.entities = state.entities) : next.Addressable := by
  intro entityName id info found
  refine addressable entityName id info ?_
  rwa [find?, same] at found

theorem Addressable.synchronizeFrom {command : PushCommand} {origin : Document}
    {acknowledged : List Update} (addressable : state.Addressable)
    (reduced : Action.reduce now state (.synchronizeFrom command origin acknowledged) =
      .ok next) : next.Addressable := by
  obtain ⟨concerns, info, _, _, known, _⟩ := reduce_synchronizeFrom reduced
  exact addressable.of_concernsEntity concerns known

theorem Addressable.reduce {action : Action} (addressable : state.Addressable)
    (incremental : action.Incremental) (reduced : action.reduce now state = .ok next) :
    next.Addressable := by
  cases action
  case replace | assign => exact incremental.elim
  case reset =>
    cases reduced
    intro entityName id info found
    cases found
  case clear entityName =>
    intro other id info found
    obtain ⟨before, known, _⟩ := known_of_reduce_clear reduced found
    exact addressable other id before known
  case commit =>
    obtain ⟨concerns, info, _, _, known, _⟩ := reduce_commit reduced
    exact addressable.of_concernsEntity concerns known
  case revert =>
    obtain ⟨concerns, info, _, _, known, _⟩ := reduce_revert reduced
    exact addressable.of_concernsEntity concerns known
  case follow =>
    simp only [Action.reduce, Action.update, follow, Except.bind_eq_ok, Except.pure_eq_ok]
      at reduced
    obtain ⟨_, ⟨id, _, rfl⟩, applied⟩ := reduced
    exact addressable.applyCommand rfl applied
  case followAll =>
    simp only [Action.reduce, Action.update, Except.bind_eq_ok] at reduced
    obtain ⟨_, followed, applied⟩ := reduced
    have follows := follows_of_followAll followed
    obtain ⟨_, collected, _⟩ := entityAt_of_follows now follows
    exact addressable.applyCommand ((touchedEntities_of_follows follows).trans collected) applied
  case unfollow =>
    simp only [Action.reduce, Action.update, Except.bind_eq_ok, Except.ok.injEq,
      exists_eq_left'] at reduced
    exact addressable.applyCommand rfl reduced
  case setSession session user versionId =>
    simp only [Action.reduce, Action.update, Except.bind_eq_ok] at reduced
    obtain ⟨update, updateOk, applied⟩ := reduced
    rcases setSession_eq_ok updateOk with rfl | ⟨entity, version, id, _, _, _, rfl⟩
    · exact addressable.applyCommand rfl applied
    · exact addressable.applyCommand (touchedEntities_merge_session _ _ _ _) applied
  case patch =>
    obtain ⟨info, known, ⟨_, rfl⟩ | ⟨_, concerns, _⟩⟩ := reduce_patch reduced
    · exact addressable
    · exact addressable.of_concernsEntity concerns known
  case rebase =>
    obtain ⟨concerns, info, _, _, known, _⟩ := reduce_rebase reduced
    exact addressable.of_concernsEntity concerns known
  case synchronize =>
    obtain ⟨_, _, reducedFrom⟩ := reduce_synchronize reduced
    exact addressable.synchronizeFrom reducedFrom
  case synchronizeFrom => exact addressable.synchronizeFrom reduced
  all_goals exact addressable.of_entities (entities_of_reduce_beside (by exact trivial) reduced)

/-- An action that computes an update leaves the state as it is, or one that was read back. -/
theorem QueueReads.reduce {action : Action} (queue : state.QueueReads)
    (incremental : action.Incremental) (reduced : action.reduce now state = .ok next) :
    next.QueueReads := by
  rcases reduce_eq_ok reduced with ⟨update, _, applied⟩ | rfl | ⟨_, rfl⟩ | ⟨_, rfl, _⟩
  · cases isEmpty : update.isEmpty with
    | true =>
        simp only [LocalState.applyCommand, isEmpty, if_true, Except.ok.injEq] at applied
        exact applied ▸ queue
    | false => exact queueReads_of_applyCommand isEmpty applied
  · exact incremental.elim
  · intro commit member
    cases member
  · exact incremental.elim

/-- An entity without commits has no head. -/
def HeadsSettled (state : LocalState) : Prop :=
  ∀ entityName id info, state.find? entityName id = some info → info.commits = [] →
    info.head = none

theorem headOf_nil {origin head : Document} {commits : List Update}
    (headOk : headOf now origin commits = .ok head) (none : commits = []) : head = .null := by
  subst none
  cases headOk
  rfl

/-- An entity that is written with a null head in the absence of commits is read without. -/
theorem settled_of_readFrom {origin : Document} {versionId : Option String}
    {commits : List Update} {head : Option Document} {known : Option EntityInfo}
    {info : EntityInfo}
    (reads : EntityInfo.ReadFrom (some (EntityInfo.toDocument ⟨origin, versionId, commits, head⟩))
      known)
    (settled : commits = [] → head.filter (fun head => !head.isNull) = none)
    (found : known = some info) (clean : info.commits = []) : info.head = none := by
  obtain ⟨stored, written, rfl⟩ := readFrom_toDocument reads
  obtain rfl := Option.some.inj found
  have noCommits : commits = [] := by
    have sameLength := (Except.mapM_eq_ok_iff.1 written).length_eq
    rw [show stored = [] from clean, List.length_nil] at sameLength
    exact List.length_eq_zero_iff.1 sameLength
  exact settled noCommits

theorem HeadsSettled.of_concernsEntity {entityName id : String} (heads : state.HeadsSettled)
    (concerns : ConcernsEntity state next entityName id)
    (entity : ∀ info, next.find? entityName id = some info → info.commits = [] →
      info.head = none) : next.HeadsSettled := by
  intro other otherId info found
  by_cases here : other = entityName ∧ otherId = id
  · exact entity info (here.1 ▸ here.2 ▸ found)
  · exact heads other otherId info (concerns.others other otherId here ▸ found)

theorem HeadsSettled.of_entities (heads : state.HeadsSettled)
    (same : next.entities = state.entities) : next.HeadsSettled := by
  intro entityName id info found
  refine heads entityName id info ?_
  rwa [find?, same] at found

theorem HeadsSettled.synchronizeFrom {command : PushCommand} {origin : Document}
    {acknowledged : List Update} (heads : state.HeadsSettled)
    (reduced : Action.reduce now state (.synchronizeFrom command origin acknowledged) =
      .ok next) : next.HeadsSettled := by
  obtain ⟨concerns, info, synced, head, _, _, headOk, reads⟩ := reduce_synchronizeFrom reduced
  refine heads.of_concernsEntity concerns fun _ => settled_of_readFrom reads fun clean => ?_
  rw [headOf_nil headOk clean]
  rfl

theorem HeadsSettled.reduce {action : Action} (heads : state.HeadsSettled)
    (incremental : action.Incremental) (reduced : action.reduce now state = .ok next) :
    next.HeadsSettled := by
  cases action
  case replace | assign => exact incremental.elim
  case reset =>
    cases reduced
    intro entityName id info found
    cases found
  case clear entityName =>
    intro other id info found
    obtain ⟨before, known, reads⟩ := known_of_reduce_clear reduced found
    refine settled_of_readFrom reads (fun clean => ?_) found
    rw [heads other id before known clean]
    rfl
  case commit =>
    obtain ⟨concerns, info, parsed, head, _, _, _, reads⟩ := reduce_commit reduced
    exact heads.of_concernsEntity concerns fun _ =>
      settled_of_readFrom reads fun none => absurd none (by simp)
  case revert =>
    obtain ⟨concerns, info, _, head, _, _, headOk, reads⟩ := reduce_revert reduced
    refine heads.of_concernsEntity concerns fun _ => settled_of_readFrom reads fun clean => ?_
    rw [headOf_nil headOk clean]
    rfl
  case follow =>
    obtain ⟨id, _, concerns, known⟩ := reduce_follow reduced
    refine heads.of_concernsEntity concerns fun info found _ => ?_
    obtain rfl := Option.some.inj (found.symm.trans known)
    rfl
  case followAll =>
    intro other id info found clean
    rcases reduce_followAll reduced other id with same | ⟨entity, versionId, _, known⟩
    · exact heads other id info (same ▸ found) clean
    · obtain rfl := Option.some.inj (found.symm.trans known)
      rfl
  case unfollow =>
    obtain ⟨concerns, unknown⟩ := reduce_unfollow reduced
    exact heads.of_concernsEntity concerns fun info found =>
      absurd (found.symm.trans unknown) (by simp)
  case setSession session user versionId =>
    rcases reduce_setSession reduced with same | ⟨entity, version, id, _, _, _, others, known⟩
    · exact heads.of_entities same
    · intro other otherId info found clean
      by_cases here : other = session.entityName ∧ otherId = id
      · obtain ⟨rfl, rfl⟩ := here
        obtain rfl := Option.some.inj (found.symm.trans known)
        rfl
      · exact heads other otherId info (others other otherId here ▸ found) clean
  case patch =>
    obtain ⟨info, _, ⟨_, rfl⟩ | ⟨_, concerns, origin, head, _, headOk, reads⟩⟩ :=
      reduce_patch reduced
    · exact heads
    · refine heads.of_concernsEntity concerns fun _ => settled_of_readFrom reads fun clean => ?_
      rw [headOf_nil headOk clean]
      rfl
  case rebase =>
    obtain ⟨concerns, info, origin, head, _, _, headOk, reads⟩ := reduce_rebase reduced
    refine heads.of_concernsEntity concerns fun _ => settled_of_readFrom reads fun clean => ?_
    rw [headOf_nil headOk clean]
    rfl
  case synchronize =>
    obtain ⟨_, _, reducedFrom⟩ := reduce_synchronize reduced
    exact heads.synchronizeFrom reducedFrom
  case synchronizeFrom => exact heads.synchronizeFrom reduced
  all_goals exact heads.of_entities (entities_of_reduce_beside (by exact trivial) reduced)

/-- What holds in every state that is reached. -/
structure Orderly (state : LocalState) : Prop where
  heads : state.HeadsSettled
  queue : state.QueueReads
  addressable : state.Addressable

/-- One action keeps a state orderly. -/
theorem Orderly.reduce {action : Action} (orderly : state.Orderly)
    (incremental : action.Incremental) (reduced : action.reduce now state = .ok next) :
    next.Orderly where
  heads := orderly.heads.reduce incremental reduced
  queue := orderly.queue.reduce incremental reduced
  addressable := orderly.addressable.reduce incremental reduced

theorem orderly_empty : LocalState.empty.Orderly where
  heads := by
    intro entityName id info found
    cases found
  queue := by
    intro commit member
    cases member
  addressable := by
    intro entityName id info found
    cases found

/-- In an orderly state, a patch moves an entity without commits on. -/
theorem Orderly.exists_patch {diff : VersionDiff} {origin result : Document}
    (orderly : state.Orderly)
    (known : state.find? diff.entityName diff.id =
      some (.clean origin (some diff.prevVersionId)))
    (applied : diff.operation.apply now origin = .ok result) :
    ∃ next, Action.reduce now state (.patch diff) = .ok next ∧ next.Orderly ∧
      next.find? diff.entityName diff.id = some (.clean result (some diff.versionId)) := by
  obtain ⟨next, reduced⟩ := exists_reduce_patch orderly.queue
    (orderly.addressable _ _ _ known) known rfl applied rfl (by rfl)
  refine ⟨next, reduced, orderly.reduce (by exact trivial) reduced, ?_⟩
  obtain ⟨info, known', ⟨stale, _⟩ | ⟨_, _, origin', head, applied', headOk, reads⟩⟩ :=
    reduce_patch reduced
  · obtain rfl := Option.some.inj (known.symm.trans known')
    exact absurd rfl stale
  · obtain rfl := Option.some.inj (known.symm.trans known')
    obtain rfl := Except.ok.inj (applied.symm.trans applied')
    obtain rfl := headOf_nil headOk rfl
    obtain ⟨_, ⟨⟩, nowKnown⟩ := readFrom_toDocument reads
    exact nowKnown

end LocalState

namespace Store

theorem orderly_afterAll {store : Store} {steps : List (Instant × Action)}
    (orderly : store.state.Orderly) (incremental : ∀ step ∈ steps, step.2.Incremental) :
    (store.afterAll steps).state.Orderly :=
  afterAll_preserves (fun step member _ _ orderly reduced =>
    orderly.reduce (incremental step member) reduced) orderly

/-- A store begins with the entity names of its configuration, and follows nothing. -/
theorem orderly_ofConfig {now : Instant} {config : ClientConfig} {store : Store}
    (opened : ofConfig now config = .ok store) : store.state.Orderly := by
  simp only [ofConfig, Except.bind_eq_ok, Except.pure_eq_ok] at opened
  obtain ⟨state, cleared, rfl⟩ := opened
  have clears : ∀ entityName ∈ config.initialEntities, ∀ before after : LocalState,
      before.Orderly → Action.reduce now before (.clear entityName) = .ok after →
      after.Orderly := by
    intro entityName _ before after orderly reduced
    have incremental : (Action.clear entityName).Incremental := trivial
    exact orderly.reduce incremental reduced
  obtain ⟨heads, queue, addressable⟩ :=
    Except.foldlM_preserves clears LocalState.orderly_empty cleared
  exact ⟨heads.of_entities rfl, queue, addressable.of_entities rfl⟩

end Store

end LocalFirst
