import LocalFirst.Proofs.Footprint
import LocalFirst.Proofs.ReachedState

/-!
# The state after an action on one entity

An action on one entity writes fields of it and reads them back.  When the commits of the entity are
in stored form, reading changes nothing but a null head, which becomes none.  The whole state after
such an action is then the state before it with one entity in the place of another, and where the
action goes through can be said exactly.
-/

namespace LocalFirst

namespace EntityInfo

/-- The entity as it is read back, when its commits are in stored form. -/
def settled (info : EntityInfo) : EntityInfo :=
  { info with head := info.head.filter fun head => !head.isNull }

theorem eq_settled_of_readFrom {info : EntityInfo} {known : Option EntityInfo}
    (reads : ReadFrom (some info.toDocument) known)
    (stored : ∀ commit ∈ info.commits, commit.stored = .ok commit) :
    known = some info.settled := by
  obtain ⟨commits, read, known⟩ := LocalState.readFrom_toDocument reads
  obtain rfl := Except.ok.inj (read.symm.trans (Update.mapM_stored_eq_ok stored))
  exact known

end EntityInfo

namespace LocalState

variable {now : Instant} {state next : LocalState} {entityName id : String}

/-- The state with what is known about one entity replaced. -/
def withEntity (state : LocalState) (entityName id : String) (info : EntityInfo) : LocalState :=
  { state with
    entities := state.entities.put entityName
      (((state.entities.get? entityName).getD Keyed.empty).put id info) }

theorem find?_withEntity (state : LocalState) (entityName id : String) (info : EntityInfo)
    (other otherId : String) :
    (state.withEntity entityName id info).find? other otherId =
      if other = entityName ∧ otherId = id then some info else state.find? other otherId :=
  lookUp_putEntity ..

@[simp]
theorem find?_withEntity_self (state : LocalState) (entityName id : String) (info : EntityInfo) :
    (state.withEntity entityName id info).find? entityName id = some info := by
  rw [find?_withEntity, if_pos ⟨rfl, rfl⟩]

/-- A state that differs in one entity only is the state with that entity replaced, when nothing but
the other names and fields is asked of it. -/
theorem eq_withEntity {info : EntityInfo}
    (sameBeside : { next with entities := Keyed.empty } = { state with entities := Keyed.empty })
    (others : DiffersAt state next entityName id)
    (sameNames : ∀ other, other ≠ entityName →
      (next.entities.get? other).isSome = (state.entities.get? other).isSome)
    (found : next.find? entityName id = some info) :
    next = state.withEntity entityName id info := by
  have named : ∀ {some : LocalState}, some.find? entityName id = .some info →
      (some.entities.get? entityName).isSome = true := by
    intro some found
    obtain ⟨infos, there, _⟩ := Option.bind_eq_some_iff.1 found
    rw [there, Option.isSome_some]
  refine eq_of_entities (eq_of_lookUp (fun other => ?_) fun other otherId => ?_) sameBeside
  · by_cases same : other = entityName
    · rw [same, named found, named (find?_withEntity_self state entityName id info)]
    · rw [sameNames other same, withEntity, NameMap.get?_put_of_ne same]
  · refine Eq.trans ?_ (find?_withEntity state entityName id info other otherId).symm
    split
    next here => exact here.1 ▸ here.2 ▸ found
    next differ => exact others other otherId differ

/-- Of two replacements of one entity the second counts. -/
theorem withEntity_withEntity (state : LocalState) (entityName id : String)
    (first second : EntityInfo) :
    (state.withEntity entityName id first).withEntity entityName id second =
      state.withEntity entityName id second := by
  refine eq_withEntity rfl (fun other otherId differ => ?_) (fun other differ => ?_)
    (find?_withEntity_self _ _ _ _)
  · rw [find?_withEntity, if_neg differ, find?_withEntity, if_neg differ]
  · rw [withEntity, withEntity, NameMap.get?_put_of_ne differ, NameMap.get?_put_of_ne differ]

/-- To replace an entity by what is known about it changes nothing. -/
theorem withEntity_of_find? {info : EntityInfo} (known : state.find? entityName id = some info) :
    state.withEntity entityName id info = state :=
  (eq_withEntity rfl (fun _ _ _ => rfl) (fun _ _ => rfl) known).symm

/-- States with the same fields are the same beside the entities. -/
theorem beside_eq_of_same (same : ∀ field : Field, field.Same state next) :
    { next with entities := Keyed.empty } = { state with entities := Keyed.empty } := by
  rw [show next.unreachedCommits = state.unreachedCommits from same .unreachedCommits,
    show next.network = state.network from same .network,
    show next.session = state.session from same .session,
    show next.error = state.error from same .error]

/-- An action on one entity replaces it. -/
theorem eq_withEntity_of_reduce {action : Action} {info : EntityInfo}
    (reduced : action.reduce now state = .ok next) (notClear : ∀ cleared, action ≠ .clear cleared)
    (about : ∀ other otherId, action.ReachesEntity other otherId →
      other = entityName ∧ otherId = id)
    (noField : ∀ field, ¬ action.ReachesField field)
    (found : next.find? entityName id = some info) :
    next = state.withEntity entityName id info := by
  obtain ⟨sameEntities, sameNames, sameFields⟩ := WithinParts.reduce notClear reduced
  refine eq_withEntity (beside_eq_of_same fun field => sameFields field (noField field))
    (fun other otherId differ => sameEntities other otherId fun reached =>
      differ (about other otherId reached)) (fun other differ => ?_) found
  rw [sameNames other fun otherId reached => differ (about other otherId reached).1]

/-- A command that edits fields of an entity has addressed it. -/
theorem addressable_of_fields {update : Update} (edits : List (String × Edit))
    (nonempty : edits ≠ [])
    (entries : update.entries.toList =
      edits.map (fun edit => ⟨entityField entityName id edit.1, edit.2⟩))
    (notRename : ∀ edit ∈ edits, edit.2.operator ≠ .rename)
    (applied : state.applyCommand now update = .ok next) :
    (entityPath entityName id).fault? = none := by
  have updateNonempty : update.isEmpty = false := by
    simp [Update.isEmpty, Keyed.isEmpty, entries, nonempty]
  have reaches := touchedEntities_of_fields entries notRename
  obtain ⟨_, _, updated, _⟩ := applyCommand_eq_ok updateNonempty reaches applied
  exact fault?_of_touched reaches updated
    ((mem_touched_of_fields nonempty entityName id entityName id).2 ⟨rfl, rfl⟩)

/-- A commit is appended in its stored form. -/
theorem reduce_commit_eq {operation : Update} (stored : state.CommitsStored entityName id)
    (reduced : Action.reduce now state (.commit entityName id operation) = .ok next) :
    ∃ info parsed head, state.find? entityName id = some info ∧ operation.stored = .ok parsed ∧
      parsed.apply now info.current = .ok head ∧
      next = state.withEntity entityName id
        (EntityInfo.settled
          { info with commits := info.commits ++ [parsed], head := some head }) := by
  obtain ⟨_, info, parsed, head, known, parsedOk, headOk, reads⟩ := reduce_commit reduced
  obtain ⟨commits, read, found⟩ := readFrom_toDocument reads
  have appended : (info.commits ++ [operation]).mapM Update.stored =
      .ok (info.commits ++ [parsed]) := by
    simp [Update.mapM_stored_eq_ok (stored info known), parsedOk]
  obtain rfl := Except.ok.inj (read.symm.trans appended)
  exact ⟨info, parsed, head, known, parsedOk, headOk,
    eq_withEntity_of_reduce reduced (by simp) (fun _ _ here => here) (fun _ here => here) found⟩

/-- A revert leaves the commits that no request takes away, in their stored form. -/
theorem reduce_revert_eq {operations : List Update}
    (reduced : Action.reduce now state (.revert entityName id operations) = .ok next) :
    ∃ info requests head written, state.find? entityName id = some info ∧
      operations.mapM Update.stored = .ok requests ∧
      headOf now info.origin (removeAll requests info.commits) = .ok head ∧
      (removeAll requests info.commits).mapM Update.stored = .ok written ∧
      next = state.withEntity entityName id (EntityInfo.settled
        { info with commits := written, head := some head }) := by
  obtain ⟨_, info, requests, head, known, requestsOk, headOk, reads⟩ := reduce_revert reduced
  obtain ⟨written, writtenOk, found⟩ := readFrom_toDocument reads
  exact ⟨info, requests, head, written, known, requestsOk, headOk, writtenOk,
    eq_withEntity_of_reduce reduced (by simp) (fun _ _ here => here) (fun _ here => here) found⟩

/-- A revert goes through when the entity can be addressed and the commits that stay can be
replayed. -/
theorem reduce_revert_of_headOf {operations requests : List Update} {info : EntityInfo}
    {head : Document} (queue : state.QueueReads) (stored : state.CommitsStored entityName id)
    (addressable : (entityPath entityName id).fault? = none)
    (known : state.find? entityName id = some info)
    (requestsOk : operations.mapM Update.stored = .ok requests)
    (headOk : headOf now info.origin (removeAll requests info.commits) = .ok head) :
    Action.reduce now state (.revert entityName id operations) =
      .ok (state.withEntity entityName id (EntityInfo.settled
        { info with commits := removeAll requests info.commits, head := some head })) := by
  have within := removeAll_sublist requests info.commits
  have written := Update.mapM_stored_eq_ok fun commit member =>
    stored info known commit (within.subset member)
  obtain ⟨next, reduced⟩ := exists_reduce_revert queue addressable known requestsOk headOk written
  obtain ⟨other, otherRequests, otherHead, otherWritten, otherKnown, otherRequestsOk, otherHeadOk,
    otherWrittenOk, rfl⟩ := reduce_revert_eq reduced
  obtain rfl := Option.some.inj (known.symm.trans otherKnown)
  obtain rfl := Except.ok.inj (requestsOk.symm.trans otherRequestsOk)
  obtain rfl := Except.ok.inj (headOk.symm.trans otherHeadOk)
  obtain rfl := Except.ok.inj (written.symm.trans otherWrittenOk)
  exact reduced

/-- A synchronisation goes through when the entity can be addressed, the operations of the answer and
the acknowledged commits can be replayed on the stored origin, and the commits behind them on what
comes out. -/
theorem reduce_synchronize_of_replays {operations acknowledged rest : List Update}
    {info : EntityInfo} {synced head : Document} (queue : state.QueueReads)
    (addressable : (entityPath entityName id).fault? = none)
    (known : state.find? entityName id = some info) (pending : info.commits = acknowledged ++ rest)
    (replayed : Update.applyAll now info.origin (operations ++ acknowledged) = .ok synced)
    (headOk : headOf now synced rest = .ok head)
    (written : ∀ commit ∈ rest, commit.stored = .ok commit) (versionId : String) :
    Action.reduce now state (.synchronize ⟨entityName, id, versionId, operations⟩ acknowledged) =
      .ok (state.withEntity entityName id (EntityInfo.settled
        ⟨synced, some versionId, rest, if head.isNull then none else some head⟩)) := by
  have dropped : info.commits.drop acknowledged.length = rest := by rw [pending, List.drop_left]
  let command : PushCommand := ⟨entityName, id, versionId, operations⟩
  have onOrigin : Action.reduce now state (.synchronize command acknowledged) =
      Action.reduce now state (.synchronizeFrom command info.origin acknowledged) :=
    reduce_synchronize_eq known
  obtain ⟨next, reduced⟩ : ∃ next,
      Action.reduce now state (.synchronizeFrom command info.origin acknowledged) = .ok next :=
    exists_reduce_synchronizeFrom queue addressable known replayed (dropped.symm ▸ headOk)
      (dropped.symm ▸ Update.mapM_stored_eq_ok written)
  obtain ⟨_, other, _, otherHead, otherKnown, otherReplayed, otherHeadOk, reads⟩ :=
    reduce_synchronizeFrom reduced
  obtain rfl := Option.some.inj (known.symm.trans otherKnown)
  obtain rfl := Except.ok.inj (replayed.symm.trans otherReplayed)
  rw [dropped] at otherHeadOk reads
  obtain rfl := Except.ok.inj (headOk.symm.trans otherHeadOk)
  have became := eq_withEntity_of_reduce reduced (by simp) (fun _ _ here => here)
    (fun _ here => here) (EntityInfo.eq_settled_of_readFrom reads written)
  exact onOrigin.trans (reduced.trans (congrArg Except.ok became))

end LocalState

end LocalFirst
