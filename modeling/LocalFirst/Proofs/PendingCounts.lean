import LocalFirst.Proofs.Footprint
import LocalFirst.Proofs.PendingCommits
import LocalFirst.Proofs.QueueEffects

/-!
# How many commits are pending

A commit adds one pending commit to its entity, a synchronisation takes as many as were
acknowledged, and what is followed has none.  Patches and rebases keep the number.
-/

namespace LocalFirst

namespace LocalState

/-- One entity has other commits than before. -/
theorem DiffersAt.length_pending {before after : LocalState} {entityName id : String}
    {now : EntityInfo} (differs : DiffersAt before after entityName id)
    (nowKnown : after.find? entityName id = some now) (key : EntityKey) :
    (after.pending key).length =
      if key = ⟨entityName, id⟩ then now.commits.length else (before.pending key).length := by
  split
  next same =>
    subst same
    rw [pending_of_find? nowKnown]
  next other => rw [differs.pending other]

theorem DiffersAt.length_pending_of_read {before after : LocalState} {entityName id : String}
    {now : EntityInfo} {kept : List Update} (differs : DiffersAt before after entityName id)
    (nowKnown : after.find? entityName id = some now)
    (read : kept.mapM Update.stored = .ok now.commits) (key : EntityKey) :
    (after.pending key).length =
      if key = ⟨entityName, id⟩ then kept.length else (before.pending key).length := by
  rw [differs.length_pending nowKnown, (Except.mapM_eq_ok_iff.1 read).length_eq]

variable {now : Instant} {state next : LocalState}

theorem undergoes_of_reduce {action : Action} (reduced : action.reduce now state = .ok next) :
    state.Undergoes action next :=
  ⟨now, state, next, rfl, reduced, rfl⟩

theorem length_pending_of_commit {entityName id : String} {operation : Update}
    (reduced : Action.reduce now state (.commit entityName id operation) = .ok next)
    (key : EntityKey) :
    (next.pending key).length =
      (state.pending key).length + if key = ⟨entityName, id⟩ then 1 else 0 := by
  obtain ⟨differs, info, _, known, nowKnown, _, _, read⟩ := (undergoes_of_reduce reduced).commit
  rw [differs.length_pending_of_read nowKnown read]
  split
  next same => rw [same, pending_of_find? known, List.length_append, List.length_singleton]
  · rfl

theorem length_pending_of_patch {diff : VersionDiff}
    (reduced : Action.reduce now state (.patch diff) = .ok next) (key : EntityKey) :
    (next.pending key).length = (state.pending key).length := by
  obtain ⟨differs, info, _, known, nowKnown, same | read⟩ := (undergoes_of_reduce reduced).patch
  · rw [differs.length_pending nowKnown, same]
    split
    next isKey => rw [isKey, pending_of_find? known]
    · rfl
  · rw [differs.length_pending_of_read nowKnown read]
    split
    next same => rw [same, pending_of_find? known]
    · rfl

theorem length_pending_of_rebase {command : PushCommand}
    (reduced : Action.reduce now state (.rebase command) = .ok next) (key : EntityKey) :
    (next.pending key).length = (state.pending key).length := by
  obtain ⟨differs, _, info, _, known, nowKnown, _, _, read, _⟩ :=
    (undergoes_of_reduce reduced).rebase
  rw [differs.length_pending_of_read nowKnown read]
  split
  next same => rw [same, pending_of_find? known]
  · rfl

theorem length_pending_of_synchronizeFrom {command : PushCommand} {origin : Document}
    {acknowledged : List Update}
    (reduced : Action.reduce now state (.synchronizeFrom command origin acknowledged) = .ok next)
    (key : EntityKey) :
    (next.pending key).length =
      if key = ⟨command.entityName, command.id⟩ then
        (state.pending key).length - acknowledged.length
      else (state.pending key).length := by
  obtain ⟨differs, _, info, _, known, nowKnown, _, _, read⟩ :=
    (undergoes_of_reduce reduced).synchronizeFrom
  rw [differs.length_pending_of_read nowKnown read, List.length_drop]
  split
  next same => rw [same, pending_of_find? known]
  · rfl

theorem length_pending_of_synchronize {command : PushCommand} {acknowledged : List Update}
    (reduced : Action.reduce now state (.synchronize command acknowledged) = .ok next)
    (key : EntityKey) :
    (next.pending key).length =
      if key = ⟨command.entityName, command.id⟩ then
        (state.pending key).length - acknowledged.length
      else (state.pending key).length := by
  obtain ⟨_, _, reducedFrom⟩ := reduce_synchronize reduced
  exact length_pending_of_synchronizeFrom reducedFrom key

/-- What is followed has no pending commits. -/
theorem length_pending_of_follow {entityName : String} {entity : Document}
    {versionId : Option String}
    (reduced : Action.reduce now state (.follow entityName entity versionId) = .ok next) :
    ∃ id, entity.HoldsId id ∧ ∀ key, (next.pending key).length =
      if key = ⟨entityName, id⟩ then 0 else (state.pending key).length := by
  obtain ⟨id, holdsId, differs, nowKnown⟩ := (undergoes_of_reduce reduced).follow
  exact ⟨id, holdsId, differs.length_pending nowKnown⟩

theorem pending_of_reduce_beside {action : Action} (beside : action.IsBeside)
    (reduced : action.reduce now state = .ok next) (key : EntityKey) :
    next.pending key = state.pending key :=
  pending_of_entities (entities_of_reduce_beside beside reduced) key

theorem unreachedCommits_of_reduce {action : Action}
    (outside : ¬ action.ReachesField .unreachedCommits)
    (reduced : action.reduce now state = .ok next) :
    next.unreachedCommits = state.unreachedCommits :=
  same_of_reduce outside reduced

theorem network_of_reduce {action : Action} (outside : ¬ action.ReachesField .network)
    (reduced : action.reduce now state = .ok next) : next.network = state.network :=
  same_of_reduce outside reduced

theorem queued_of_unreachedCommits (same : next.unreachedCommits = state.unreachedCommits)
    (key : EntityKey) : next.queued key = state.queued key := by
  rw [queued, entriesOf, same, queued, entriesOf]

theorem QueueReads.of_unreachedCommits (reads : state.QueueReads)
    (same : next.unreachedCommits = state.unreachedCommits) : next.QueueReads := by
  rw [QueueReads, same]
  exact reads

end LocalState

/-- A push is of commits as they are stored, and of all that are queued. -/
structure PushJob.Covers (state : LocalState) (job : PushJob) : Prop where
  fits : job.Fits state
  queued : state.queued job.key ≤ job.commits.length

theorem PushJob.Covers.of_same {state next : LocalState} {job : PushJob} (covers : job.Covers state)
    (entities : next.entities = state.entities)
    (queue : next.unreachedCommits = state.unreachedCommits) : job.Covers next where
  fits := covers.fits.of_entities entities
  queued := by
    rw [LocalState.queued_of_unreachedCommits queue]
    exact covers.queued

end LocalFirst
