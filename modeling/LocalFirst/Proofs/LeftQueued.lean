import LocalFirst.Proofs.CallActions
import LocalFirst.Proofs.QueuedEntities

/-!
# The entries that a repush leaves

The entries of one entity are taken from the front as long as the acknowledged commits cover them,
so that what is left is told by the counts alone.  The counts are words, and stay so: no action of a
call adds to the pending commits, and an addition to the queue raises a count to a word.
-/

namespace LocalFirst

namespace LocalState

variable {now : Instant} {state next : LocalState}

theorem DiffersAt.length_pending_le {before after : LocalState} {entityName id : String}
    (differs : DiffersAt before after entityName id)
    (fewer : (after.pending ⟨entityName, id⟩).length ≤ (before.pending ⟨entityName, id⟩).length)
    (key : EntityKey) : (after.pending key).length ≤ (before.pending key).length := by
  by_cases same : key = ⟨entityName, id⟩
  · exact same ▸ fewer
  · exact Nat.le_of_eq (congrArg List.length (differs.pending same))

/-- No action of a call adds to the pending commits. -/
theorem length_pending_le_of_reduce {action : Action} (ofCalls : action.OfCalls)
    (reduced : action.reduce now state = .ok next) (key : EntityKey) :
    (next.pending key).length ≤ (state.pending key).length := by
  cases action
  case replace | reset | assign | clear | commit | revert | followAll | resolveError =>
    exact ofCalls.elim
  case follow =>
    obtain ⟨id, _, lengths⟩ := length_pending_of_follow reduced
    rw [lengths]
    split
    · exact Nat.zero_le _
    · exact Nat.le_refl _
  case unfollow =>
    obtain ⟨concerns, unknown⟩ := reduce_unfollow reduced
    refine (concerns.differsAt rfl rfl).length_pending_le ?_ key
    rw [pending_of_unknown unknown]
    exact Nat.zero_le _
  case setSession session user versionId =>
    rcases reduce_setSession reduced with same | ⟨entity, version, id, _, _, _, others, known⟩
    · exact Nat.le_of_eq (congrArg List.length (pending_of_entities same key))
    · have differs : DiffersAt state next session.entityName id := others
      refine differs.length_pending_le ?_ key
      rw [pending_of_find? known]
      exact Nat.zero_le _
  case patch => exact Nat.le_of_eq (length_pending_of_patch reduced key)
  case rebase => exact Nat.le_of_eq (length_pending_of_rebase reduced key)
  case synchronize =>
    rw [length_pending_of_synchronize reduced]
    split
    · exact Nat.sub_le _ _
    · exact Nat.le_refl _
  case synchronizeFrom =>
    rw [length_pending_of_synchronizeFrom reduced]
    split
    · exact Nat.sub_le _ _
    · exact Nat.le_refl _
  all_goals
    exact Nat.le_of_eq
      (congrArg List.length (pending_of_reduce_beside (by exact trivial) reduced key))

theorem length_pending_of_revert {entityName id : String} {operations : List Update}
    (reduced : Action.reduce now state (.revert entityName id operations) = .ok next)
    (key : EntityKey) : (next.pending key).length ≤ (state.pending key).length := by
  obtain ⟨concerns, info, requests, head, known, _, _, reads⟩ := reduce_revert reduced
  obtain ⟨written, read, nowKnown⟩ := readFrom_toDocument reads
  refine (concerns.differsAt rfl rfl).length_pending_le ?_ key
  rw [pending_of_find? known, pending_of_find? nowKnown]
  exact (Except.mapM_eq_ok_iff.1 read).length_eq ▸ (removeAll_sublist requests _).length_le

/-- The queue can be read back, and of every entity the pending commits, and those that are queued,
can be counted in a word. -/
structure Counted (state : LocalState) : Prop where
  reads : state.QueueReads
  queued : ∀ key, state.queued key < UInt64.size
  pending : ∀ key, (state.pending key).length < UInt64.size

theorem Counted.reduce_outside {action : Action} (counted : state.Counted)
    (incremental : action.Incremental) (outside : ¬ action.ReachesField .unreachedCommits)
    (reduced : action.reduce now state = .ok next)
    (pending : ∀ key, (next.pending key).length < UInt64.size) : next.Counted where
  reads := counted.reads.reduce incremental reduced
  queued key := by
    rw [queued_of_unreachedCommits (unreachedCommits_of_reduce outside reduced)]
    exact counted.queued key
  pending := pending

/-- The counts of the queue stay words, as an addition raises them to one. -/
theorem keep_counted : Action.Keep Counted := by
  intro action now state next ofCalls counted reduced
  have pending : ∀ key, (next.pending key).length < UInt64.size := fun key =>
    Nat.lt_of_le_of_lt (length_pending_le_of_reduce ofCalls reduced key) (counted.pending key)
  cases action
  case addUnreachedCommits entry =>
    refine ⟨counted.reads.reduce (by exact trivial) reduced, fun key => ?_, pending⟩
    rw [queued_of_added (counted.queued entry.key) (reduce_addUnreachedCommits reduced)]
    split
    · exact Nat.max_lt.2 ⟨counted.queued key, entry.commitCount.toNat_lt_size⟩
    · exact counted.queued key
  case removeUnreachedCommits entry =>
    refine ⟨counted.reads.reduce (by exact trivial) reduced, fun key => ?_, pending⟩
    have fewer : (next.entriesOf key).Sublist (state.entriesOf key) := by
      rw [entriesOf, reduce_removeUnreachedCommits reduced]
      exact List.filter_sublist.filter _
    exact Nat.lt_of_le_of_lt (UnreachedCommit.total_le fewer) (counted.queued key)
  case replace | reset | assign | clear | commit | revert | followAll | resolveError =>
    exact ofCalls.elim
  all_goals exact counted.reduce_outside (by exact trivial) (by rintro ⟨⟩) reduced pending

theorem counted_of_commit {entityName id : String} {operation : Update} (counted : state.Counted)
    (room : (state.pending ⟨entityName, id⟩).length + 1 < UInt64.size)
    (reduced : Action.reduce now state (.commit entityName id operation) = .ok next) :
    next.Counted := by
  refine counted.reduce_outside (by exact trivial) (by rintro ⟨⟩) reduced fun key => ?_
  rw [length_pending_of_commit reduced]
  split
  next same => exact same ▸ room
  · exact counted.pending key

theorem Counted.revert {entityName id : String} {operations : List Update} (counted : state.Counted)
    (reduced : Action.reduce now state (.revert entityName id operations) = .ok next) :
    next.Counted :=
  counted.reduce_outside (by exact trivial) (by rintro ⟨⟩) reduced fun key =>
    Nat.lt_of_le_of_lt (length_pending_of_revert reduced key) (counted.pending key)

/-- How many commits of an entity a repush takes from the queue: those that it pushes, or all when
none is pending. -/
def retirable (state : LocalState) (key : EntityKey) : Nat :=
  let pending := (state.pending key).length
  if pending = 0 then state.queued key else min (state.queued key) pending

theorem retirable_of_pos {state : LocalState} {key : EntityKey}
    (positive : 0 < min (state.queued key) (state.pending key).length) :
    state.retirable key = min (state.queued key) (state.pending key).length := by
  rw [retirable, if_neg (by omega)]

theorem retirable_of_zero {state : LocalState} {key : EntityKey}
    (zero : min (state.queued key) (state.pending key).length = 0) :
    state.retirable key = state.queued key := by
  rw [retirable]
  split <;> omega

/-- The entries of an entity that a repush leaves. -/
def leftQueued (state : LocalState) (key : EntityKey) : List UnreachedCommit :=
  (state.entriesOf key).filter
    (· ∉ UnreachedCommit.covered (state.retirable key) (state.entriesOf key))

/-- Nothing is left where all queued commits are still pending, or none. -/
theorem leftQueued_eq_nil {state : LocalState} {key : EntityKey}
    (pending : state.pending key = [] ∨ state.queued key ≤ (state.pending key).length) :
    state.leftQueued key = [] := by
  have all : state.queued key ≤ state.retirable key := by
    rcases pending with none | enough
    · simp [retirable, none]
    · rw [retirable]
      split
      · exact Nat.le_refl _
      · exact Nat.le_min.2 ⟨Nat.le_refl _, enough⟩
  rw [leftQueued, UnreachedCommit.covered_of_total_le all]
  simp

/-- Some commits of an entity were taken from the pending ones, and what they cover from the
queue. -/
structure Takes (before : LocalState) (key : EntityKey) (count : Nat) (after : LocalState) :
    Prop where
  reads : after.QueueReads
  pending : ∀ other, (after.pending other).length =
    if other = key then (before.pending other).length - count else (before.pending other).length
  queue : after.unreachedCommits = before.unreachedCommits.filter
    (· ∉ UnreachedCommit.covered count (before.entriesOf key))

theorem Takes.entriesOf_self {before after : LocalState} {key : EntityKey} {count : Nat}
    (takes : before.Takes key count after) : after.entriesOf key =
      (before.entriesOf key).filter (· ∉ UnreachedCommit.covered count (before.entriesOf key)) := by
  rw [entriesOf, takes.queue, List.filter_comm]
  rfl

theorem Takes.entriesOf_other {before after : LocalState} {key other : EntityKey} {count : Nat}
    (takes : before.Takes key count after) (differ : other ≠ key) :
    after.entriesOf other = before.entriesOf other := by
  rw [entriesOf, takes.queue, List.filter_comm]
  refine List.filter_eq_self.2 fun entry member => decide_eq_true fun isCovered => differ ?_
  have isOther := (mem_entriesOf.1 member).2
  have isKey := (mem_entriesOf.1 (UnreachedCommit.covered_subset _ _ isCovered)).2
  exact isOther.symm.trans isKey

/-- A repush that has begun in one state has come to another, and some entities remain: nothing has
happened to them, and with the others it is done. -/
structure Draining (before : LocalState) (remaining : List (EntityKey × UInt64))
    (state : LocalState) : Prop where
  counted : before.Counted
  reads : state.QueueReads
  counts : ∀ entry ∈ remaining, entry.2.toNat = before.queued entry.1
  distinct : (remaining.map Prod.fst).Nodup
  pending : ∀ key, (state.pending key).length =
    if key ∈ remaining.map Prod.fst then (before.pending key).length
    else (before.pending key).length - before.queued key
  entries : ∀ key, state.entriesOf key =
    if key ∈ remaining.map Prod.fst then before.entriesOf key else before.leftQueued key

theorem Draining.of_same {before state next : LocalState} {remaining : List (EntityKey × UInt64)}
    (draining : Draining before remaining state) (entities : next.entities = state.entities)
    (queue : next.unreachedCommits = state.unreachedCommits) : Draining before remaining next where
  counted := draining.counted
  reads := draining.reads.of_unreachedCommits queue
  counts := draining.counts
  distinct := draining.distinct
  pending key := by
    rw [pending_of_entities entities]
    exact draining.pending key
  entries key := by
    rw [entriesOf, queue]
    exact draining.entries key

/-- To the first of the entities that remain, nothing has happened yet. -/
theorem Draining.first {before state : LocalState} {key : EntityKey} {count : UInt64}
    {remaining : List (EntityKey × UInt64)}
    (draining : Draining before ((key, count) :: remaining) state) :
    (state.pending key).length = (before.pending key).length ∧
      state.queued key = before.queued key ∧ count.toNat = before.queued key := by
  have here : key ∈ ((key, count) :: remaining).map Prod.fst := List.mem_cons_self
  refine ⟨(draining.pending key).trans (if_pos here), ?_, draining.counts _ List.mem_cons_self⟩
  exact congrArg UnreachedCommit.total ((draining.entries key).trans (if_pos here))

/-- The first of the entities that remain has been dealt with. -/
theorem Draining.takes {before state next : LocalState} {key : EntityKey} {count : UInt64}
    {remaining : List (EntityKey × UInt64)}
    (draining : Draining before ((key, count) :: remaining) state)
    (takes : state.Takes key (before.retirable key) next) : Draining before remaining next := by
  obtain ⟨absent, distinct⟩ := List.nodup_cons.1 draining.distinct
  have pendingHere := draining.pending key
  have entriesHere := draining.entries key
  rw [if_pos (by simp)] at pendingHere entriesHere
  have remains : ∀ {other : EntityKey}, other ≠ key →
      (other ∈ ((key, count) :: remaining).map Prod.fst ↔ other ∈ remaining.map Prod.fst) :=
    fun differ => by rw [List.map_cons, List.mem_cons, or_iff_right differ]
  refine ⟨draining.counted, takes.reads, (List.forall_mem_cons.1 draining.counts).2, distinct,
    fun other => ?_, fun other => ?_⟩
  · rw [takes.pending]
    by_cases here : other = key
    · subst here
      rw [if_pos rfl, if_neg absent, pendingHere, retirable]
      split <;> omega
    · rw [if_neg here, draining.pending other, if_congr (remains here) rfl rfl]
  · by_cases here : other = key
    · subst here
      rw [takes.entriesOf_self, if_neg absent, entriesHere, leftQueued]
    · rw [takes.entriesOf_other here, draining.entries other, if_congr (remains here) rfl rfl]

/-- In the end nothing remains. -/
theorem Draining.queued_eq {before state : LocalState} (draining : Draining before [] state)
    (key : EntityKey) : (state.pending key).length =
        (before.pending key).length - before.queued key ∧
      state.entriesOf key = before.leftQueued key :=
  ⟨by simpa using draining.pending key, by simpa using draining.entries key⟩

/-- In the beginning, the entities remain of which anything is queued. -/
theorem Counted.draining (counted : state.Counted) :
    Draining state (Client.queuedEntities state.unreachedCommits) state := by
  have absent : ∀ key, key ∉ (Client.queuedEntities state.unreachedCommits).map Prod.fst →
      state.entriesOf key = [] := by
    intro key notCounted
    refine List.eq_nil_iff_forall_not_mem.2 fun entry member => notCounted ?_
    exact (Client.mem_map_fst_queuedEntities _ _).2 ⟨entry, mem_entriesOf.1 member⟩
  refine ⟨counted, counted.reads, ?_, Client.nodup_queuedEntities _, fun key => ?_, fun key => ?_⟩
  · rintro ⟨key, count⟩ member
    rw [Client.mem_queuedEntities member, toNat_enqueuedCommitCount (counted.queued key)]
  · split
    · rfl
    next none => rw [LocalState.queued, absent key none, UnreachedCommit.total, Nat.sub_zero]
  · split
    · rfl
    next none => simp [leftQueued, absent key none]

end LocalState

end LocalFirst
