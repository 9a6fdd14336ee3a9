import LocalFirst.Proofs.ReadyActions
import LocalFirst.Sync.Message

/-!
# The queue of unreached commits

What the queue holds for an entity is a number of commits in several entries.  An addition raises
the number to a count, unless it is there already, and a removal takes away all entries that equal
one.  In a state whose queue can be read back a removal never fails.
-/

namespace LocalFirst

/-- The entity that an entry of the queue is about. -/
def UnreachedCommit.key (entry : UnreachedCommit) : EntityKey :=
  ⟨entry.entityName, entry.id⟩

theorem UnreachedCommit.key_eq_iff {entry : UnreachedCommit} {key : EntityKey} :
    entry.key = key ↔ (entry.entityName == key.entityName && entry.id == key.id) = true := by
  obtain ⟨entityName, id⟩ := key
  simp [UnreachedCommit.key]

/-- How many commits some entries count. -/
def UnreachedCommit.total : List UnreachedCommit → Nat
  | [] => 0
  | entry :: rest => entry.commitCount.toNat + total rest

theorem UnreachedCommit.total_append (entries others : List UnreachedCommit) :
    total (entries ++ others) = total entries + total others := by
  induction entries with
  | nil => rw [List.nil_append, total, Nat.zero_add]
  | cons entry rest ih => rw [List.cons_append, total, total, ih, Nat.add_assoc]

theorem UnreachedCommit.total_le {entries others : List UnreachedCommit}
    (fewer : entries.Sublist others) : total entries ≤ total others := by
  induction fewer with
  | slnil => exact Nat.le_refl _
  | cons entry _ ih => exact Nat.le_trans ih (Nat.le_add_left _ _)
  | cons_cons entry _ ih => exact Nat.add_le_add_left ih _

/-- The entries in front that a count covers. -/
def UnreachedCommit.covered : Nat → List UnreachedCommit → List UnreachedCommit
  | _, [] => []
  | count, entry :: rest =>
      if count < entry.commitCount.toNat then []
      else entry :: covered (count - entry.commitCount.toNat) rest

/-- A count that comes up to the total covers all entries. -/
theorem UnreachedCommit.covered_of_total_le {entries : List UnreachedCommit} {count : Nat}
    (covers : total entries ≤ count) : covered count entries = entries := by
  induction entries generalizing count with
  | nil => rfl
  | cons entry rest ih =>
      rw [total] at covers
      rw [covered, if_neg (by omega), ih (by omega)]

theorem UnreachedCommit.covered_subset (count : Nat) (entries : List UnreachedCommit) :
    covered count entries ⊆ entries := by
  induction entries generalizing count with
  | nil => exact List.Subset.refl _
  | cons entry rest ih =>
      rw [covered]
      split
      · exact List.nil_subset _
      · exact List.cons_subset_cons entry (ih _)

/-- Entries are equivalent as documents only when they are equal. -/
theorem UnreachedCommit.equivalent_toDocument (commit entry : UnreachedCommit) :
    commit.toDocument.equivalent entry.toDocument = decide (commit = entry) := by
  obtain ⟨entityName, id, count⟩ := commit
  obtain ⟨otherName, otherId, otherCount⟩ := entry
  have compared : Document.equivalent (toDocument ⟨entityName, id, count⟩)
      (toDocument ⟨otherName, otherId, otherCount⟩) =
        (entityName == otherName && (id == otherId &&
          ((compare count.toInt64.toInt otherCount.toInt64.toInt == .eq) && true))) := by
    simp [Document.equivalent, toDocument, Document.agree, Document.agreeMembers,
      Members.get?, Document.equivalentScalar, Document.number?, Document.sameScalar,
      Number.compare]
  have sameCount : count.toInt64 = otherCount.toInt64 ↔ count = otherCount :=
    ⟨fun same => by simpa using congrArg Int64.toUInt64 same, congrArg _⟩
  rw [compared, Bool.eq_iff_iff]
  simp [Int64.toInt_inj, sameCount]

namespace LocalState

/-- The entries of the queue that are about an entity. -/
def entriesOf (state : LocalState) (key : EntityKey) : List UnreachedCommit :=
  state.unreachedCommits.filter fun entry =>
    entry.entityName == key.entityName && entry.id == key.id

/-- How many commits of an entity the queue holds. -/
def queued (state : LocalState) (key : EntityKey) : Nat :=
  UnreachedCommit.total (state.entriesOf key)

theorem mem_entriesOf {state : LocalState} {key : EntityKey} {entry : UnreachedCommit} :
    entry ∈ state.entriesOf key ↔ entry ∈ state.unreachedCommits ∧ entry.key = key := by
  rw [entriesOf, List.mem_filter, UnreachedCommit.key_eq_iff]

/-- The count of the queue does not overflow as long as the commits fit into a word. -/
theorem toNat_enqueuedCommitCount {state : LocalState} {key : EntityKey}
    (fits : state.queued key < UInt64.size) :
    (state.enqueuedCommitCount key.entityName key.id).toNat = state.queued key := by
  have sums : ∀ entries : List UnreachedCommit,
      UnreachedCommit.total entries < UInt64.size →
      (entries.foldr (fun (commit : UnreachedCommit) total => commit.commitCount + total) 0).toNat =
        UnreachedCommit.total entries := by
    intro entries
    induction entries with
    | nil => exact fun _ => rfl
    | cons entry rest ih =>
        intro small
        rw [UnreachedCommit.total] at small ⊢
        rw [List.foldr_cons, UInt64.toNat_add, ih (by omega), Nat.mod_eq_of_lt small]
  exact sums _ fits

variable {now : Instant} {state next : LocalState}

/-- An edit of the queue as a list of documents. -/
def EditsQueue (now : Instant) (edit : Edit) (change : List Document → List Document) : Prop :=
  edit.operator ≠ .rename ∧ ∀ (document : Document) (items : List Document),
    document.child? "unreachedCommits" = some (.array items) →
      edit.act now document "unreachedCommits" =
        document.setChild "unreachedCommits" (.array (change items))

theorem editsQueue_push (now : Instant) (entry : UnreachedCommit) :
    EditsQueue now (.push ⟨[entry.toDocument], none, none, none⟩) (· ++ [entry.toDocument]) := by
  refine ⟨by simp [Edit.operator], fun document items there => ?_⟩
  simp [Edit.act, Edit.growArray, there, Push.run, Push.place, Push.cut]

theorem editsQueue_pull (now : Instant) (entry : UnreachedCommit) :
    EditsQueue now (.pull (.isIn [entry.toDocument]))
      (List.filter fun item => !item.equivalent entry.toDocument) := by
  refine ⟨by simp [Edit.operator], fun document items there => ?_⟩
  simp [Edit.act, Edit.shrinkArray, there, Condition.matchesItem]

/-- What an update of the queue as a whole makes of the queue. -/
theorem unreachedCommits_of_applyCommand {update : Update} {edit : Edit}
    {change : List Document → List Document} {queue : List UnreachedCommit}
    (entries : update.entries.toList = [⟨queuePath, edit⟩]) (edits : EditsQueue now edit change)
    (changes : change (state.unreachedCommits.map UnreachedCommit.toDocument) =
      queue.map UnreachedCommit.toDocument)
    (applied : state.applyCommand now update = .ok next) : next.unreachedCommits = queue := by
  obtain ⟨nonempty, reaches⟩ := touchedEntities_of_entry entries edits.1 rfl
  obtain ⟨document, result, updated, read, _, queueEq, _⟩ :=
    applyCommand_eq_ok nonempty reaches applied
  rw [Update.apply, entries] at updated
  simp only [List.foldlM_cons, List.foldlM_nil, Except.bind_eq_ok, Except.pure_eq_ok] at updated
  obtain ⟨_, ran, rfl⟩ := updated
  have isObject := (holdsEntities_toDocument (state.scopedTo [])).isObject
  have acted := Entry.updateParent_of_run edits.1 ran
  have there := (Document.child?_of_isObject isObject _).trans
    (get?_unreachedCommits_toDocument (state.scopedTo []))
  rw [queuePath, Document.updateParent, edits.2 _ _ there,
    Document.setChild_of_isObject isObject] at acted
  refine queueEq.trans (unreachedCommits_of_ofDocument read ?_)
  rw [← Except.ok.inj acted, Document.get?_put_self isObject]
  exact congrArg (fun items => some (Document.array items)) changes

/-- The entry that an addition puts into the queue, if there is anything to add. -/
def added (state : LocalState) (entry : UnreachedCommit) : List UnreachedCommit :=
  let enqueued := state.enqueuedCommitCount entry.entityName entry.id
  if entry.commitCount ≤ enqueued then []
  else [{ entry with commitCount := entry.commitCount - enqueued }]

/-- An addition puts an entry behind the others. -/
theorem reduce_addUnreachedCommits {entry : UnreachedCommit}
    (reduced : Action.reduce now state (.addUnreachedCommits entry) = .ok next) :
    next.unreachedCommits = state.unreachedCommits ++ state.added entry := by
  simp only [Action.reduce, Action.update, Except.bind_eq_ok, Except.ok.injEq, exists_eq_left',
    enqueue] at reduced
  rw [added]
  split at reduced
  next covered =>
    cases reduced
    rw [if_pos covered, List.append_nil]
  next short =>
    rw [if_neg short]
    exact unreachedCommits_of_applyCommand rfl (editsQueue_push _ _) (by simp) reduced

theorem filter_equivalent (queue : List UnreachedCommit) (entry : UnreachedCommit) :
    (queue.map UnreachedCommit.toDocument).filter
        (fun item => !item.equivalent entry.toDocument) =
      (queue.filter fun other => other ≠ entry).map UnreachedCommit.toDocument := by
  rw [List.filter_map]
  congr 1
  refine List.filter_congr fun other _ => ?_
  simp [UnreachedCommit.equivalent_toDocument]

/-- An entry behind the others counts for its entity. -/
theorem queued_of_append {entry : UnreachedCommit}
    (grown : next.unreachedCommits = state.unreachedCommits ++ [entry]) (key : EntityKey) :
    next.queued key =
      state.queued key + if key = entry.key then entry.commitCount.toNat else 0 := by
  rw [queued, entriesOf, grown, List.filter_append, UnreachedCommit.total_append]
  change state.queued key + _ = _
  split
  next same => simp [UnreachedCommit.key_eq_iff.1 same.symm, UnreachedCommit.total]
  next other =>
    have apart : ¬ (entry.entityName == key.entityName && entry.id == key.id) = true :=
      fun about => other (UnreachedCommit.key_eq_iff.2 about).symm
    simp [apart, UnreachedCommit.total]

/-- After an addition the queue holds the count that was to be reached, unless it held more. -/
theorem queued_of_added {entry : UnreachedCommit} (fits : state.queued entry.key < UInt64.size)
    (grown : next.unreachedCommits = state.unreachedCommits ++ state.added entry)
    (key : EntityKey) :
    next.queued key = if key = entry.key then max (state.queued key) entry.commitCount.toNat
      else state.queued key := by
  have enqueued : (state.enqueuedCommitCount entry.entityName entry.id).toNat =
      state.queued entry.key := toNat_enqueuedCommitCount fits
  rw [added] at grown
  split at grown
  next covered =>
    rw [UInt64.le_iff_toNat_le, enqueued] at covered
    rw [List.append_nil] at grown
    rw [queued, entriesOf, grown]
    change state.queued key = _
    split
    next same =>
      subst same
      exact (Nat.max_eq_left covered).symm
    · rfl
  next short =>
    rw [UInt64.le_iff_toNat_le, enqueued, Nat.not_le] at short
    have difference : (entry.commitCount -
        state.enqueuedCommitCount entry.entityName entry.id).toNat =
          entry.commitCount.toNat - state.queued entry.key := by
      rw [UInt64.toNat_sub_of_le, enqueued]
      rw [UInt64.le_iff_toNat_le, enqueued]
      omega
    rw [queued_of_append grown, UnreachedCommit.key, difference]
    change _ + (if key = entry.key then _ else _) = _
    split
    next same =>
      subst same
      omega
    · rfl

/-- When no more is queued than is to be reached, the queue then holds this many commits. -/
theorem queued_of_reduce_addUnreachedCommits {key : EntityKey} {count : Nat}
    (covers : state.queued key ≤ count) (isWord : count < UInt64.size)
    (reduced : Action.reduce now state
      (.addUnreachedCommits ⟨key.entityName, key.id, UInt64.ofNat count⟩) = .ok next)
    (other : EntityKey) :
    next.queued other = if other = key then count else state.queued other := by
  have reached : (UInt64.ofNat count).toNat = count := UInt64.toNat_ofNat_of_lt' isWord
  have counts := queued_of_added (Nat.lt_of_le_of_lt covers isWord)
    (reduce_addUnreachedCommits reduced) other
  rw [counts, reached]
  change (if other = key then _ else _) = _
  split
  next same =>
    subst same
    exact Nat.max_eq_right covers
  · rfl

/-- A removal takes all entries away that equal one. -/
theorem reduce_removeUnreachedCommits {entry : UnreachedCommit}
    (reduced : Action.reduce now state (.removeUnreachedCommits entry) = .ok next) :
    next.unreachedCommits = state.unreachedCommits.filter fun other => other ≠ entry := by
  simp only [Action.reduce, Action.update, Except.bind_eq_ok, Except.ok.injEq,
    exists_eq_left'] at reduced
  exact unreachedCommits_of_applyCommand rfl (editsQueue_pull _ _) (filter_equivalent _ _) reduced

/-- A queue that is read back can take the place of the stored one. -/
theorem exists_applyCommand_queue {update : Update} {edit : Edit}
    {change : List Document → List Document} {queue : List UnreachedCommit}
    (entries : update.entries.toList = [⟨queuePath, edit⟩]) (edits : EditsQueue now edit change)
    (changes : change (state.unreachedCommits.map UnreachedCommit.toDocument) =
      queue.map UnreachedCommit.toDocument)
    (reads : ∀ commit ∈ queue, UnreachedCommit.ofDocument commit.toDocument = .ok commit) :
    ∃ next, state.applyCommand now update = .ok next := by
  let changed : LocalState := { state.scopedTo [] with unreachedCommits := queue }
  have isObject := (holdsEntities_toDocument (state.scopedTo [])).isObject
  have there := (Document.child?_of_isObject isObject _).trans
    (get?_unreachedCommits_toDocument (state.scopedTo []))
  have written : (state.scopedTo []).toDocument.put "unreachedCommits"
      (.array (changed.unreachedCommits.map UnreachedCommit.toDocument)) = changed.toDocument := by
    obtain ⟨entities, unreachedCommits, network, session, error⟩ := state
    cases session <;> cases error <;> rfl
  have acted := edits.2 _ _ there
  rw [show (state.scopedTo []).unreachedCommits = state.unreachedCommits from rfl, changes,
    Document.setChild_of_isObject isObject] at acted
  have updated : update.apply now (state.scopedTo []).toDocument = .ok changed.toDocument := by
    rw [Update.apply, entries, List.foldlM_cons, Entry.run_of_not_rename edits.1, ← written]
    exact congrArg (fun outcome => Entry.blame _ _ outcome >>= pure) acted
  obtain ⟨nonempty, reaches⟩ := touchedEntities_of_entry entries edits.1 rfl
  have beside : changed.entities = (state.scopedTo []).entities := rfl
  exact exists_applyCommand_beside nonempty reaches beside reads updated

/-- An entry can always be removed. -/
theorem exists_reduce_removeUnreachedCommits (queue : state.QueueReads) (now : Instant)
    (entry : UnreachedCommit) :
    ∃ next, Action.reduce now state (.removeUnreachedCommits entry) = .ok next := by
  change ∃ next, state.applyCommand now (dequeue entry) = .ok next
  exact exists_applyCommand_queue rfl (editsQueue_pull now entry) (filter_equivalent _ entry)
    fun commit member => queue commit (List.mem_filter.1 member).1

/-- Commits can be queued as long as a signed number can count them. -/
theorem exists_reduce_addUnreachedCommits (queue : state.QueueReads) (now : Instant)
    {entry : UnreachedCommit} (small : entry.commitCount.toNat < Nat.pow 2 63) :
    ∃ next, Action.reduce now state (.addUnreachedCommits entry) = .ok next := by
  change ∃ next, state.applyCommand now (state.enqueue entry) = .ok next
  rw [enqueue]
  split
  · exact ⟨state, rfl⟩
  next short =>
    let enqueued := state.enqueuedCommitCount entry.entityName entry.id
    let added : UnreachedCommit := { entry with commitCount := entry.commitCount - enqueued }
    have fewer : added.commitCount.toNat < Nat.pow 2 63 := by
      rw [UInt64.not_le, UInt64.lt_iff_toNat_lt] at short
      change (entry.commitCount - enqueued).toNat < _
      rw [UInt64.toNat_sub_of_le _ _ (UInt64.le_iff_toNat_le.2 (Nat.le_of_lt short))]
      exact Nat.lt_of_le_of_lt (Nat.sub_le _ _) small
    refine exists_applyCommand_queue rfl (editsQueue_push now added)
      (by simp : _ = (state.unreachedCommits ++ [added]).map UnreachedCommit.toDocument) ?_
    rintro commit member
    rcases List.mem_append.1 member with old | new
    · exact queue commit old
    · obtain rfl := List.mem_singleton.1 new
      exact UnreachedCommit.ofDocument_toDocument_of_lt fewer

end LocalState

end LocalFirst
