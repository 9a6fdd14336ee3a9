import LocalFirst.State.Documents

/-!
# The queue of unreached commits

Overlapping pushes of one entity must not count its commits twice: an addition
enqueues only the commits that are not in the queue yet.
-/

namespace LocalFirst

namespace LocalState

def queuePath : Path :=
  ⟨["unreachedCommits"]⟩

/-- Enqueue the part of a count that the queue does not hold yet. -/
def enqueue (state : LocalState) (commit : UnreachedCommit) : Update :=
  let enqueued := state.enqueuedCommitCount commit.entityName commit.id
  if commit.commitCount ≤ enqueued then Update.empty
  else
    Update.empty.push queuePath
      { commit with commitCount := commit.commitCount - enqueued }.toDocument

/-- Remove the entries that equal one. -/
def dequeue (commit : UnreachedCommit) : Update :=
  Update.empty.pullWhere queuePath (.isIn [commit.toDocument])

end LocalState

end LocalFirst
