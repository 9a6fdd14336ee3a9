import LocalFirst.Proofs.QueueEffects
import LocalFirst.Proofs.ReachedState
import LocalFirst.Proofs.StateParts

/-!
# Additions to the queue

An addition puts an entry behind the others for those commits of its entity that are not in the
queue yet.  What the queue holds of an entity is therefore a sum of differences, each of them to the
sum that came before, with the entries of other entities in between.  The sum never exceeds the
largest count that was added, and reaches it, so that neither the order of the additions nor how
often they repeat makes a difference.
-/

namespace LocalFirst

namespace UnreachedCommit

variable {key : EntityKey} {entries : List UnreachedCommit}

/-- The largest count of an entity among some entries, zero when there is none about it. -/
def largest (key : EntityKey) (entries : List UnreachedCommit) : Nat :=
  ((entries.filter fun entry => entry.key = key).map fun entry =>
    entry.commitCount.toNat).foldr max 0

theorem largest_cons (key : EntityKey) (entry : UnreachedCommit)
    (entries : List UnreachedCommit) :
    largest key (entry :: entries) =
      if entry.key = key then max entry.commitCount.toNat (largest key entries)
      else largest key entries := by
  by_cases about : entry.key = key <;> simp [largest, about]

theorem largest_le_iff {bound : Nat} :
    largest key entries ≤ bound ↔
      ∀ entry ∈ entries, entry.key = key → entry.commitCount.toNat ≤ bound := by
  induction entries with
  | nil => simp [largest]
  | cons entry rest ih =>
      rw [largest_cons, List.forall_mem_cons, ← ih]
      by_cases about : entry.key = key
      · rw [if_pos about, Nat.max_le]
        simp [about]
      · simp [about]

theorem largest_mono {others : List UnreachedCommit} (fewer : entries ⊆ others) :
    largest key entries ≤ largest key others := by
  have atMost := largest_le_iff.1 (Nat.le_refl (largest key others))
  exact largest_le_iff.2 fun entry member => atMost entry (fewer member)

/-- Only which entries there are makes a difference. -/
theorem largest_congr {others : List UnreachedCommit}
    (sameEntries : ∀ entry, entry ∈ others ↔ entry ∈ entries) :
    largest key others = largest key entries :=
  Nat.le_antisymm (largest_mono fun entry => (sameEntries entry).1)
    (largest_mono fun entry => (sameEntries entry).2)

end UnreachedCommit

namespace LocalState

open UnreachedCommit (largest)

variable {state next : LocalState} {entry : UnreachedCommit}

/-- Commits are added to the queue one after another, each time at its own instant. -/
def enqueueInTurn (state : LocalState) (additions : List (Instant × UnreachedCommit)) :
    Except StateError LocalState :=
  additions.foldlM (fun state addition =>
    Action.reduce addition.1 state (.addUnreachedCommits addition.2)) state

/-- The queue is one that additions lead to: its entries can be read back, no entry is about
nothing, and the entries about an entity come to a number that fits into a signed integer. -/
structure QueueAddsUp (state : LocalState) : Prop where
  reads : state.QueueReads
  positive : ∀ entry ∈ state.unreachedCommits, 0 < entry.commitCount
  fits : ∀ key, state.queued key ≤ Nat.pow 2 63 - 1

theorem queueAddsUp_of_nil (noQueue : state.unreachedCommits = []) : state.QueueAddsUp where
  reads := by simp [QueueReads, noQueue]
  positive := by simp [noQueue]
  fits key := by simp [queued, entriesOf, noQueue, UnreachedCommit.total]

theorem QueueAddsUp.lt_size (addsUp : state.QueueAddsUp) (key : EntityKey) :
    state.queued key < UInt64.size :=
  Nat.lt_of_le_of_lt (addsUp.fits key) (by decide)

theorem QueueAddsUp.toNat_enqueuedCommitCount (addsUp : state.QueueAddsUp)
    (entityName id : String) :
    (state.enqueuedCommitCount entityName id).toNat = state.queued ⟨entityName, id⟩ :=
  LocalState.toNat_enqueuedCommitCount (addsUp.lt_size ⟨entityName, id⟩)

/-- What is added is the part of the count that the queue lacks, which is not nothing. -/
theorem positive_of_mem_added {new : UnreachedCommit} (member : new ∈ state.added entry) :
    0 < new.commitCount := by
  rw [added] at member
  split at member
  · cases member
  next short =>
    obtain rfl := List.mem_singleton.1 member
    rw [UInt64.not_le, UInt64.lt_iff_toNat_lt] at short
    change 0 < entry.commitCount - _
    rw [UInt64.lt_iff_toNat_lt,
      UInt64.toNat_sub_of_le _ _ (UInt64.le_iff_toNat_le.2 (Nat.le_of_lt short))]
    exact Nat.sub_pos_of_lt short

/-- An addition goes through, and raises what the queue holds of its entity to the count. -/
theorem QueueAddsUp.add (addsUp : state.QueueAddsUp) (now : Instant) (fits : entry.Fits) :
    ∃ next, Action.reduce now state (.addUnreachedCommits entry) = .ok next ∧
      next.QueueAddsUp ∧ ∀ key, next.queued key =
        if key = entry.key then max (state.queued key) entry.commitCount.toNat
        else state.queued key := by
  have small : entry.commitCount.toNat < Nat.pow 2 63 := Nat.lt_of_le_of_lt fits (by decide)
  have incremental : (Action.addUnreachedCommits entry).Incremental := trivial
  obtain ⟨next, reduced⟩ := exists_reduce_addUnreachedCommits addsUp.reads now small
  have grown := reduce_addUnreachedCommits reduced
  have counts := queued_of_added (addsUp.lt_size entry.key) grown
  refine ⟨next, reduced, ?_, counts⟩
  constructor
  case reads => exact addsUp.reads.reduce incremental reduced
  case positive =>
    intro commit member
    rw [grown] at member
    rcases List.mem_append.1 member with old | new
    · exact addsUp.positive commit old
    · exact positive_of_mem_added new
  case fits =>
    intro key
    rw [counts]
    split
    · exact Nat.max_le.2 ⟨addsUp.fits key, fits⟩
    · exact addsUp.fits key

/-- Additions raise what the queue holds of an entity to the largest count. -/
theorem QueueAddsUp.enqueueInTurn {additions : List (Instant × UnreachedCommit)}
    (addsUp : state.QueueAddsUp) (fits : ∀ addition ∈ additions, addition.2.Fits) :
    ∃ last, state.enqueueInTurn additions = .ok last ∧ last.QueueAddsUp ∧
      ∀ key, last.queued key = max (state.queued key) (largest key (additions.map Prod.snd)) := by
  induction additions generalizing state with
  | nil => exact ⟨state, rfl, addsUp, fun key => (Nat.max_eq_left (Nat.zero_le _)).symm⟩
  | cons addition rest ih =>
      obtain ⟨firstFits, restFits⟩ := List.forall_mem_cons.1 fits
      obtain ⟨next, reduced, nextAddsUp, raised⟩ := addsUp.add addition.1 firstFits
      obtain ⟨last, restAdded, lastAddsUp, counts⟩ := ih nextAddsUp restFits
      -- the first addition raises what is held, and the rest raise what it left
      refine ⟨last, ?_, lastAddsUp, fun key => ?_⟩
      · rw [LocalState.enqueueInTurn, List.foldlM_cons, reduced]
        exact restAdded
      · rw [counts, raised, List.map_cons, UnreachedCommit.largest_cons]
        by_cases about : addition.2.key = key
        · rw [if_pos about.symm, if_pos about, Nat.max_assoc]
        · rw [if_neg (Ne.symm about), if_neg about]

/-- In a queue that was empty, the largest count of each entity is counted. -/
theorem exists_enqueueInTurn {additions : List (Instant × UnreachedCommit)}
    (noQueue : state.unreachedCommits = []) (fits : ∀ addition ∈ additions, addition.2.Fits) :
    ∃ last, state.enqueueInTurn additions = .ok last ∧ last.QueueAddsUp ∧
      ∀ entityName id, (last.enqueuedCommitCount entityName id).toNat =
        largest ⟨entityName, id⟩ (additions.map Prod.snd) := by
  obtain ⟨last, added, addsUp, counts⟩ := (queueAddsUp_of_nil noQueue).enqueueInTurn fits
  refine ⟨last, added, addsUp, fun entityName id => ?_⟩
  have nothing : state.queued ⟨entityName, id⟩ = 0 := by
    simp [queued, entriesOf, noQueue, UnreachedCommit.total]
  rw [addsUp.toNat_enqueuedCommitCount, counts, nothing, Nat.zero_max]

/-- Commits of any mix of entities that are added to an empty queue all go in.  What is queued of an
entity is the largest count that was added for it, and no entry is about nothing.  The same
additions in another order, or repeated, lead to the same counts. -/
theorem enqueuedCommitCount_of_additions (start : LocalState)
    (noQueue : start.unreachedCommits = []) (additions : List (Instant × UnreachedCommit))
    (fits : ∀ addition ∈ additions, addition.2.Fits) :
    ∃ last, start.enqueueInTurn additions = .ok last ∧
      (∀ entityName id, (last.enqueuedCommitCount entityName id).toNat =
        largest ⟨entityName, id⟩ (additions.map Prod.snd)) ∧
      (∀ entry ∈ last.unreachedCommits, 0 < entry.commitCount) ∧
      ∀ others : List (Instant × UnreachedCommit),
        (∀ entry, entry ∈ others.map Prod.snd ↔ entry ∈ additions.map Prod.snd) →
          ∃ other, start.enqueueInTurn others = .ok other ∧ ∀ entityName id,
            other.enqueuedCommitCount entityName id = last.enqueuedCommitCount entityName id := by
  obtain ⟨last, added, addsUp, counts⟩ := exists_enqueueInTurn noQueue fits
  refine ⟨last, added, counts, addsUp.positive, fun others sameEntries => ?_⟩
  have othersFit : ∀ addition ∈ others, addition.2.Fits := by
    intro addition member
    have listed := (sameEntries addition.2).1 (List.mem_map_of_mem member)
    obtain ⟨first, inAdditions, same⟩ := List.mem_map.1 listed
    exact same ▸ fits first inAdditions
  obtain ⟨other, otherAdded, _, otherCounts⟩ := exists_enqueueInTurn noQueue othersFit
  refine ⟨other, otherAdded, fun entityName id => UInt64.toNat_inj.1 ?_⟩
  rw [otherCounts, counts, UnreachedCommit.largest_congr sameEntries]

/-- Nothing is queued, a request is open, and the server cannot be reached. -/
def away : LocalState :=
  { empty with network := ⟨["tag"], false⟩ }

/-- Commits of two notes, one of them counted down, up and once more, the other at nothing and at
the largest count. -/
def crossedAdditions : List (Instant × UnreachedCommit) :=
  [(default, ⟨"note", "a", 5⟩), (default, ⟨"note", "b", 0⟩), (default, ⟨"note", "a", 2⟩),
    (default, ⟨"note", "b", 9223372036854775807⟩), (default, ⟨"note", "a", 8⟩),
    (default, ⟨"note", "a", 8⟩)]

/-- Backwards, the same counts come about through other entries. -/
theorem enqueuedCommitCount_of_additions_crossed :
    ∃ last other, away.enqueueInTurn crossedAdditions = .ok last ∧
      away.enqueueInTurn crossedAdditions.reverse = .ok other ∧
      (∀ state ∈ [last, other], state.enqueuedCommitCount "note" "a" = 8 ∧
        state.enqueuedCommitCount "note" "b" = 9223372036854775807 ∧
        state.enqueuedCommitCount "note" "c" = 0) ∧
      ∀ entry ∈ last.unreachedCommits, 0 < entry.commitCount := by
  have fits : ∀ addition ∈ crossedAdditions, addition.2.Fits := by
    unfold UnreachedCommit.Fits
    decide
  obtain ⟨last, added, counts, positive, reordered⟩ :=
    enqueuedCommitCount_of_additions away rfl crossedAdditions fits
  obtain ⟨other, otherAdded, sameCounts⟩ :=
    reordered crossedAdditions.reverse fun entry => by simp [and_comm]
  have count : ∀ id (expected : UInt64), largest ⟨"note", id⟩ (crossedAdditions.map Prod.snd) =
      expected.toNat → last.enqueuedCommitCount "note" id = expected :=
    fun id expected isLargest => UInt64.toNat_inj.1 ((counts "note" id).trans isLargest)
  have onA := count "a" 8 (by decide)
  have onB := count "b" 9223372036854775807 (by decide)
  have onC := count "c" 0 (by decide)
  refine ⟨last, other, added, otherAdded, fun state member => ?_, positive⟩
  obtain rfl | rfl : state = last ∨ state = other := by simpa using member
  · exact ⟨onA, onB, onC⟩
  · rw [sameCounts, sameCounts, sameCounts]
    exact ⟨onA, onB, onC⟩

/-- The entries hold the differences. -/
example : (empty.enqueueInTurn [(default, ⟨"note", "a", 2⟩), (default, ⟨"note", "b", 2⟩),
    (default, ⟨"note", "a", 5⟩)]).map unreachedCommits =
      .ok [⟨"note", "a", 2⟩, ⟨"note", "b", 2⟩, ⟨"note", "a", 3⟩] :=
  rfl

end LocalState

end LocalFirst
