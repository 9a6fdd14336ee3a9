import LocalFirst.Proofs.LoggedVersions
import LocalFirst.Proofs.ServerHistory

/-!
# The log of a stored entity

The current document of an entity, the list of its versions, the operations that are returned to
clients and the diffs that are broadcast are views of one history.  The versions of a log are never
issued twice, so each splits the log in one way, and no two diffs that the server broadcasts are
against the same version.
-/

namespace LocalFirst

namespace History

open VersionDiff

/-- The versions behind another one are those of a chain of diffs. -/
theorem Follows.exists_diffs {history : History} {key : EntityKey} {version : String}
    {document result : Document} {later : List Version}
    (follows : history.Follows key version document later result) :
    ∃ diffs ⊆ history.diffs, (∀ diff ∈ diffs, diff.key = key) ∧
      later = diffs.map VersionDiff.version ∧ Chained version diffs (lastOf version later) := by
  induction follows with
  | done => exact ⟨[], List.nil_subset _, by simp, rfl, rfl⟩
  | @step diff _ _ _ _ member sameKey _ _ ih =>
      obtain ⟨diffs, within, keys, versions, chained⟩ := ih
      exact ⟨diff :: diffs, List.cons_subset.2 ⟨member, within⟩,
        List.forall_mem_cons.2 ⟨sameKey, keys⟩, congrArg _ versions, rfl, chained⟩

/-- A way over some versions and then others passes a document between them. -/
theorem Follows.split {history : History} {key : EntityKey} {version : String}
    {document result : Document} {first second : List Version}
    (follows : history.Follows key version document (first ++ second) result) :
    ∃ between, history.Follows key version document first between ∧
      history.Follows key (lastOf version first) between second result := by
  induction first generalizing version document with
  | nil => exact ⟨document, .done, follows⟩
  | cons next rest ih =>
      rw [List.cons_append] at follows
      cases follows with
      | step member sameKey applied follows =>
          obtain ⟨between, restFollows, continues⟩ := ih follows
          exact ⟨between, .step member sameKey applied restFollows, continues⟩

/-- The latest version is one of the log. -/
theorem LogOf.versionId_mem {history : History} {key : EntityKey} {stored : StoredEntity}
    (log : history.LogOf key stored) : stored.versionId ∈ stored.versions.map Version.id := by
  obtain ⟨_, _, _, versions, _⟩ := log
  have nonempty : stored.versions ≠ [] := by
    rw [versions]
    exact List.cons_ne_nil _ _
  rw [StoredEntity.versionId, List.getLast?_eq_some_getLast nonempty]
  exact List.mem_map_of_mem (List.getLast_mem nonempty)

theorem LogOf.mem_versionIds {history : History} {key : EntityKey} {stored : StoredEntity}
    (log : history.LogOf key stored) {version : String}
    (member : version ∈ stored.versions.map Version.id) : version ∈ history.versionIds := by
  obtain ⟨first, document, later, versions, inserted, follows⟩ := log
  obtain ⟨diffs, within, _, rfl, _⟩ := follows.exists_diffs
  rw [versions, List.map_cons, List.mem_cons, List.map_map] at member
  rcases member with rfl | member
  · exact List.mem_append_left _ (List.mem_map.2 ⟨_, inserted, rfl⟩)
  · obtain ⟨diff, diffMember, rfl⟩ := List.mem_map.1 member
    exact List.mem_append_right _ (List.mem_map_of_mem (within diffMember))

/-- No two diffs are against one version, none is against the latest version of an entity, and no
log repeats a version. -/
structure Linear (history : History) (server : Server) : Prop where
  nodup : (history.diffs.map VersionDiff.prevVersionId).Nodup
  latest : ∀ key stored, server.stored? key = some stored →
    stored.versionId ∉ history.diffs.map VersionDiff.prevVersionId
  logs : ∀ key stored, server.stored? key = some stored →
    (stored.versions.map Version.id).Nodup

theorem Held.mem_versionIds {history : History} {key : EntityKey} {version : String}
    {document : Document} (held : history.Held key version document) :
    version ∈ history.versionIds := by
  cases held with
  | inserted member => exact List.mem_append_left _ (List.mem_map.2 ⟨_, member, rfl⟩)
  | logged member _ _ => exact List.mem_append_right _ (List.mem_map_of_mem member)

theorem Accounts.mem_versionIds_of_prev {history : History} {server : Server} {version : String}
    (accounts : history.Accounts server)
    (member : version ∈ history.diffs.map VersionDiff.prevVersionId) :
    version ∈ history.versionIds := by
  obtain ⟨diff, diffMember, rfl⟩ := List.mem_map.1 member
  obtain ⟨_, _, held, _⟩ := accounts.applied diff diffMember
  exact held.mem_versionIds

theorem Linear.of_stored {history : History} {server next : Server}
    (linear : history.Linear server)
    (stored : ∀ key stored, next.stored? key = some stored → server.stored? key = some stored) :
    history.Linear next where
  nodup := linear.nodup
  latest key entity found := linear.latest key entity (stored key entity found)
  logs key entity found := linear.logs key entity (stored key entity found)

theorem Linear.insert {history : History} {server next : Server} {entityName id version : String}
    {entity : Document} (accounts : history.Accounts server) (linear : history.Linear server)
    (inserted : server.insert entityName entity = .ok (version, next)) :
    (history.withInserted ⟨entityName, id⟩ version entity).Linear next := by
  obtain ⟨_, _, _, versionEq, nextEq⟩ := Server.insert_eq_ok inserted
  have fresh : version ∉ history.versionIds := versionEq ▸ accounts.fresh (Nat.le_refl _)
  refine ⟨linear.nodup, fun key stored found => ?_, fun key stored found => ?_⟩ <;>
    rw [nextEq, Server.stored?_insert] at found <;> split at found
  · cases found
    exact fun member => fresh (accounts.mem_versionIds_of_prev member)
  · exact linear.latest key stored found
  · cases found
    exact List.nodup_singleton _
  · exact linear.logs key stored found

/-- The diffs of a push begin at the latest version, and go on to versions that are new. -/
theorem Linear.push {history : History} {server next : Server} {request : PushRequest}
    {command : PushCommand} {diffs : List VersionDiff} (accounts : history.Accounts server)
    (linear : history.Linear server)
    (timeless : ∀ operation ∈ request.operations, operation.Timeless)
    (pushed : server.push request = .ok (command, diffs, next)) :
    (history.logged diffs).Linear next := by
  obtain ⟨_, stored, _, _, _, _, found, _⟩ := Server.push_eq_ok pushed
  have log := accounts.logs _ _ found
  have held := accounts.held_current found
  have accepts := Server.accepts_of_push log found pushed
  obtain ⟨current, _, storedNext⟩ := accepts.logged
  have latest := accepts.latest
  rw [Server.version?, storedNext, if_pos rfl, Option.map_some, Option.some.injEq] at latest
  obtain ⟨_, newNodup, apart⟩ := List.nodup_append.1
    (versionIds_logged history diffs ▸ (accounts.push timeless pushed).nodup)
  have chainNodup : (diffs.map VersionDiff.prevVersionId ++ [command.versionId]).Nodup := by
    rw [accepts.chained.versionIds]
    exact List.nodup_cons.2 ⟨fun member => apart _ held.mem_versionIds _ member rfl, newNodup⟩
  obtain ⟨prevsNodup, _, lastApart⟩ := List.nodup_append.1 chainNodup
  have inChain : ∀ version ∈ diffs.map VersionDiff.prevVersionId ++ [command.versionId],
      version ∈ stored.versionId :: diffs.map VersionDiff.versionId := by
    intro version member
    rwa [accepts.chained.versionIds] at member
  -- whatever is in the chain is not against an older version
  have chainApart : ∀ version ∈ stored.versionId :: diffs.map VersionDiff.versionId,
      version ∉ history.diffs.map VersionDiff.prevVersionId := by
    intro version member old
    rcases List.mem_cons.1 member with rfl | new
    · exact linear.latest _ _ found old
    · exact apart _ (accounts.mem_versionIds_of_prev old) _ new rfl
  refine ⟨?nodup, ?latest, ?logs⟩
  case nodup =>
    rw [History.logged, List.map_append, List.nodup_append]
    refine ⟨linear.nodup, prevsNodup, ?_⟩
    rintro old oldMember new newMember rfl
    exact chainApart _ (inChain _ (List.mem_append_left _ newMember)) oldMember
  case latest =>
    intro key other otherFound
    rw [History.logged, List.map_append, List.mem_append]
    rw [storedNext] at otherFound
    split at otherFound
    next =>
      cases otherFound
      rw [latest]
      rintro (old | new)
      · exact chainApart _ (inChain _ (List.mem_append_right _ List.mem_cons_self)) old
      · exact lastApart _ new _ List.mem_cons_self rfl
    next differ =>
      rintro (old | new)
      · exact linear.latest key other otherFound old
      · have otherHeld := accounts.held_current otherFound
        rcases List.mem_cons.1 (inChain _ (List.mem_append_left _ new)) with same | isNew
        · exact differ (otherHeld.unique accounts.nodup (same ▸ held)).1
        · exact apart _ otherHeld.mem_versionIds _ isNew rfl
  case logs =>
    intro key other otherFound
    rw [storedNext] at otherFound
    split at otherFound
    next =>
      cases otherFound
      rw [List.map_append, List.map_map]
      exact List.nodup_append.2 ⟨linear.logs _ _ found, newNodup, fun old oldMember =>
        apart old (log.mem_versionIds oldMember)⟩
    · exact linear.logs key other otherFound

/-- In every run the diffs of each entity follow one another. -/
theorem linear_of_served {history : History} {server : Server}
    (served : Server.Served history server) : history.Linear server := by
  induction served with
  | start =>
      exact ⟨List.nodup_nil, (by rintro key stored ⟨⟩), (by rintro key stored ⟨⟩)⟩
  | step served happens ih =>
      have accounts := accounts_of_served served
      rcases happens.effect with ⟨_, _, _, _, inserted, _, rfl⟩ |
        ⟨_, _, _, timeless, pushed, rfl⟩ | ⟨rfl, stored, _, _⟩
      · exact ih.insert accounts inserted
      · exact ih.push accounts timeless pushed
      · exact ih.of_stored stored

end History

namespace Server

open History

/-- The log tells how the entity came to be what it is: it begins with the version of the insertion,
and each later version has an operation. -/
structure LogReplays (stored : StoredEntity) (first : String) (inserted : Document) : Prop where
  versions : ∃ later, stored.versions = ⟨first, none⟩ :: later ∧
    ∀ version ∈ later, version.operation.isSome = true
  current : ∀ now, Update.applyAll now inserted (stored.versions.filterMap Version.operation) =
    .ok stored.current

/-- What a pull from a version of the log answers.  The document at the version is the inserted one
after the operations up to there. -/
def PullsFrom (server : Server) (key : EntityKey) (stored : StoredEntity) (inserted : Document)
    (before : List Version) (version : Version) (behind : List Version) : Prop :=
  ∃ document,
    (∀ now, Update.applyAll now inserted ((before ++ [version]).filterMap Version.operation) =
      .ok document) ∧
    (∀ now, Update.applyAll now document (behind.filterMap Version.operation) =
      .ok stored.current) ∧
    server.pull key version.id =
      if server.isReachable then
        .ok ⟨key.entityName, key.id, stored.versionId, behind.filterMap Version.operation⟩
      else .error (.network "server unreachable")

theorem logReplays_of_follows {history : History} {key : EntityKey} {stored : StoredEntity}
    {first : String} {inserted : Document} {later : List Version}
    (versions : stored.versions = ⟨first, none⟩ :: later)
    (follows : history.Follows key first inserted later stored.current) :
    LogReplays stored first inserted where
  versions := by
    obtain ⟨diffs, _, _, rfl, _⟩ := follows.exists_diffs
    refine ⟨_, versions, fun version member => ?_⟩
    obtain ⟨diff, _, rfl⟩ := List.mem_map.1 member
    rfl
  current now := by
    rw [versions, List.filterMap_cons_none rfl]
    exact follows.applyAll now

theorem pullsFrom_of_follows {history : History} {server : Server} {key : EntityKey}
    {stored : StoredEntity} {first : String} {inserted : Document}
    {before later behind : List Version} {version : Version}
    (found : server.stored? key = some stored)
    (nodup : (stored.versions.map Version.id).Nodup)
    (versions : stored.versions = ⟨first, none⟩ :: later)
    (follows : history.Follows key first inserted later stored.current)
    (split : stored.versions = before ++ version :: behind) :
    server.PullsFrom key stored inserted before version behind := by
  have answers : server.pull key version.id =
      if server.isReachable then
        .ok ⟨key.entityName, key.id, stored.versionId, behind.filterMap Version.operation⟩
      else .error (.network "server unreachable") := by
    have known : server.stored key = .ok stored := by rw [Server.stored, found]
    have since : stored.operationsSince version.id = .ok (behind.filterMap Version.operation) := by
      rw [StoredEntity.operationsSince, split,
        StoredEntity.versionsAfter?_of_nodup (split ▸ nodup)]
    unfold pull ensureReachable
    split <;> simp [known, since, bind, Except.bind, pure, Except.pure]
  rw [versions] at split
  rcases before with _ | ⟨_, before⟩
  · cases split
    exact ⟨inserted, fun _ => rfl, follows.applyAll, answers⟩
  · rw [List.cons_append] at split
    obtain ⟨rfl, rfl⟩ := List.cons.inj split
    rw [List.append_cons] at follows
    obtain ⟨document, upTo, after⟩ := follows.split
    refine ⟨document, fun now => ?_, after.applyAll, answers⟩
    rw [List.cons_append, List.filterMap_cons_none rfl]
    exact upTo.applyAll now

/-- The log of a stored entity is its history.  The inserted document with the logged operations
is the current one; a pull from any version of the log leads from the document at this version to
the current one; an accepted push is answered by what was logged since its version, and is logged
and broadcast as it is; a rejected push does nothing. -/
theorem log_is_history {history : History} {server : Server} (served : Served history server)
    {key : EntityKey} {stored : StoredEntity} (found : server.stored? key = some stored) :
    ∃ first inserted, (key, first, inserted) ∈ history.inserted ∧
      LogReplays stored first inserted ∧
      (∀ before version behind, stored.versions = before ++ version :: behind →
        server.PullsFrom key stored inserted before version behind) ∧
      (∀ request command diffs next, request.key = key →
        server.answer (.push request) = (.ok command, diffs, next) →
        server.Accepts key stored request command diffs next) ∧
      ∀ request error diffs next, server.answer (.push request) = (.error error, diffs, next) →
        diffs = [] ∧ next = server := by
  obtain ⟨first, inserted, later, versions, member, follows⟩ :=
    (accounts_of_served served).logs key stored found
  have nodup := (linear_of_served served).logs key stored found
  refine ⟨first, inserted, member, logReplays_of_follows versions follows,
    fun before version behind split => pullsFrom_of_follows found nodup versions follows split,
    ?_, ?_⟩
  · rintro request command diffs next rfl answered
    obtain ⟨_, same, pushed⟩ | ⟨_, failed, _⟩ := settle_eq answered
    · cases same
      exact accepts_of_push ⟨first, inserted, later, versions, member, follows⟩ found pushed
    · cases failed
  · intro request error diffs next answered
    obtain ⟨_, succeeded, _⟩ | ⟨_, _, _, none, same⟩ := settle_eq answered
    · cases succeeded
    · exact ⟨none, same⟩

/-- A note. -/
def note : Document :=
  .object [("id", .string "a"), ("n", .int 0)]

/-- A server with the note. -/
def noted : Server :=
  { Server.empty with
    entities := Keyed.empty.insert (⟨"note", "a"⟩, ⟨note, [⟨IdSource.identifier 0 0, none⟩]⟩)
    ids := ⟨0, 1⟩ }

/-- Edits of the note by a client that has seen the first version. -/
def noteEdits (values : List Int64) : PushRequest :=
  ⟨"note", "a", some (IdSource.identifier 0 0),
    values.map fun value => Update.empty.set ⟨["n"]⟩ (.int value)⟩

theorem timeless_noteEdits (values : List Int64) : (Request.push (noteEdits values)).Timeless := by
  intro operation member
  obtain ⟨value, _, rfl⟩ := List.mem_map.1 member
  exact Update.timeless_set _ _

/-- One client edits the note twice. -/
def edited : List VersionDiff × Server :=
  (noted.answer (.push (noteEdits [1, 2]))).2

/-- Another one edits it once, and has not seen that. -/
def crowded : List VersionDiff × Server :=
  (edited.2.answer (.push (noteEdits [3]))).2

/-- What the server has issued then. -/
def issued : History :=
  ((History.empty.withInserted ⟨"note", "a"⟩ (IdSource.identifier 0 0) note).logged
    edited.1).logged crowded.1

theorem served_crowded : Served issued crowded.2 :=
  .step (.step (.step .start (@Step.insert .empty .empty noted "note" "a"
      (IdSource.identifier 0 0) note rfl rfl))
    (.answer (timeless_noteEdits [1, 2]) rfl)) (.answer (timeless_noteEdits [3]) rfl)

theorem stored_crowded : (crowded.2.stored? ⟨"note", "a"⟩).isSome = true := by
  decide +kernel

theorem log_of_crowded : ∃ stored, crowded.2.stored? ⟨"note", "a"⟩ = some stored ∧
    ∃ first inserted, LogReplays stored first inserted ∧
      ∀ before version behind, stored.versions = before ++ version :: behind →
        crowded.2.PullsFrom ⟨"note", "a"⟩ stored inserted before version behind := by
  obtain ⟨stored, found⟩ := Option.isSome_iff_exists.1 stored_crowded
  obtain ⟨first, inserted, _, replays, pulls, _⟩ := log_is_history served_crowded found
  exact ⟨stored, found, first, inserted, replays, pulls⟩

end Server

end LocalFirst
