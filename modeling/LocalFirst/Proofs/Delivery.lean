import LocalFirst.Proofs.QuietParts
import LocalFirst.Proofs.ReachedState
import LocalFirst.Proofs.ServerLog

/-!
# Diffs apply once, however they are delivered

A client takes a diff when it is against the stored version, and ignores it otherwise.  As no two
diffs of a server are against one version, and none is against the latest, this single test keeps
the client on the log: it takes the next diff of the log whenever that comes, and nothing else.
What remains of the log is therefore always among what is still to be delivered.
-/

namespace LocalFirst

/-- The diffs of the versions behind one, each against the version before it. -/
def diffsBehind (key : EntityKey) (version : String) : List Version → List VersionDiff
  | [] => []
  | ⟨_, none⟩ :: later => diffsBehind key version later
  | ⟨next, some operation⟩ :: later =>
      ⟨key.entityName, key.id, next, version, operation⟩ :: diffsBehind key next later

/-- The first of the diffs is against the version itself. -/
theorem prevVersionId_of_diffsBehind {key : EntityKey} {version : String} {later : List Version}
    {diff : VersionDiff} {rest : List VersionDiff}
    (behind : diffsBehind key version later = diff :: rest) : diff.prevVersionId = version := by
  induction later with
  | nil => cases behind
  | cons next later ih =>
      obtain ⟨next, operation⟩ := next
      cases operation with
      | none => exact ih behind
      | some operation =>
          cases behind
          rfl

namespace Client

variable {client : Client} {diff : VersionDiff} {info : EntityInfo}

theorem run_applyVersionDiff_eq (known : client.state.find? diff.entityName diff.id = some info) :
    client.run (applyVersionDiff diff) =
      if info.versionId = some diff.prevVersionId then
        client.run (dispatch (.patch diff) >>= fun _ => pure true)
      else (.ok false, client) := by
  have followed : client.state.hasEntity diff.entityName diff.id = true := by
    rw [LocalState.hasEntity, known]
    rfl
  have staleness : client.state.isStale diff =
      .ok (info.versionId != some diff.prevVersionId) := by
    rw [LocalState.isStale, LocalState.entityInfo_of_find? known]
    rfl
  have begins : client.run (applyVersionDiff diff) = client.run (snapshot >>= fun state =>
      if !state.hasEntity diff.entityName diff.id then pure false else _) := rfl
  by_cases fresh : info.versionId = some diff.prevVersionId
  · have notStale : (info.versionId != some diff.prevVersionId) = false := by simp [fresh]
    rw [notStale] at staleness
    simp [begins, run_bind, snapshot, run_get, followed, staleness, fresh]
  · have stale : (info.versionId != some diff.prevVersionId) = true := by simpa using fresh
    rw [stale] at staleness
    simp [begins, run_bind, snapshot, run_get, followed, staleness, fresh]

/-- A diff against the stored version moves an entity without commits on. -/
theorem run_applyVersionDiff_next {origin result : Document}
    (orderly : client.state.Orderly)
    (known : client.state.find? diff.entityName diff.id =
      some (.clean origin (some diff.prevVersionId)))
    (applied : diff.operation.apply client.clock origin = .ok result) :
    ∃ after, client.run (applyVersionDiff diff) = (.ok true, after) ∧ after.state.Orderly ∧
      after.state.find? diff.entityName diff.id = some (.clean result (some diff.versionId)) := by
  obtain ⟨next, reduced, nextOrderly, nowKnown⟩ := orderly.exists_patch known applied
  obtain ⟨after, ran, rfl, _⟩ := run_dispatch_ok reduced
  refine ⟨after, ?_, nextOrderly, nowKnown⟩
  rw [run_applyVersionDiff_eq known, if_pos (by rfl), run_bind_ok ran, run_pure]

/-- The rest of the log is taken, and nothing else. -/
theorem pumpDiffs_of_follows {history : History} {server : Server} {key : EntityKey}
    {stored : StoredEntity} {version : String} {origin : Document} {later : List Version}
    {diffs : List VersionDiff} (linear : history.Linear server)
    (found : server.stored? key = some stored) (orderly : client.state.Orderly)
    (known : client.state.find? key.entityName key.id = some (.clean origin (some version)))
    (follows : history.Follows key version origin later stored.current)
    (last : History.lastOf version later = stored.versionId)
    (broadcast : ∀ diff ∈ diffs, diff ∈ history.diffs ∧ diff.key = key)
    (contains : (diffsBehind key version later).Sublist diffs) (count : Nat) :
    ∃ after, client.pumpDiffs count diffs = (.ok (count + later.length), after, []) ∧
      after.state.find? key.entityName key.id =
        some (.clean stored.current (some stored.versionId)) := by
  induction diffs generalizing client version origin later count with
  | nil =>
      cases follows with
      | done => exact ⟨client, rfl, last ▸ known⟩
      | step _ sameKey _ _ => cases List.sublist_nil.1 contains
  | cons diff rest ih =>
      obtain ⟨⟨member, sameKey⟩, restBroadcast⟩ := List.forall_mem_cons.1 broadcast
      have knownHere : client.state.find? diff.entityName diff.id =
          some (.clean origin (some version)) := by
        rw [← sameKey] at known
        exact known
      by_cases next : diff.prevVersionId = version
      · cases follows with
        | done =>
            -- no diff is against the latest version
            have latest := linear.latest key stored found
            rw [← last, History.lastOf, ← next] at latest
            exact absurd (List.mem_map_of_mem member) latest
        | step dueMember dueKey applied follows =>
            -- the diff of the log is the only one against its version
            obtain rfl := List.inj_on_of_nodup_map linear.nodup member dueMember next
            obtain ⟨after, ran, afterOrderly, afterKnown⟩ :=
              run_applyVersionDiff_next orderly knownHere (applied client.clock)
            subst sameKey
            obtain ⟨final, pumped, finalKnown⟩ := ih afterOrderly afterKnown follows last
              restBroadcast (List.cons_sublist_cons.1 contains) (count + 1)
            refine ⟨final, ?_, finalKnown⟩
            rw [pumpDiffs, ran, List.length_cons, ← Nat.add_assoc, Nat.add_right_comm count _ 1]
            exact pumped
      · have stale : (EntityInfo.clean origin (some version)).versionId ≠
            some diff.prevVersionId := fun same => next (Option.some.inj same).symm
        have ignored : client.run (applyVersionDiff diff) = (.ok false, client) := by
          rw [run_applyVersionDiff_eq knownHere, if_neg stale]
        have stillContains : (diffsBehind key version later).Sublist rest := by
          rcases List.sublist_cons_iff.1 contains with within | ⟨_, behind, _⟩
          · exact within
          · exact absurd (prevVersionId_of_diffsBehind behind) next
        obtain ⟨final, pumped, finalKnown⟩ :=
          ih orderly known follows last restBroadcast stillContains count
        refine ⟨final, ?_, finalKnown⟩
        rw [pumpDiffs, ignored]
        exact pumped

/-- A client follows an entity without pending commits, at a version of the log of the server.
Whatever diffs of the entity are delivered to it, in whatever order and how often, as long as those
behind its version are among them in the order of the log: each of these is taken once and all
others are ignored, none fails, and in the end the client has what the server has. -/
theorem pumpDiffs_exactly_once {history : History} {server : Server}
    (served : Server.Served history server) {key : EntityKey} {stored : StoredEntity}
    (found : server.stored? key = some stored) {before behind : List Version} {version : Version}
    (split : stored.versions = before ++ version :: behind)
    {start : Instant} {config : ClientConfig} {store : Store}
    (opened : Store.ofConfig start config = .ok store) {steps : List (Instant × Action)}
    (incremental : ∀ step ∈ steps, step.2.Incremental) {client : Client}
    (reached : client.state = (store.afterAll steps).state) {info : EntityInfo}
    (followed : client.state.find? key.entityName key.id = some info)
    (clean : info.commits = []) (versionEq : info.versionId = some version.id)
    (held : history.Held key version.id info.origin) {diffs : List VersionDiff}
    (broadcast : ∀ diff ∈ diffs, diff ∈ history.diffs ∧ diff.key = key)
    (contains : (diffsBehind key version.id behind).Sublist diffs) :
    ∃ after now, client.pumpDiffs 0 diffs = (.ok behind.length, after, []) ∧
      after.state.find? key.entityName key.id = some now ∧
      now.versionId = server.version? key ∧ some now.origin = server.entity? key ∧
      some now.current = server.entity? key := by
  have accounts := History.accounts_of_served served
  have linear := History.linear_of_served served
  have orderly : client.state.Orderly := by
    rw [reached]
    exact Store.orderly_afterAll (Store.orderly_ofConfig opened) incremental
  have known : client.state.find? key.entityName key.id =
      some (.clean info.origin (some version.id)) := by
    rw [followed, EntityInfo.clean, ← versionEq, ← clean,
      ← orderly.heads _ _ info followed clean]
  obtain ⟨first, inserted, later, versions, member, follows⟩ := accounts.logs key stored found
  have after? : StoredEntity.versionsAfter? version.id (⟨first, none⟩ :: later) = some behind := by
    rw [← versions, split]
    exact StoredEntity.versionsAfter?_of_nodup (split ▸ linear.logs key stored found)
  obtain ⟨origin, originHeld, rest, last⟩ := follows.after (.inserted member) after?
  obtain ⟨_, rfl⟩ := held.unique accounts.nodup originHeld
  rw [← History.versionId_of_versions versions] at last
  obtain ⟨after, pumped, afterKnown⟩ :=
    pumpDiffs_of_follows linear found orderly known rest last broadcast contains 0
  rw [Nat.zero_add] at pumped
  refine ⟨after, _, pumped, afterKnown, ?_, ?_, ?_⟩
  · rw [Server.version?, found]
    rfl
  · rw [Server.entity?, found]
    rfl
  · rw [Server.entity?, found]
    rfl

open Server

/-- A client has fetched the note before it was edited. -/
def noteFollower : Client :=
  .ofStore (Store.afterAll (.ofState .empty 100)
    [(default, .follow "note" note (some (IdSource.identifier 0 0)))]) {} ⟨1, 0⟩ default

/-- Each diff arrives three times, and the last ones arrive first. -/
def scrambled : List VersionDiff :=
  issued.diffs.reverse ++ issued.diffs ++ issued.diffs

theorem pumpDiffs_scrambled : ∃ after now, noteFollower.pumpDiffs 0 scrambled = (.ok 3, after, []) ∧
    after.state.find? "note" "a" = some now ∧
    now.versionId = crowded.2.version? ⟨"note", "a"⟩ ∧
    some now.origin = crowded.2.entity? ⟨"note", "a"⟩ ∧
    some now.current = crowded.2.entity? ⟨"note", "a"⟩ := by
  let stored := (crowded.2.stored? ⟨"note", "a"⟩).get stored_crowded
  have found : crowded.2.stored? ⟨"note", "a"⟩ = some stored :=
    (Option.some_get stored_crowded).symm
  have split : stored.versions =
      [] ++ ⟨IdSource.identifier 0 0, none⟩ :: stored.versions.tail := rfl
  have opened : Store.ofConfig default {} = .ok (.ofState .empty 100) := rfl
  have incremental : ∀ step ∈ [((default : Instant),
      Action.follow "note" note (some (IdSource.identifier 0 0)))], step.2.Incremental := by
    rintro step (_ | ⟨_, ⟨⟩⟩)
    exact trivial
  have held : issued.Held ⟨"note", "a"⟩ (IdSource.identifier 0 0) note := .inserted (by
    exact List.mem_singleton.2 rfl)
  have broadcast : ∀ diff ∈ scrambled, diff ∈ issued.diffs ∧ diff.key = ⟨"note", "a"⟩ := by
    have keys : issued.diffs.map VersionDiff.key = List.replicate 3 ⟨"note", "a"⟩ := rfl
    intro diff member
    have inDiffs : diff ∈ issued.diffs := by simpa [scrambled] using member
    have isKey := List.mem_map_of_mem (f := VersionDiff.key) inDiffs
    rw [keys] at isKey
    exact ⟨inDiffs, List.eq_of_mem_replicate isKey⟩
  have contains : (diffsBehind ⟨"note", "a"⟩ (IdSource.identifier 0 0)
      stored.versions.tail).Sublist scrambled :=
    List.sublist_append_right (issued.diffs.reverse ++ issued.diffs) issued.diffs
  have followed : noteFollower.state.find? "note" "a" =
      some (.clean note (some (IdSource.identifier 0 0))) := rfl
  exact pumpDiffs_exactly_once served_crowded found split opened incremental rfl followed rfl rfl
    held broadcast contains

end Client

end LocalFirst
