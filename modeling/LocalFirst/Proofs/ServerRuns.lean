import LocalFirst.Proofs.ServerRequests

/-!
# The history of a run

A step of a server inserts an entity or answers a request.  Each step extends the history, and what
it does to the stored entities is one of few things: one is inserted, one logs a push, one is
deleted, or nothing changes.
-/

namespace LocalFirst

namespace Server

open History

/-- What may happen at a server, and how its history grows. -/
inductive Step : History → Server → History → Server → Prop
  | insert {history : History} {server next : Server} {entityName id version : String}
      {entity : Document} (inserted : server.insert entityName entity = .ok (version, next))
      (named : (entity.get? "id").bind Document.string? = some id) :
      Step history server (history.withInserted ⟨entityName, id⟩ version entity) next
  | answer {history : History} {server next : Server} {request : Request}
      {response : request.Response} {diffs : List VersionDiff} (timeless : request.Timeless)
      (answered : server.answer request = (response, diffs, next)) :
      Step history server (history.logged diffs) next
  | adjust {history : History} {server next : Server}
      (sameEntities : next.entities = server.entities) (sameIds : next.ids = server.ids) :
      Step history server history next

/-- The history of a server that starts without entities. -/
inductive Served : History → Server → Prop
  | start : Served .empty .empty
  | step {history longer : History} {server next : Server} (served : Served history server)
      (happens : Step history server longer next) : Served longer next

theorem Step.extends {history longer : History} {server next : Server}
    (happens : Step history server longer next) : history.Extends longer := by
  cases happens with
  | insert => exact extends_withInserted _ _ _ _
  | answer => exact extends_logged _ _
  | adjust => exact .refl _

theorem stored?_insert (server : Server) (key other : EntityKey) (stored : StoredEntity)
    (ids : IdSource) :
    stored? { server with entities := server.entities.insert (key, stored), ids := ids } other =
      if other = key then some stored else server.stored? other := by
  unfold stored?
  split
  next same =>
    subst same
    have found : Keyed.find? other (server.entities.insert (other, stored)) =
        some (other, stored) := Keyed.find?_insert_self (other, stored) server.entities
    simp [found]
  next differ =>
    have keysDiffer : compare (key, stored).1 other ≠ .eq := by
      simpa [Std.LawfulEqCmp.compare_eq_iff_eq] using Ne.symm differ
    simp [Keyed.find?_insert_of_ne keysDiffer]

theorem length_logOperations (key : EntityKey) (previous : String) (ids : IdSource)
    (operations : List Update) :
    (logOperations key previous ids operations).1.length = operations.length := by
  induction operations generalizing previous ids with
  | nil => rfl
  | cons operation rest ih => simp only [logOperations_cons, List.length_cons, ih]

/-- A push that succeeds appends its operations to the log of its entity, and touches no other
entity. -/
theorem logged_of_push {server next : Server} {request : PushRequest} {command : PushCommand}
    {diffs : List VersionDiff} (pushed : server.push request = .ok (command, diffs, next)) :
    ∃ before current versions, server.stored? request.key = some before ∧
      (∀ other, next.stored? other = if other = request.key then
        some ⟨current, before.versions ++ versions⟩ else server.stored? other) ∧
      versions.length = request.operations.length ∧
      versions.filterMap Version.operation = request.operations ∧
      diffs.map VersionDiff.operation = request.operations ∧
      ∀ diff ∈ diffs, diff.key = request.key := by
  obtain ⟨version, stored, _, current, versions, _, found, _, _, logged, _, nextEq⟩ :=
    push_eq_ok pushed
  have versionsEq := congrArg Prod.fst logged
  have diffsEq := congrArg (fun logged => logged.2.1) logged
  simp only at versionsEq diffsEq
  obtain ⟨versionOperations, diffOperations⟩ :=
    operations_logOperations request.key stored.versionId server.ids request.operations
  refine ⟨stored, current, versions, found, fun other => ?_, ?_, ?_, ?_, ?_⟩
  · rw [nextEq, stored?_insert]
    rfl
  · rw [versionsEq, length_logOperations]
  · exact versionsEq ▸ versionOperations
  · exact diffsEq ▸ diffOperations
  · exact diffsEq ▸ key_of_mem_logOperations

/-- The answer to a push is that of the push, or an error without any effect. -/
theorem answer_push_eq (server : Server) (request : PushRequest) :
    (∃ command diffs next, server.push request = .ok (command, diffs, next) ∧
      server.answer (.push request) = (.ok command, diffs, next)) ∨
    ∃ error, server.answer (.push request) = (.error error, [], server) := by
  simp only [answer, settle]
  rcases server.push request with error | ⟨command, diffs, next⟩
  · exact .inr ⟨error, rfl⟩
  · exact .inl ⟨command, diffs, next, rfl, rfl⟩

theorem stored?_erase_of_some {server : Server} {key other : EntityKey} {stored : StoredEntity}
    (found : stored? { server with entities := server.entities.erase key } other =
      some stored) : server.stored? other = some stored := by
  unfold stored? at found ⊢
  rw [Option.map_eq_some_iff] at found ⊢
  obtain ⟨entry, entryFound, rfl⟩ := found
  have keyEq : entry.1 = other := by
    have := List.find?_some entryFound
    simpa [Std.LawfulEqCmp.compare_eq_iff_eq] using this
  subst keyEq
  refine ⟨entry, ?_, rfl⟩
  rw [Keyed.find?_eq_some_iff_mem] at entryFound ⊢
  exact List.mem_of_mem_filter entryFound

/-- The outcome of a request that may change the server. -/
theorem settle_eq {α : Type} {server next : Server}
    {outcome : Except RemoteError (α × List VersionDiff × Server)}
    {response : Except RemoteError α} {diffs : List VersionDiff}
    (settled : server.settle outcome = (response, diffs, next)) :
    (∃ answer, response = .ok answer ∧ outcome = .ok (answer, diffs, next)) ∨
      (∃ error, response = .error error ∧ outcome = .error error ∧ diffs = [] ∧ next = server) := by
  unfold settle at settled
  split at settled
  next answer diffs next =>
    cases settled
    exact .inl ⟨answer, rfl, rfl⟩
  next error =>
    cases settled
    exact .inr ⟨error, rfl, rfl, rfl, rfl⟩

/-- A step inserts an entity, or accepts a push.  All others leave the history as it is, and forget
entities at most. -/
theorem Step.effect {history longer : History} {server next : Server}
    (happens : Step history server longer next) :
    (∃ entityName id version entity, server.insert entityName entity = .ok (version, next) ∧
      (entity.get? "id").bind Document.string? = some id ∧
      longer = history.withInserted ⟨entityName, id⟩ version entity) ∨
    (∃ request command diffs, (∀ operation ∈ request.operations, operation.Timeless) ∧
      server.push request = .ok (command, diffs, next) ∧ longer = history.logged diffs) ∨
    (longer = history ∧
      (∀ key stored, next.stored? key = some stored → server.stored? key = some stored) ∧
      next.ids.node = server.ids.node ∧ server.ids.issued ≤ next.ids.issued) := by
  have same_entities : ∀ {later : Server}, later.entities = server.entities →
      ∀ key stored, later.stored? key = some stored → server.stored? key = some stored := by
    intro later sameEntities key stored found
    rwa [stored?, sameEntities] at found
  have refused := @same_entities server rfl
  cases happens with
  | insert inserted named => exact .inl ⟨_, _, _, _, inserted, named, rfl⟩
  | adjust sameEntities sameIds =>
      exact .inr (.inr ⟨rfl, same_entities sameEntities, by rw [sameIds],
        Nat.le_of_eq (by rw [sameIds])⟩)
  | @answer _ request response diffs timeless answered =>
      cases request with
      | get | pull =>
          cases answered
          exact .inr (.inr ⟨logged_nil history, refused, rfl, Nat.le_refl _⟩)
      | push request =>
          obtain ⟨command, _, pushed⟩ | ⟨_, _, _, rfl, rfl⟩ := settle_eq answered
          · exact .inr (.inl ⟨request, command, diffs, timeless, pushed, rfl⟩)
          · exact .inr (.inr ⟨logged_nil history, refused, rfl, Nat.le_refl _⟩)
      | login command =>
          obtain ⟨_, _, loggedIn⟩ | ⟨_, _, _, rfl, rfl⟩ := settle_eq answered
          · rw [Except.map_eq_ok] at loggedIn
            obtain ⟨⟨response, later⟩, loggedIn, same⟩ := loggedIn
            obtain ⟨_, _, _, _, _, sameEntities, ids⟩ := login_eq_ok loggedIn
            cases same
            exact .inr (.inr ⟨logged_nil history, same_entities sameEntities, by rw [ids]; rfl,
              by rw [ids]; exact Nat.le_succ _⟩)
          · exact .inr (.inr ⟨logged_nil history, refused, rfl, Nat.le_refl _⟩)
      | logout sessionId =>
          obtain ⟨_, _, loggedOut⟩ | ⟨_, _, _, rfl, rfl⟩ := settle_eq answered
          · rw [Except.map_eq_ok] at loggedOut
            obtain ⟨later, loggedOut, same⟩ := loggedOut
            obtain ⟨sameEntities, ids⟩ := logout_eq_ok loggedOut
            cases same
            exact .inr (.inr ⟨logged_nil history, same_entities sameEntities, by rw [ids],
              Nat.le_of_eq (by rw [ids])⟩)
          · exact .inr (.inr ⟨logged_nil history, refused, rfl, Nat.le_refl _⟩)
      | delete key =>
          obtain ⟨_, _, deleted⟩ | ⟨_, _, _, rfl, rfl⟩ := settle_eq answered
          · rw [Except.map_eq_ok] at deleted
            obtain ⟨later, deleted, same⟩ := deleted
            have laterEq := delete_eq_ok deleted
            cases same
            subst laterEq
            exact .inr (.inr ⟨logged_nil history, fun _ _ => stored?_erase_of_some, rfl,
              Nat.le_refl _⟩)
          · exact .inr (.inr ⟨logged_nil history, refused, rfl, Nat.le_refl _⟩)

end Server

end LocalFirst
