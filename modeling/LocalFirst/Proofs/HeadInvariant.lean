import LocalFirst.Proofs.ActionEffects
import LocalFirst.Sync.Store

/-!
# The head is a replay

The head of an entity is stored beside the origin and the commits, and every
action that changes one of the three has to change the others with it.  The
invariant says that the head is what replaying the stored commits on the origin
gives.  It also holds that the commits are in stored form and do not read the
clock: only then is a replay of what is read back the same replay.
-/

namespace LocalFirst

namespace EntityInfo

/-- The head is the replay of the commits on the origin, at whatever time. -/
structure HeadReplays (info : EntityInfo) : Prop where
  origin : info.origin.IsObject
  stored : ∀ commit ∈ info.commits, commit.stored = .ok commit
  timeless : ∀ commit ∈ info.commits, commit.Timeless
  head : (info.commits = [] ∧ info.head = none) ∨
    (info.commits ≠ [] ∧ ∃ head, info.head = some head ∧
      ∀ now, Update.applyAll now info.origin info.commits = .ok head)

theorem headReplays_clean {origin : Document} (isObject : origin.IsObject)
    (versionId : Option String) : (clean origin versionId).HeadReplays :=
  ⟨isObject, by simp [clean], by simp [clean], .inl ⟨rfl, rfl⟩⟩

/-- What is read back has a head that replays, when the written head was computed from the
commits as they are read. -/
theorem headReplays_of_readFrom {now : Instant} {origin head : Document}
    {versionId : Option String} {written commits : List Update} {headField : Option Document}
    {known : Option EntityInfo} {info : EntityInfo} (isObject : origin.IsObject)
    (read : written.mapM Update.stored = .ok commits)
    (stored : ∀ commit ∈ commits, commit.stored = .ok commit)
    (timeless : ∀ commit ∈ commits, commit.Timeless)
    (headOk : LocalState.headOf now origin commits = .ok head)
    (headEq : headField.filter (fun head => !head.isNull) =
      (some head).filter (fun head => !head.isNull))
    (reads : ReadFrom (some (toDocument ⟨origin, versionId, written, headField⟩)) known)
    (found : known = some info) : info.HeadReplays := by
  obtain ⟨commits', read', known'⟩ := LocalState.readFrom_toDocument reads
  obtain rfl : commits = commits' := Except.ok.inj (read.symm.trans read')
  obtain rfl := Option.some.inj (found.symm.trans known')
  refine ⟨isObject, stored, timeless, ?_⟩
  simp only [headEq, Option.filter_some]
  unfold LocalState.headOf at headOk
  cases commits with
  | nil =>
      cases headOk
      exact .inl ⟨rfl, rfl⟩
  | cons commit rest =>
      simp only [List.isEmpty_cons, Bool.false_eq_true, if_false, Except.mapError_eq_ok] at headOk
      have headObject := Update.isObject_of_applyAll isObject headOk
      refine .inr ⟨by simp, head, by simp [headObject.isNull], fun later => ?_⟩
      rw [Update.applyAll_eq_of_timeless timeless later now, headOk]

/-- Stored commits stay as they are when they are read back. -/
theorem HeadReplays.of_readFrom {now : Instant} {info next : EntityInfo} {origin head : Document}
    {versionId : Option String} {commits : List Update} {headField : Option Document}
    {known : Option EntityInfo} (replays : info.HeadReplays) (isObject : origin.IsObject)
    (within : ∀ commit ∈ commits, commit ∈ info.commits)
    (headOk : LocalState.headOf now origin commits = .ok head)
    (headEq : headField.filter (fun head => !head.isNull) =
      (some head).filter (fun head => !head.isNull))
    (reads : ReadFrom (some (toDocument ⟨origin, versionId, commits, headField⟩)) known)
    (found : known = some next) : next.HeadReplays :=
  headReplays_of_readFrom isObject
    (Update.mapM_stored_eq_ok fun commit member => replays.stored commit (within commit member))
    (fun commit member => replays.stored commit (within commit member))
    (fun commit member => replays.timeless commit (within commit member)) headOk headEq reads found

theorem HeadReplays.head_eq_none_iff {info : EntityInfo} (replays : info.HeadReplays) :
    info.head = none ↔ info.commits = [] := by
  rcases replays.head with ⟨noCommits, noHead⟩ | ⟨nonempty, head, headEq, _⟩
  · simp [noCommits, noHead]
  · simp [nonempty, headEq]

/-- The commits lead from the origin to what is current, with a head or without one. -/
theorem HeadReplays.applyAll_commits {info : EntityInfo} (replays : info.HeadReplays)
    (now : Instant) : Update.applyAll now info.origin info.commits = .ok info.current := by
  rcases replays.head with ⟨noCommits, noHead⟩ | ⟨_, head, headEq, applied⟩
  · simp [noCommits, noHead, current, Update.applyAll]
  · simp [headEq, current, applied now]

theorem HeadReplays.headOf {info : EntityInfo} (replays : info.HeadReplays) (now : Instant) :
    ∃ head, LocalState.headOf now info.origin info.commits = .ok head ∧
      info.head.filter (fun head => !head.isNull) =
        (some head).filter (fun head => !head.isNull) := by
  rcases replays.head with ⟨noCommits, noHead⟩ | ⟨nonempty, head, headEq, applied⟩
  · exact ⟨.null, by simp [LocalState.headOf, noCommits], by rw [noHead]; rfl⟩
  · exact ⟨head, by simp [LocalState.headOf, nonempty, applied now], by rw [headEq]⟩

end EntityInfo

namespace LocalState

/-- Every followed entity has a head that replays. -/
def HeadsReplay (state : LocalState) : Prop :=
  ∀ entityName id info, state.find? entityName id = some info → info.HeadReplays

theorem HeadsReplay.of_concernsEntity {state next : LocalState} {entityName id : String}
    (replay : state.HeadsReplay) (concerns : ConcernsEntity state next entityName id)
    (entity : ∀ info, next.find? entityName id = some info → info.HeadReplays) :
    next.HeadsReplay := by
  intro other otherId info found
  by_cases here : other = entityName ∧ otherId = id
  · exact entity info (here.1 ▸ here.2 ▸ found)
  · exact replay other otherId info (concerns.others other otherId here ▸ found)

theorem HeadsReplay.of_entities {state next : LocalState} (replay : state.HeadsReplay)
    (same : next.entities = state.entities) : next.HeadsReplay := by
  intro entityName id info found
  refine replay entityName id info ?_
  rwa [find?, same] at found

end LocalState

/-- The action does not overwrite the state as a whole, commits nothing that reads the clock,
and synchronises from objects only. -/
def Action.Admissible : Action → Prop
  | .replace _ | .assign _ => False
  | .commit _ _ operation => operation.Timeless
  | .synchronizeFrom _ origin _ => origin.IsObject
  | _ => True

namespace LocalState

open EntityInfo

theorem HeadsReplay.commit {now : Instant} {state next : LocalState} {entityName id : String}
    {operation : Update} (replay : state.HeadsReplay) (timeless : operation.Timeless)
    (reduced : Action.reduce now state (.commit entityName id operation) = .ok next) :
    next.HeadsReplay := by
  obtain ⟨concerns, info, parsed, head, known, parsedOk, applied, reads⟩ := reduce_commit reduced
  have replays := replay entityName id info known
  have headOk : headOf now info.origin (info.commits ++ [parsed]) = .ok head := by
    have replayed : Update.applyAll now info.origin (info.commits ++ [parsed]) = .ok head := by
      rw [Update.applyAll_append, replays.applyAll_commits now]
      exact Except.bind_eq_ok.2 ⟨info.current, rfl, by simpa [Update.applyAll] using applied⟩
    simp [headOf, replayed]
  have read : (info.commits ++ [operation]).mapM Update.stored =
      .ok (info.commits ++ [parsed]) := by
    simp [Update.mapM_stored_eq_ok replays.stored, parsedOk]
  refine replay.of_concernsEntity concerns fun result found =>
    headReplays_of_readFrom replays.origin read ?_ ?_ headOk rfl reads found
  · simpa [or_imp, forall_and, Update.stored_of_stored parsedOk] using replays.stored
  · simpa [or_imp, forall_and, Update.timeless_of_stored timeless parsedOk] using replays.timeless

theorem HeadsReplay.synchronizeFrom {now : Instant} {state next : LocalState}
    {command : PushCommand} {origin : Document} {acknowledged : List Update}
    (replay : state.HeadsReplay) (isObject : origin.IsObject)
    (reduced : Action.reduce now state (.synchronizeFrom command origin acknowledged) =
      .ok next) : next.HeadsReplay := by
  obtain ⟨concerns, info, synced, head, known, applied, headOk, reads⟩ :=
    reduce_synchronizeFrom reduced
  refine replay.of_concernsEntity concerns fun result found =>
    (replay _ _ info known).of_readFrom (Update.isObject_of_applyAll isObject applied)
      (fun commit => List.mem_of_mem_drop) headOk ?_ reads found
  cases headNull : head.isNull <;> simp [Option.filter, headNull]

/-- One action keeps the invariant. -/
theorem HeadsReplay.reduce {now : Instant} {state next : LocalState} {action : Action}
    (replay : state.HeadsReplay) (admissible : action.Admissible)
    (reduced : action.reduce now state = .ok next) : next.HeadsReplay := by
  have cleanObject : ∀ {entity : Document} {id : String},
      (entity.get? "id").bind Document.string? = some id → entity.IsObject := by
    intro entity id idOk
    obtain ⟨_, found, _⟩ := Option.bind_eq_some_iff.1 idOk
    exact Document.isObject_of_get? found
  cases action
  case replace | assign => exact admissible.elim
  case reset =>
    cases reduced
    intro entityName id info found
    cases found
  case clear entityName =>
    intro other id info found
    obtain ⟨before, known, reads⟩ := known_of_reduce_clear reduced found
    have replays := replay other id before known
    obtain ⟨head, headOk, headEq⟩ := replays.headOf now
    exact replays.of_readFrom replays.origin (fun _ member => member) headOk headEq reads found
  case commit => exact replay.commit admissible reduced
  case revert =>
    obtain ⟨concerns, info, requests, head, known, _, headOk, reads⟩ := reduce_revert reduced
    have replays := replay _ _ info known
    have within := removeAll_sublist requests info.commits
    exact replay.of_concernsEntity concerns fun result found =>
      replays.of_readFrom replays.origin (fun _ member => within.subset member) headOk rfl
        reads found
  case follow =>
    obtain ⟨id, idOk, concerns, known⟩ := reduce_follow reduced
    refine replay.of_concernsEntity concerns fun result found => ?_
    obtain rfl := Option.some.inj (found.symm.trans known)
    exact headReplays_clean (cleanObject idOk) _
  case followAll =>
    intro other id info found
    rcases reduce_followAll reduced other id with same | ⟨entity, versionId, idOk, known⟩
    · exact replay other id info (same ▸ found)
    · obtain rfl := Option.some.inj (found.symm.trans known)
      exact headReplays_clean (cleanObject idOk) _
  case unfollow =>
    obtain ⟨concerns, unknown⟩ := reduce_unfollow reduced
    exact replay.of_concernsEntity concerns fun result found =>
      absurd (found.symm.trans unknown) (by simp)
  case setSession session user versionId =>
    rcases reduce_setSession reduced with
      same | ⟨entity, version, id, _, _, idOk, others, known⟩
    · exact replay.of_entities same
    · intro other otherId info found
      by_cases here : other = session.entityName ∧ otherId = id
      · obtain ⟨rfl, rfl⟩ := here
        obtain rfl := Option.some.inj (found.symm.trans known)
        exact headReplays_clean (cleanObject idOk) _
      · exact replay other otherId info (others other otherId here ▸ found)
  case patch =>
    obtain ⟨info, known, ⟨_, rfl⟩ | ⟨_, concerns, origin, head, applied, headOk, reads⟩⟩ :=
      reduce_patch reduced
    · exact replay
    · have replays := replay _ _ info known
      exact replay.of_concernsEntity concerns fun result found =>
        replays.of_readFrom (Update.isObject_of_apply replays.origin applied)
          (fun _ member => member) headOk rfl reads found
  case rebase =>
    obtain ⟨concerns, info, origin, head, known, applied, headOk, reads⟩ := reduce_rebase reduced
    have replays := replay _ _ info known
    exact replay.of_concernsEntity concerns fun result found =>
      replays.of_readFrom (Update.isObject_of_applyAll replays.origin applied)
        (fun _ member => member) headOk rfl reads found
  case synchronize =>
    obtain ⟨info, known, reducedFrom⟩ := reduce_synchronize reduced
    exact replay.synchronizeFrom (replay _ _ info known).origin reducedFrom
  case synchronizeFrom => exact replay.synchronizeFrom admissible reduced
  all_goals exact replay.of_entities (entities_of_reduce_beside (by exact trivial) reduced)

end LocalState

namespace Store

/-- An action that fails leaves the state as it was. -/
theorem state_dispatch (now : Instant) (store : Store) (action : Action) :
    (store.dispatch now action).2.state =
      match action.reduce now store.state with
      | .ok next => next
      | .error _ => store.state := by
  unfold dispatch
  split <;> simp_all

/-- Dispatch actions one after another, each at its own time. -/
def afterAll (store : Store) (steps : List (Instant × Action)) : Store :=
  steps.foldl (fun store step => (store.dispatch step.1 step.2).2) store

/-- What every action of a run keeps, the run keeps: an action that fails changes nothing. -/
theorem afterAll_preserves {holds : LocalState → Prop} {store : Store}
    {steps : List (Instant × Action)}
    (keeps : ∀ step ∈ steps, ∀ state next, holds state → step.2.reduce step.1 state = .ok next →
      holds next) (begins : holds store.state) : holds (store.afterAll steps).state := by
  induction steps generalizing store with
  | nil => exact begins
  | cons step rest ih =>
      obtain ⟨firstKeeps, restKeeps⟩ := List.forall_mem_cons.1 keeps
      refine ih restKeeps ?_
      rw [state_dispatch]
      split
      next next reduced => exact firstKeeps _ _ begins reduced
      · exact begins

theorem headsReplay_afterAll {store : Store} {steps : List (Instant × Action)}
    (replay : store.state.HeadsReplay) (admissible : ∀ step ∈ steps, step.2.Admissible) :
    (store.afterAll steps).state.HeadsReplay :=
  afterAll_preserves (fun step member _ _ replay reduced =>
    replay.reduce (admissible step member) reduced) replay

/-- In every state of a run from the empty one, an entity has a head exactly when it has
commits, and the head is the replay of the commits on the origin. -/
theorem head_eq_replay_of_run (eventCapacity : Nat) (steps : List (Instant × Action))
    (admissible : ∀ step ∈ steps, step.2.Admissible) (entityName id : String)
    (info : EntityInfo)
    (followed : ((ofState .empty eventCapacity).afterAll steps).state.find? entityName id =
      some info) :
    (info.head = none ↔ info.commits = []) ∧
      (info.commits ≠ [] → ∃ head, info.head = some head ∧
        ∀ now, Update.applyAll now info.origin info.commits = .ok head) := by
  have start : LocalState.empty.HeadsReplay := by
    intro entityName id info found
    cases found
  have replays : info.HeadReplays :=
    headsReplay_afterAll start admissible entityName id info followed
  refine ⟨replays.head_eq_none_iff, fun nonempty => ?_⟩
  rcases replays.head with ⟨noCommits, _⟩ | ⟨_, head⟩
  · exact absurd noCommits nonempty
  · exact head

/-- An entity is followed, and a field of it set. -/
def followAndCommit : List (Instant × Action) :=
  [(default, .follow "note" (.object [("id", .string "a")]) (some "v")),
    (default, .commit "note" "a" (Update.empty.set ⟨["n"]⟩ (.int 1)))]

theorem head_eq_replay_of_followAndCommit :
    ∃ info, ((ofState .empty 4).afterAll followAndCommit).state.find? "note" "a" = some info ∧
      info.commits.length = 1 ∧ ∃ head, info.head = some head ∧
        ∀ now, Update.applyAll now info.origin info.commits = .ok head := by
  have commits : (((ofState .empty 4).afterAll followAndCommit).state.find? "note" "a").map
      (fun info => info.commits.length) = some 1 := by rfl
  obtain ⟨info, followed, one⟩ := Option.map_eq_some_iff.1 commits
  have admissible : ∀ step ∈ followAndCommit, step.2.Admissible :=
    List.forall_mem_cons.2 ⟨trivial, List.forall_mem_cons.2
      ⟨show Update.Timeless _ by decide, by simp⟩⟩
  refine ⟨info, followed, one,
    (head_eq_replay_of_run 4 followAndCommit admissible "note" "a" info followed).2 ?_⟩
  exact List.ne_nil_of_length_pos (by omega)

end Store

end LocalFirst
