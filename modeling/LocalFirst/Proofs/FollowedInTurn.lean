import LocalFirst.Proofs.FollowedAtOnce

/-!
# Entities followed at once and in turn

Several entities that are followed at once make one update: an entity that is listed again takes the
place of the one before it at the same path, and the update runs in the order of the paths, on the
document of the entities that it touches.  Entities that are followed in turn go through a document
each.  Both ways go through for the same lists, those whose entities can all be addressed by the id
that they hold, and both lay the same over the state: under each id, what is listed last.
-/

namespace LocalFirst

namespace LocalState

variable {now : Instant} {state next : LocalState} {entityName : String}
  {versionsById : NameMap String} {infos : NameMap EntityInfo}

/-- Follow entities one after another, each at its version in the map. -/
def followInTurn (now : Instant) (state : LocalState) (entityName : String)
    (entities : List Document) (versionsById : NameMap String) : Except StateError LocalState :=
  entities.foldlM (fun state entity =>
    Action.reduce now state (.follow entityName entity (versionOf versionsById entity))) state

/-- A state whose queue can be read follows what can be addressed, and nothing else. -/
theorem reduce_follow_eq_ok_iff {entity : Document} {versionId : Option String}
    (queue : state.QueueReads) :
    Action.reduce now state (.follow entityName entity versionId) = .ok next ↔
      ∃ id, entity.HoldsId id ∧ (entityPath entityName id).fault? = none ∧
        next = state.withEntity entityName id (.clean entity versionId) := by
  have becomes : ∀ {next id}, entity.HoldsId id →
      Action.reduce now state (.follow entityName entity versionId) = .ok next →
      next = state.withEntity entityName id (.clean entity versionId) := by
    intro next id holds reduced
    obtain ⟨other, otherHolds, _, known⟩ := reduce_follow reduced
    obtain rfl := Option.some.inj (otherHolds.symm.trans holds)
    refine eq_withEntity_of_reduce reduced (by simp) (fun name otherId reached => ?_)
      (fun _ here => here) known
    exact ⟨reached.1, Option.some.inj (reached.2.symm.trans holds)⟩
  have unfolded : ∀ {next id}, entity.HoldsId id →
      (Action.reduce now state (.follow entityName entity versionId) = .ok next ↔
        state.applyCommand now (Update.empty.set (entityPath entityName id)
          (EntityInfo.clean entity versionId).toDocument) = .ok next) := by
    intro next id holds
    simp only [Action.reduce, Action.update, follow, entityId_eq_ok.2 holds]
    exact .rfl
  constructor
  · intro reduced
    obtain ⟨id, holds, _⟩ := reduce_follow reduced
    refine ⟨id, holds, ?_, becomes holds reduced⟩
    obtain ⟨_, _, updated, _⟩ := applyCommand_eq_ok rfl
      (by rfl : touchedEntities _ = some [(entityName, id)]) ((unfolded holds).1 reduced)
    exact fault?_of_touched (by rfl : touchedEntities _ = some [(entityName, id)]) updated
      List.mem_cons_self
  · rintro ⟨id, holds, addressable, rfl⟩
    obtain ⟨next, applied⟩ := exists_applyCommand_set queue addressable
      (by rfl : (EntityInfo.clean entity versionId).commits.mapM Update.stored = .ok []) now
    have reduced := (unfolded holds).2 applied
    rw [reduced, becomes holds reduced]

/-- The entities that are followed in turn can be addressed, and what they say is laid over the
state. -/
theorem overlays_of_followInTurn {start last : LocalState} {entities : List Document}
    (queue : start.QueueReads) (overlays : Overlays infos state start entityName)
    (followed : followInTurn now start entityName entities versionsById = .ok last) :
    (∀ entity ∈ entities, Followable entityName entity) ∧
      Overlays (entities.foldl (list versionsById) infos) state last entityName := by
  induction entities generalizing start infos with
  | nil =>
      cases followed
      exact ⟨by simp, overlays⟩
  | cons entity rest ih =>
      simp only [followInTurn, List.foldlM_cons, Except.bind_eq_ok] at followed
      obtain ⟨between, reduced, restFollowed⟩ := followed
      obtain ⟨id, holds, addressable, rfl⟩ := (reduce_follow_eq_ok_iff queue).1 reduced
      rw [versionOf_eq holds] at restFollowed
      obtain ⟨restFollowable, restOverlays⟩ := ih (by exact queue)
        (overlays.put id (.clean entity (versionsById.get? id))) restFollowed
      rw [List.foldl_cons, list_eq holds]
      exact ⟨List.forall_mem_cons.2 ⟨⟨id, holds, addressable⟩, restFollowable⟩, restOverlays⟩

theorem exists_followInTurn {entities : List Document} (queue : state.QueueReads)
    (followable : ∀ entity ∈ entities, Followable entityName entity) :
    ∃ last, followInTurn now state entityName entities versionsById = .ok last := by
  induction entities generalizing state with
  | nil => exact ⟨state, rfl⟩
  | cons entity rest ih =>
      obtain ⟨⟨id, holds, addressable⟩, restFollowable⟩ := List.forall_mem_cons.1 followable
      let between := state.withEntity entityName id (.clean entity (versionOf versionsById entity))
      have reduced : Action.reduce now state
          (.follow entityName entity (versionOf versionsById entity)) = .ok between :=
        (reduce_follow_eq_ok_iff queue).2 ⟨id, holds, addressable, rfl⟩
      obtain ⟨last, followed⟩ := ih (by exact queue : between.QueueReads) restFollowable
      refine ⟨last, ?_⟩
      rw [followInTurn, List.foldlM_cons, reduced]
      exact followed

/-- To follow entities at once is to follow them in turn: the one goes through exactly when every
step of the other does, and what comes out is the same, each entity being as it is listed last.  A
list with an entity that holds no id is refused as a whole. -/
theorem reduce_followAll_in_turn (now : Instant) (state : LocalState) (entityName : String)
    (entities : List Document) (versionsById : NameMap String)
    (roundTrips : ofDocument state.toDocument = .ok state) :
    ((∃ next, Action.reduce now state (.followAll entityName entities versionsById) = .ok next) ↔
      ∃ last, followInTurn now state entityName entities versionsById = .ok last) ∧
    (∀ next last,
      Action.reduce now state (.followAll entityName entities versionsById) = .ok next →
      followInTurn now state entityName entities versionsById = .ok last →
      next = last ∧
        ∀ before entity after id, entities = before ++ entity :: after → entity.HoldsId id →
          (∀ later ∈ after, ¬ later.HoldsId id) →
          next.find? entityName id = some (.clean entity (versionsById.get? id))) ∧
    ((∃ entity ∈ entities, ∀ id, ¬ entity.HoldsId id) →
      ∀ store : Store, store.state = state →
        (store.dispatch now (.followAll entityName entities versionsById)).1 =
          .error (.missingId entityName) ∧
        (store.dispatch now (.followAll entityName entities versionsById)).2.state = state) := by
  have queue : state.QueueReads := queueReads_of_ofDocument roundTrips
  refine ⟨⟨?_, ?_⟩, fun next last reduced followed => ?_, ?_⟩
  · rintro ⟨next, reduced⟩
    exact exists_followInTurn queue (overlays_of_followAll reduced).1
  · rintro ⟨last, followed⟩
    exact exists_reduce_followAll queue
      (overlays_of_followInTurn queue (overlays_empty state entityName) followed).1
  · have overlays := (overlays_of_followAll reduced).2
    have otherOverlays :=
      (overlays_of_followInTurn queue (overlays_empty state entityName) followed).2
    refine ⟨overlays.unique otherOverlays, ?_⟩
    rintro before entity after id rfl holds last
    rw [overlays.known, if_pos rfl, get?_listed_of_last holds last, Option.some_or]
  · rintro ⟨entity, member, noId⟩ store rfl
    have failed : Action.reduce now store.state (.followAll entityName entities versionsById) =
        .error (.missingId entityName) := by
      simp only [Action.reduce, Action.update, followAll_eq_error member noId]
      rfl
    simp only [Store.dispatch, failed, and_self]

/-- A note that has been counted. -/
def countedNote (id : String) (count : Int64) : Document :=
  .object [("id", .string id), ("count", .int count)]

/-- One note is listed twice, around one whose id reads like an index. -/
def relisted : List Document :=
  [countedNote "1.x" 3, countedNote "0" 4, countedNote "1.x" 5]

/-- The note that has a commit is followed at its last listing, without the commit.  One entity
without an id among the others keeps all of them from being followed. -/
theorem reduce_followAll_in_turn_relisted :
    ofDocument dottedNotes.toDocument = .ok dottedNotes ∧
    (∃ next,
      Action.reduce default dottedNotes
        (.followAll "a.b" relisted (Keyed.ofList [("1.x", "v7")])) = .ok next ∧
      followInTurn default dottedNotes "a.b" relisted (Keyed.ofList [("1.x", "v7")]) = .ok next ∧
      next.find? "a.b" "1.x" = some (.clean (countedNote "1.x" 5) (some "v7")) ∧
      next.find? "a.b" "0" = some (.clean (countedNote "0" 4) none)) ∧
    ((Store.ofState dottedNotes 1).dispatch default
      (.followAll "a.b" (.null :: relisted) Keyed.empty)).2.state = dottedNotes := by
  have roundTrips : ofDocument dottedNotes.toDocument = .ok dottedNotes := rfl
  obtain ⟨goesThrough, same, _⟩ := reduce_followAll_in_turn default dottedNotes "a.b" relisted
    (Keyed.ofList [("1.x", "v7")]) roundTrips
  obtain ⟨next, reduced⟩ : ∃ next, Action.reduce default dottedNotes
      (.followAll "a.b" relisted (Keyed.ofList [("1.x", "v7")])) = .ok next := ⟨_, rfl⟩
  obtain ⟨last, followed⟩ := goesThrough.1 ⟨next, reduced⟩
  obtain ⟨rfl, clean⟩ := same next last reduced followed
  refine ⟨roundTrips, ⟨next, reduced, followed, ?_, ?_⟩, ?_⟩
  · exact clean [countedNote "1.x" 3, countedNote "0" 4] _ [] "1.x" rfl rfl (by simp)
  · refine clean [countedNote "1.x" 3] _ [countedNote "1.x" 5] "0" rfl rfl ?_
    intro later member
    rw [List.mem_singleton.1 member]
    decide
  · have noId : ∀ id, ¬ Document.null.HoldsId id := fun id holds => by cases holds
    exact ((reduce_followAll_in_turn default dottedNotes "a.b" (.null :: relisted) Keyed.empty
      roundTrips).2.2 ⟨.null, List.mem_cons_self, noId⟩ (Store.ofState dottedNotes 1) rfl).2

end LocalState

end LocalFirst
