import LocalFirst.Proofs.ActionParts
import LocalFirst.Proofs.EntityEffects

/-!
# What each action may change

An action is carried out by way of the document form of the state, some entities of it or all of
them, and the whole is read back.  Still it changes nothing but what it is about.  An action on one
entity leaves all others alone, and with them whatever stands beside the entities; the actions on
the queue, the network, the session and the last error each write one field.  Names and ids are
single segments of the paths that are written, so that no text in them, with dots or digits, leads
anywhere else.
-/

namespace LocalFirst

namespace LocalState

section Reduced

variable {now : Instant} {state next : LocalState} {action : Action}

/-- What an action makes of the state, when it is not about the state as a whole. -/
theorem WithinParts.reduce (notClear : ∀ entityName, action ≠ .clear entityName)
    (reduced : action.reduce now state = .ok next) :
    (∀ entityName id, ¬ action.ReachesEntity entityName id →
      next.find? entityName id = state.find? entityName id) ∧
    (∀ entityName, (∀ id, ¬ action.ReachesEntity entityName id) →
      next.entities.get? entityName = state.entities.get? entityName) ∧
    ∀ field, ¬ action.ReachesField field → field.Same state next := by
  rcases reduce_eq_ok reduced with
    ⟨update, updated, applied⟩ | rfl | ⟨rfl, _⟩ | ⟨_, rfl, _⟩
  · exact (withinParts_of_update notClear updated).applyCommand applied
  all_goals
    exact ⟨fun _ _ outside => absurd trivial outside,
      fun _ outside => absurd trivial (outside ""), fun _ outside => absurd trivial outside⟩

/-- Clearing a name leaves all fields alone. -/
theorem same_of_reduce_clear {entityName : String}
    (reduced : Action.reduce now state (.clear entityName) = .ok next) (field : Field) :
    field.Same state next := by
  simp only [Action.reduce, Action.update, Except.bind_eq_ok, Except.ok.injEq,
    exists_eq_left'] at reduced
  refine same_of_applyCommand (fun entry member => ?_) (fun path member begins => ?_) reduced
  · obtain rfl := List.mem_singleton.1 member
    simp [Edit.operator]
  · obtain rfl := List.mem_singleton.1 member
    exact field.key_ne_entities (Option.some.inj begins).symm

/-- An action leaves the fields alone that it is not about. -/
theorem same_of_reduce {field : Field} (outside : ¬ action.ReachesField field)
    (reduced : action.reduce now state = .ok next) : field.Same state next := by
  by_cases clears : ∃ entityName, action = .clear entityName
  · obtain ⟨entityName, rfl⟩ := clears
    exact same_of_reduce_clear reduced field
  · rw [not_exists] at clears
    exact (WithinParts.reduce clears reduced).2.2 field outside

/-- The commits of a state that reading its document gives back are as they are stored. -/
theorem commitsStored_of_roundTrips (roundTrips : ofDocument state.toDocument = .ok state)
    (entityName id : String) : state.CommitsStored entityName id := by
  intro info found
  have reads := find?_of_ofDocument (holdsEntities_toDocument state) roundTrips entityName id
  rw [entityAt_toDocument, found] at reads
  obtain ⟨commits, written, known⟩ := readFrom_toDocument reads
  have same : info.commits = commits := congrArg EntityInfo.commits (Option.some.inj known)
  rw [← same] at written
  exact Update.stored_of_mapM_stored written

/-- What an action is about, it changes only in part: commits and reverts keep the origin and its
version, diffs and rebases keep the commits. -/
theorem keepsOfEntity_of_reduce (roundTrips : ofDocument state.toDocument = .ok state)
    (reduced : action.reduce now state = .ok next) : action.KeepsOfEntity state next := by
  have keepsCommits : ∀ {entityName id : String} {info : EntityInfo} {origin head : Document}
      {versionId : String}, state.find? entityName id = some info →
      EntityInfo.ReadFrom
        (some (EntityInfo.toDocument ⟨origin, some versionId, info.commits, some head⟩))
        (next.find? entityName id) →
      ∃ before after, state.find? entityName id = some before ∧
        next.find? entityName id = some after ∧ after.commits = before.commits := by
    intro entityName id info origin head versionId found reads
    obtain ⟨commits, written, known⟩ := readFrom_toDocument reads
    have unchanged := Update.mapM_stored_eq_ok
      (commitsStored_of_roundTrips roundTrips entityName id info found)
    exact ⟨info, _, found, known, Except.ok.inj (written.symm.trans unchanged)⟩
  cases action
  case commit =>
    obtain ⟨_, info, _, head, found, _, _, reads⟩ := reduce_commit reduced
    obtain ⟨commits, _, known⟩ := readFrom_toDocument reads
    exact ⟨info, _, found, known, rfl, rfl⟩
  case revert =>
    obtain ⟨_, info, _, head, found, _, _, reads⟩ := reduce_revert reduced
    obtain ⟨commits, _, known⟩ := readFrom_toDocument reads
    exact ⟨info, _, found, known, rfl, rfl⟩
  case patch diff =>
    obtain ⟨info, found, ⟨_, rfl⟩ | ⟨_, _, origin, head, _, _, reads⟩⟩ := reduce_patch reduced
    · exact ⟨info, info, found, found, rfl⟩
    · exact keepsCommits found reads
  case rebase =>
    obtain ⟨_, info, origin, head, found, _, _, reads⟩ := reduce_rebase reduced
    exact keepsCommits found reads
  all_goals exact trivial

end Reduced

/-- An action changes only the part of the state that it is about, and of that only what it has
to. -/
theorem changes_within_part_of_reduce (now : Instant) (state next : LocalState) (action : Action)
    (roundTrips : ofDocument state.toDocument = .ok state)
    (reduced : action.reduce now state = .ok next) :
    (∀ entityName id, ¬ action.ReachesEntity entityName id →
      next.find? entityName id = state.find? entityName id) ∧
    (∀ entityName, (∀ id, ¬ action.ReachesEntity entityName id) →
      next.entities.get? entityName = state.entities.get? entityName) ∧
    (∀ field, ¬ action.ReachesField field → field.Same state next) ∧
    action.KeepsOfEntity state next := by
  have keeps := keepsOfEntity_of_reduce roundTrips reduced
  by_cases clears : ∃ entityName, action = .clear entityName
  · obtain ⟨cleared, rfl⟩ := clears
    have sameName : ∀ entityName, entityName ≠ cleared →
        next.entities.get? entityName = state.entities.get? entityName := fun _ differ =>
      get?_of_reduce_clear roundTrips differ reduced
    refine ⟨fun entityName id outside => ?_, fun entityName outside => sameName _ (outside ""),
      fun field _ => same_of_reduce_clear reduced field, keeps⟩
    rw [find?, sameName entityName outside, find?]
  · rw [not_exists] at clears
    obtain ⟨sameEntities, sameNames, sameFields⟩ := WithinParts.reduce clears reduced
    exact ⟨sameEntities, sameNames, sameFields, keeps⟩

/-- Notes whose names and ids read like paths and indices, offline and with a session. -/
def dottedNotes : LocalState where
  entities := Keyed.ofList [
    ("7", Keyed.ofList [("0", .clean (.object [("id", .string "0")]) none)]),
    ("a.b", Keyed.ofList [
      ("01", .clean (.object [("id", .string "01"), ("count", .int 0)]) (some "v1")),
      ("1.x", ⟨.object [("id", .string "1.x"), ("count", .int 0)], some "v2",
        [Update.empty.set (Path.parse "count") (.int 1)],
        some (.object [("id", .string "1.x"), ("count", .int 1)])⟩)])]
  unreachedCommits := [⟨"a.b", "1.x", 1⟩]
  network := ⟨["t.1"], false⟩
  session := some ⟨"s1", "user", some "u.1", none, .object []⟩
  error := some ⟨.internalError, .localSide, "no answer", "mooring/push"⟩

/-- The server has counted on below the pending commit. -/
def countBelow : VersionDiff :=
  ⟨"a.b", "1.x", "v3", "v2", Update.empty.insert (Path.parse "count") (.inc (.int 5))⟩

/-- A diff moves one note and keeps its commit, the note beside it, the other names and all
fields. -/
theorem changes_within_part_of_reduce_patch :
    ofDocument dottedNotes.toDocument = .ok dottedNotes ∧
    ∃ next, (Action.patch countBelow).reduce default dottedNotes = .ok next ∧
      (next.find? "a.b" "1.x").map EntityInfo.versionId = some (some "v3") ∧
      next.find? "a.b" "01" = dottedNotes.find? "a.b" "01" ∧
      next.entities.get? "7" = dottedNotes.entities.get? "7" ∧
      (∀ field : Field, field.Same dottedNotes next) ∧
      (next.find? "a.b" "1.x").map EntityInfo.commits =
        (dottedNotes.find? "a.b" "1.x").map EntityInfo.commits := by
  have roundTrips : ofDocument dottedNotes.toDocument = .ok dottedNotes := rfl
  obtain ⟨next, reduced, moved⟩ : ∃ next,
      (Action.patch countBelow).reduce default dottedNotes = .ok next ∧
        (next.find? "a.b" "1.x").map EntityInfo.versionId = some (some "v3") := ⟨_, rfl, rfl⟩
  obtain ⟨entities, names, fields, before, after, found, known, kept⟩ :=
    changes_within_part_of_reduce default dottedNotes next (.patch countBelow) roundTrips reduced
  refine ⟨roundTrips, next, reduced, moved,
    entities "a.b" "01" fun reached => absurd reached.2 (by decide),
    names "7" fun _ reached => absurd reached.1 (by decide), fun field => fields field id, ?_⟩
  calc (next.find? "a.b" "1.x").map EntityInfo.commits
      = some after.commits := congrArg (Option.map EntityInfo.commits) known
    _ = some before.commits := congrArg some kept
    _ = (dottedNotes.find? "a.b" "1.x").map EntityInfo.commits :=
      (congrArg (Option.map EntityInfo.commits) found).symm

end LocalState

end LocalFirst
