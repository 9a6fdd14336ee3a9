import LocalFirst.Proofs.CommandEffects

/-!
# Effects of the other actions

An action on the queue, the network, the session or the last error leaves all entities as they are. 
The other ones set a session and follow its user, forget all entities of a name, or follow several
entities at once.
-/

namespace LocalFirst

/-- The action works on the queue, the network, the session or the error. -/
def Action.IsBeside : Action → Prop
  | .addUnreachedCommits _ | .removeUnreachedCommits _ | .networkRequest _
  | .removeNetworkRequest _ | .unsetSession | .online | .offline | .error .. | .resolveError => True
  | _ => False

namespace LocalState

/-- An action beside the entities leaves all of them as they are. -/
theorem entities_of_reduce_beside {now : Instant} {state next : LocalState} {action : Action}
    (beside : action.IsBeside) (reduced : action.reduce now state = .ok next) :
    next.entities = state.entities := by
  cases action <;> first | exact beside.elim | skip
  all_goals
    simp only [Action.reduce, Action.update, Except.bind_eq_ok, Except.ok.injEq,
      exists_eq_left'] at reduced
  case addUnreachedCommits entry =>
    refine entities_of_applyCommand ?_ reduced
    simp only [enqueue]
    split <;> rfl
  all_goals exact entities_of_applyCommand rfl reduced

/-- An update with one entry beside the entities reaches none of them. -/
theorem touchedEntities_of_entry {update : Update} {path : Path} {edit : Edit}
    (entries : update.entries.toList = [⟨path, edit⟩]) (notRename : edit.operator ≠ .rename)
    (outside : reach path = .outside) :
    update.isEmpty = false ∧ touchedEntities update = some [] := by
  constructor
  · rw [Update.isEmpty, Keyed.isEmpty, entries]
    rfl
  · rw [touchedEntities, Update.paths, entries, if_neg (by simpa using notRename)]
    simp [collectTouched, outside]

/-- An update of one member of the network writes what it makes of the network's document. -/
theorem network_of_member {now : Instant} {state next : LocalState} {update : Update}
    {member : String} {edit : Edit} {network : NetworkState}
    (entries : update.entries.toList = [⟨⟨["network", member]⟩, edit⟩])
    (notRename : edit.operator ≠ .rename)
    (acts : edit.act now state.network.toDocument member = .ok network.toDocument)
    (applied : state.applyCommand now update = .ok next) : next.network = network := by
  obtain ⟨nonempty, reaches⟩ := touchedEntities_of_entry entries notRename rfl
  obtain ⟨document, result, updated, read, _, _, networkEq, _⟩ :=
    applyCommand_eq_ok nonempty reaches applied
  rw [Update.apply, entries] at updated
  simp only [List.foldlM_cons, List.foldlM_nil, Except.bind_eq_ok, Except.pure_eq_ok] at updated
  obtain ⟨_, ran, rfl⟩ := updated
  have isObject := (holdsEntities_toDocument (state.scopedTo [])).isObject
  obtain ⟨child, node, childFound, acted, rfl⟩ | ⟨missing, _⟩ :=
    Document.updateParent_cons isObject (Entry.updateParent_of_run notRename ran)
  · simp only [get?_network_toDocument, Option.some.injEq, reduceCtorEq, false_and,
      or_false] at childFound
    subst childFound
    refine networkEq.trans (network_of_ofDocument read ?_)
    rw [Document.get?_put_self isObject]
    exact congrArg some (Except.ok.inj (acted.symm.trans acts))
  · simp at missing

/-- A tag is pushed behind the others. -/
theorem run_push_tag (tag : String) (requests : List String) :
    Push.run ⟨[.string tag], none, none, none⟩ (requests.map Document.string) =
      (requests ++ [tag]).map Document.string := by
  simp [Push.run, Push.place, Push.cut, List.take_of_length_le, List.drop_of_length_le]

/-- A new request is recorded behind the others. -/
theorem reduce_networkRequest {now : Instant} {state next : LocalState} {tag : String}
    (reduced : Action.reduce now state (.networkRequest tag) = .ok next) :
    next.network = { state.network with requests := state.network.requests ++ [tag] } := by
  simp only [Action.reduce, Action.update, Except.bind_eq_ok, Except.ok.injEq,
    exists_eq_left'] at reduced
  refine network_of_member rfl (by simp [Edit.operator]) ?_ reduced
  simp only [NetworkState.toDocument, ← run_push_tag]
  rfl

/-- A request is taken out where it stands first. -/
theorem reduce_removeNetworkRequest {now : Instant} {state next : LocalState} {tag : String}
    (reduced : Action.reduce now state (.removeNetworkRequest tag) = .ok next) :
    next.network = { state.network with requests := state.network.requests.erase tag } := by
  simp only [Action.reduce, Action.update, Except.bind_eq_ok, Except.ok.injEq,
    exists_eq_left'] at reduced
  exact network_of_member rfl (by simp [Edit.operator]) rfl reduced

theorem reduce_online {now : Instant} {state next : LocalState}
    (reduced : Action.reduce now state .online = .ok next) :
    next.network = { state.network with isOnline := true } := by
  simp only [Action.reduce, Action.update, Except.bind_eq_ok, Except.ok.injEq,
    exists_eq_left'] at reduced
  exact network_of_member rfl (by simp [Edit.operator]) rfl reduced

theorem reduce_offline {now : Instant} {state next : LocalState}
    (reduced : Action.reduce now state .offline = .ok next) :
    next.network = { state.network with isOnline := false } := by
  simp only [Action.reduce, Action.update, Except.bind_eq_ok, Except.ok.injEq,
    exists_eq_left'] at reduced
  exact network_of_member rfl (by simp [Edit.operator]) rfl reduced

/-- The update that sets a session and follows its user. -/
theorem toList_merge_session (session : Document) (entityName id : String) (user : Document) :
    ((Update.empty.set ⟨["session"]⟩ session).merge
      (Update.empty.set (entityPath entityName id) user)).entries.toList =
      [⟨entityPath entityName id, .set user⟩, ⟨⟨["session"]⟩, .set session⟩] := by
  have paths : compare (entityPath entityName id) ⟨["session"]⟩ = .lt := by
    change compare ["entities", entityName, id] ["session"] = .lt
    simp [show compare "entities" "session" = .lt by decide]
  simp [Update.merge, Keyed.merge, Keyed.insertAll, Update.set, Update.insert, Keyed.insert,
    Keyed.insertInto, Update.empty, Keyed.empty, Entry.compare_address, Edit.operator, paths]

theorem touchedEntities_merge_session (session : Document) (entityName id : String)
    (user : Document) : touchedEntities ((Update.empty.set ⟨["session"]⟩ session).merge
      (Update.empty.set (entityPath entityName id) user)) = some [(entityName, id)] := by
  rw [touchedEntities, Update.paths, toList_merge_session]
  rfl

/-- The update that stores a session also follows its user when one is given with a version. -/
theorem setSession_eq_ok {session : Session} {user : Option Document} {versionId : Option String}
    {update : Update} (updated : setSession session user versionId = .ok update) :
    update = Update.empty.set ⟨["session"]⟩ session.toDocument ∨
      ∃ entity version id, user = some entity ∧ versionId = some version ∧
        (entity.get? "id").bind Document.string? = some id ∧
        update = (Update.empty.set ⟨["session"]⟩ session.toDocument).merge
          (Update.empty.set (entityPath session.entityName id)
            (EntityInfo.clean entity (some version)).toDocument) := by
  unfold setSession at updated
  simp only at updated
  split at updated
  next entity version =>
    simp only [follow, Except.map_eq_ok, Except.bind_eq_ok, Except.pure_eq_ok] at updated
    obtain ⟨_, ⟨id, idOk, rfl⟩, rfl⟩ := updated
    exact .inr ⟨entity, version, id, rfl, rfl, entityId_eq_ok.1 idOk, rfl⟩
  · cases updated
    exact .inl rfl

/-- A session is stored, and its user followed when one is given with a version. -/
theorem reduce_setSession {now : Instant} {state next : LocalState} {session : Session}
    {user : Option Document} {versionId : Option String}
    (reduced : Action.reduce now state (.setSession session user versionId) = .ok next) :
    next.entities = state.entities ∨
      ∃ entity version id, user = some entity ∧ versionId = some version ∧
        (entity.get? "id").bind Document.string? = some id ∧
        (∀ other otherId, ¬ (other = session.entityName ∧ otherId = id) →
          next.find? other otherId = state.find? other otherId) ∧
        next.find? session.entityName id = some (.clean entity (some version)) := by
  simp only [Action.reduce, Action.update, Except.bind_eq_ok] at reduced
  obtain ⟨update, updateOk, applied⟩ := reduced
  rcases setSession_eq_ok updateOk with rfl | ⟨entity, version, id, userEq, versionEq, idOk, rfl⟩
  · exact .inl (entities_of_applyCommand rfl applied)
  · have entries := toList_merge_session session.toDocument session.entityName id
      (EntityInfo.clean entity (some version)).toDocument
    refine .inr ⟨entity, version, id, userEq, versionEq, idOk, ?_⟩
    have reaches := touchedEntities_merge_session session.toDocument session.entityName id
      (EntityInfo.clean entity (some version)).toDocument
    obtain ⟨document, result, updated, read, found, _⟩ :=
      applyCommand_eq_ok (by simp [Update.isEmpty, Keyed.isEmpty, entries]) reaches applied
    simp only [Update.apply, entries, List.foldlM_cons, List.foldlM_nil, Except.bind_eq_ok,
      Except.pure_eq_ok] at updated
    obtain ⟨between, entityRan, _, sessionRan, rfl⟩ := updated
    have changed := Entry.changesEntity_of_set (holdsEntities_toDocument _) entityRan
    obtain ⟨holds, sameAt⟩ := Entry.holdsEntities_of_run_outside changed.holds
      (by simp [Edit.operator]) (by decide) sessionRan
    refine ⟨fun other otherId differ => ?_, ?_⟩
    · rw [found, if_neg (by simpa using differ)]
    · have reads := find?_of_ofDocument holds read session.entityName id
      rw [sameAt, changed.entityAt, if_pos ⟨rfl, rfl⟩] at reads
      obtain ⟨commits, commitsOk, known⟩ := readFrom_toDocument reads
      cases commitsOk
      rw [found, if_pos (List.mem_singleton.2 rfl)]
      exact known

/-- Clearing a name forgets its entities and reads all others again. -/
theorem reduce_clear {now : Instant} {state next : LocalState} {entityName : String}
    (reduced : Action.reduce now state (.clear entityName) = .ok next) :
    ∀ other id, EntityInfo.ReadFrom
      (if other = entityName then none
        else (state.find? other id).map EntityInfo.toDocument) (next.find? other id) := by
  simp only [Action.reduce, Action.update, Except.bind_eq_ok, Except.ok.injEq,
    exists_eq_left'] at reduced
  have nonempty : (clear entityName).isEmpty = false := rfl
  have reaches : touchedEntities (clear entityName) = none := rfl
  simp only [applyCommand, nonempty, reaches, Bool.false_eq_true, if_false, LocalState.apply,
    applyAll, Except.bind_eq_ok, Except.mapError_eq_ok, Update.applyTo, Update.applyAll,
    List.foldlM_cons, List.foldlM_nil, Except.pure_eq_ok] at reduced
  obtain ⟨_, ⟨document, updated, rfl⟩, read⟩ := reduced
  simp only [Update.apply, clear, Update.set, Update.insert, Update.empty, Keyed.insert,
    Keyed.empty, Keyed.insertInto, List.foldlM_cons, List.foldlM_nil, Except.bind_eq_ok,
    Except.pure_eq_ok] at updated
  obtain ⟨_, ran, rfl⟩ := updated
  obtain ⟨holds, _, sameAt⟩ := Entry.entityAt_of_clear (holdsEntities_toDocument state) ran
  intro other id
  have reads := find?_of_ofDocument holds read other id
  rwa [sameAt, entityAt_toDocument] at reads

/-- What is known after a name was cleared was known before, and was read again. -/
theorem known_of_reduce_clear {now : Instant} {state next : LocalState} {entityName : String}
    (reduced : Action.reduce now state (.clear entityName) = .ok next) {other id : String}
    {info : EntityInfo} (found : next.find? other id = some info) :
    ∃ before, state.find? other id = some before ∧
      EntityInfo.ReadFrom (some before.toDocument) (next.find? other id) := by
  have reads := reduce_clear reduced other id
  split at reads
  · cases found.symm.trans reads
  · cases known : state.find? other id with
    | none =>
        rw [known] at reads
        cases found.symm.trans reads
    | some before =>
        rw [known] at reads
        exact ⟨before, rfl, reads⟩

/-- An entry that follows an entity of a name. -/
def Follows (entityName : String) (entry : Entry) : Prop :=
  ∃ id entity versionId, (entity.get? "id").bind Document.string? = some id ∧
    entry = ⟨entityPath entityName id, .set (EntityInfo.clean entity versionId).toDocument⟩

theorem follows_of_followAll {entityName : String} {entities : List Document}
    {versionsById : NameMap String} {update : Update}
    (followed : followAll entityName entities versionsById = .ok update) :
    ∀ entry ∈ update.entries.toList, Follows entityName entry := by
  have keeps : ∀ (entities : List Document) (start : Update),
      (∀ entry ∈ start.entries.toList, Follows entityName entry) →
      entities.foldlM (fun update entity => do
        let id ← entityId entityName entity
        let followed ← follow entityName entity (versionsById.get? id)
        return update.merge followed) start = .ok update →
      ∀ entry ∈ update.entries.toList, Follows entityName entry := by
    intro entities
    induction entities with
    | nil =>
        rintro start before ⟨⟩
        exact before
    | cons entity rest ih =>
        intro start before followed
        simp only [List.foldlM_cons, follow, Except.bind_eq_ok, Except.pure_eq_ok] at followed
        obtain ⟨_, ⟨id, idOk, _, ⟨_, idOk', rfl⟩, rfl⟩, followed⟩ := followed
        obtain rfl := Except.ok.inj (idOk.symm.trans idOk')
        refine ih _ (fun entry member => ?_) followed
        rcases Keyed.mem_toList_insertAll member with inserted | there
        · obtain rfl := List.mem_singleton.1 inserted
          exact ⟨id, entity, _, entityId_eq_ok.1 idOk, rfl⟩
        · exact before entry there
  exact keeps entities Update.empty (by simp [Update.empty, Keyed.empty]) followed

theorem touchedEntities_of_follows {entityName : String} {update : Update}
    (follows : ∀ entry ∈ update.entries.toList, Follows entityName entry) :
    touchedEntities update = collectTouched (update.entries.toList.map Entry.path) := by
  have noRename : update.entries.toList.any (fun entry => entry.edit.operator = .rename) =
      false := by
    rw [List.any_eq_false]
    intro entry member
    obtain ⟨_, _, _, _, rfl⟩ := follows entry member
    simp [Edit.operator]
  rw [touchedEntities, noRename]
  rfl

/-- Entries that follow entities of a name touch these entities, and set them. -/
theorem entityAt_of_follows (now : Instant) {entityName : String} {entries : List Entry}
    (follows : ∀ entry ∈ entries, Follows entityName entry) :
    ∃ touched, collectTouched (entries.map Entry.path) = some touched ∧
      ∀ document result : Document, document.HoldsEntities →
        entries.foldlM (Entry.run now) document = .ok result →
        result.HoldsEntities ∧ ∀ other id, (other, id) ∈ touched →
          other = entityName ∧ ∃ entity versionId,
            (entity.get? "id").bind Document.string? = some id ∧
            result.entityAt other id = some (EntityInfo.clean entity versionId).toDocument := by
  suffices tracks : ∃ touched, collectTouched (entries.map Entry.path) = some touched ∧
      ∀ document result : Document, document.HoldsEntities →
        entries.foldlM (Entry.run now) document = .ok result →
        result.HoldsEntities ∧ ∀ other id,
          (result.entityAt other id = document.entityAt other id ∧ (other, id) ∉ touched) ∨
          (other = entityName ∧ ∃ entity versionId,
            (entity.get? "id").bind Document.string? = some id ∧
            result.entityAt other id =
              some (EntityInfo.clean entity versionId).toDocument) by
    obtain ⟨touched, collected, tracked⟩ := tracks
    refine ⟨touched, collected, fun document result holds ran => ?_⟩
    obtain ⟨resultHolds, looked⟩ := tracked document result holds ran
    exact ⟨resultHolds, fun other id member =>
      (looked other id).resolve_left fun untouched => untouched.2 member⟩
  induction entries with
  | nil =>
      refine ⟨[], rfl, fun document result holds ran => ?_⟩
      cases ran
      exact ⟨holds, fun _ _ => .inl ⟨rfl, List.not_mem_nil⟩⟩
  | cons entry rest ih =>
      obtain ⟨⟨id, entity, versionId, idOk, rfl⟩, restFollows⟩ := List.forall_mem_cons.1 follows
      obtain ⟨touched, collected, tracked⟩ := ih restFollows
      have reaches : reach (entityPath entityName id) = .entity entityName id := rfl
      refine ⟨(entityName, id) :: touched, by simp [collectTouched, reaches, collected], ?_⟩
      intro document result holds ran
      simp only [List.foldlM_cons, Except.bind_eq_ok] at ran
      obtain ⟨between, firstRan, restRan⟩ := ran
      have changed := Entry.changesEntity_of_set holds firstRan
      obtain ⟨resultHolds, looked⟩ := tracked between result changed.holds restRan
      refine ⟨resultHolds, fun other otherId => ?_⟩
      rcases looked other otherId with ⟨same, untouched⟩ | set
      · by_cases here : other = entityName ∧ otherId = id
        · rw [changed.entityAt, if_pos here] at same
          exact .inr ⟨here.1, entity, versionId, here.2 ▸ idOk, same⟩
        · rw [changed.entityAt, if_neg here] at same
          exact .inl ⟨same, by simpa [untouched] using here⟩
      · exact .inr set

/-- Each entity that is followed with others stands under its id and has no commits; the
other entities stay as they are. -/
theorem reduce_followAll {now : Instant} {state next : LocalState} {entityName : String}
    {entities : List Document} {versionsById : NameMap String}
    (reduced : Action.reduce now state (.followAll entityName entities versionsById) =
      .ok next) (other id : String) :
    next.find? other id = state.find? other id ∨
      ∃ entity versionId, (entity.get? "id").bind Document.string? = some id ∧
        next.find? other id = some (.clean entity versionId) := by
  simp only [Action.reduce, Action.update, Except.bind_eq_ok] at reduced
  obtain ⟨update, followed, applied⟩ := reduced
  have follows := follows_of_followAll followed
  obtain ⟨touched, collected, tracked⟩ := entityAt_of_follows now follows
  cases isEmpty : update.isEmpty with
  | true =>
      simp only [applyCommand, isEmpty, if_true, Except.ok.injEq] at applied
      exact .inl (by rw [applied])
  | false =>
      have reaches := (touchedEntities_of_follows follows).trans collected
      obtain ⟨document, result, updated, read, found, _⟩ :=
        applyCommand_eq_ok isEmpty reaches applied
      obtain ⟨holds, looked⟩ := tracked _ document (holdsEntities_toDocument _) updated
      rw [found]
      split
      next member =>
        obtain ⟨_, entity, versionId, idOk, entityAt⟩ := looked other id member
        have reads := find?_of_ofDocument holds read other id
        rw [entityAt] at reads
        obtain ⟨commits, commitsOk, known⟩ := readFrom_toDocument reads
        cases commitsOk
        exact .inr ⟨entity, versionId, idOk, known⟩
      · exact .inl rfl

end LocalState

end LocalFirst
