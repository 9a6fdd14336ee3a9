import LocalFirst.Proofs.ListedEntities

/-!
# Entities followed at once

Several entities that are followed at once make one update: an entity that is listed again takes the
place of the one before it at the same path, and the update runs in the order of the paths, on the
document of the entities that it touches.
-/

namespace LocalFirst

namespace LocalState

variable {now : Instant} {state next : LocalState} {entityName : String}
  {versionsById : NameMap String} {infos : NameMap EntityInfo}

/-- The entry that follows an entity under its id. -/
def followEntry (entityName : String) (known : String × EntityInfo) : Entry :=
  ⟨entityPath entityName known.1, .set known.2.toDocument⟩

theorem compare_address_followEntry (first second : String × EntityInfo) :
    compare (followEntry entityName first).address (followEntry entityName second).address =
      compare first.1 second.1 := by
  have reflexive : ∀ text : String, compare text text = .eq := fun _ => Std.ReflCmp.compare_self
  change compare ["entities", entityName, first.1] ["entities", entityName, second.1] = _
  simp only [List.compare_cons_cons, reflexive, Ordering.eq_then]
  cases compare first.1 second.1 <;> rfl

/-- The update that follows what is listed. -/
def followUpdate (entityName : String) (infos : NameMap EntityInfo) : Update where
  entries :=
    { toList := infos.toList.map (followEntry entityName)
      increasing := infos.increasing.map _ fun first second below =>
        (compare_address_followEntry first second).trans below }

theorem followUpdate_put (id : String) (info : EntityInfo) :
    (followUpdate entityName infos).merge (Update.empty.set (entityPath entityName id)
      info.toDocument) = followUpdate entityName (infos.put id info) := by
  have inserted : ∀ pairs : List (String × EntityInfo),
      Keyed.insertInto Entry.address (followEntry entityName (id, info))
        (pairs.map (followEntry entityName)) =
      (Keyed.insertInto Prod.fst (id, info) pairs).map (followEntry entityName) := by
    intro pairs
    induction pairs with
    | nil => rfl
    | cons first rest ih =>
        rw [List.map_cons, Keyed.insertInto, compare_address_followEntry, Keyed.insertInto]
        cases compare (id, info).1 first.1 <;> simp [ih]
  exact congrArg Update.mk (Keyed.eq_of_toList_eq (inserted infos.toList))

/-- Entities that are listed with an id each make one update, which follows what is listed last. -/
theorem followAll_eq_ok_iff {entities : List Document} {update : Update} :
    followAll entityName entities versionsById = .ok update ↔
      (∀ entity ∈ entities, ∃ id, entity.HoldsId id) ∧
        update = followUpdate entityName (listed versionsById entities) := by
  suffices onto : ∀ infos : NameMap EntityInfo,
      entities.foldlM (fun update entity => do
        let id ← entityId entityName entity
        let followed ← follow entityName entity (versionsById.get? id)
        return update.merge followed) (followUpdate entityName infos) = .ok update ↔
      (∀ entity ∈ entities, ∃ id, entity.HoldsId id) ∧
        update = followUpdate entityName (entities.foldl (list versionsById) infos) from
    onto Keyed.empty
  intro infos
  induction entities generalizing infos with
  | nil =>
      rw [List.foldlM_nil, Except.pure_eq_ok]
      simp [eq_comm]
  | cons entity rest ih =>
      simp only [List.foldlM_cons, follow, Except.bind_eq_ok, Except.pure_eq_ok,
        List.forall_mem_cons, List.foldl_cons]
      constructor
      · rintro ⟨_, ⟨id, idOk, _, ⟨_, idOk', rfl⟩, rfl⟩, restOk⟩
        obtain rfl := Except.ok.inj (idOk.symm.trans idOk')
        have holds : entity.HoldsId id := entityId_eq_ok.1 idOk
        rw [followUpdate_put, ← list_eq holds] at restOk
        obtain ⟨restHold, rfl⟩ := (ih _).1 restOk
        exact ⟨⟨⟨id, holds⟩, restHold⟩, rfl⟩
      · rintro ⟨⟨⟨id, holds⟩, restHold⟩, rfl⟩
        have idOk : entityId entityName entity = .ok id := entityId_eq_ok.2 holds
        refine ⟨_, ⟨id, idOk, _, ⟨id, idOk, rfl⟩, rfl⟩, ?_⟩
        rw [followUpdate_put, ← list_eq holds]
        exact (ih _).2 ⟨restHold, rfl⟩

/-- An entity without an id fails the whole list. -/
theorem followAll_eq_error {entities : List Document} {entity : Document}
    (member : entity ∈ entities) (noId : ∀ id, ¬ entity.HoldsId id) :
    followAll entityName entities versionsById = .error (.missingId entityName) := by
  have missing : ∀ entity ∈ entities, ∀ (update : Update) error,
      (do
        let id ← entityId entityName entity
        let followed ← follow entityName entity (versionsById.get? id)
        return update.merge followed) = Except.error error → error = .missingId entityName := by
    intro entity _ update error failed
    unfold follow entityId at failed
    cases read : (entity.get? "id").bind Document.string? with
    | none =>
        rw [read] at failed
        cases failed
        rfl
    | some id =>
        rw [read] at failed
        cases failed
  cases followed : followAll entityName entities versionsById with
  | error error => exact congrArg Except.error (Except.error_of_foldlM missing followed)
  | ok update =>
      obtain ⟨id, holds⟩ := (followAll_eq_ok_iff.1 followed).1 entity member
      exact absurd holds (noId id)

theorem touchedEntities_followUpdate :
    touchedEntities (followUpdate entityName infos) =
      some (infos.toList.map fun known => (entityName, known.1)) := by
  have noRename : (followUpdate entityName infos).entries.toList.any
      (fun entry => entry.edit.operator = .rename) = false := by
    simp [followUpdate, followEntry, Edit.operator]
  rw [touchedEntities, noRename, Update.paths, followUpdate, List.map_map]
  simp only [Bool.false_eq_true, if_false]
  induction infos.toList with
  | nil => rfl
  | cons first rest ih =>
      have reaches : reach ((Entry.path ∘ followEntry entityName) first) =
          .entity entityName first.1 := rfl
      rw [List.map_cons, collectTouched, reaches, ih]
      rfl

theorem mem_touched_iff {other id : String} :
    (other, id) ∈ infos.toList.map (fun known => (entityName, known.1)) ↔
      other = entityName ∧ ∃ info, NameMap.get? id infos = some info := by
  simp only [List.mem_map, Prod.mk.injEq, NameMap.get?_eq]
  constructor
  · rintro ⟨known, member, rfl, rfl⟩
    exact ⟨rfl, known.2, Members.get?_of_mem infos.nodup_keys member⟩
  · rintro ⟨rfl, info, found⟩
    exact ⟨(id, info), Members.mem_of_get? found, rfl, rfl⟩

/-- Entities of one name are set one after another. -/
theorem foldlM_run_followEntry {known : List (String × EntityInfo)} {document result : Document}
    (distinct : (Members.keys known).Nodup) (holds : document.HoldsEntities)
    (ran : (known.map (followEntry entityName)).foldlM (Entry.run now) document = .ok result) :
    result.HoldsEntities ∧ Document.SameBeside document result ∧
      ∀ other id, result.entityAt other id =
        if other = entityName then
          ((Members.get? id known).map EntityInfo.toDocument).or (document.entityAt other id)
        else document.entityAt other id := by
  induction known generalizing document with
  | nil =>
      cases ran
      exact ⟨holds, fun _ _ => rfl, fun other id => by simp⟩
  | cons first rest ih =>
      rw [List.map_cons, List.foldlM_cons, Except.bind_eq_ok] at ran
      obtain ⟨between, firstRan, restRan⟩ := ran
      obtain ⟨notLater, restDistinct⟩ := List.nodup_cons.1 distinct
      have changed := Entry.changesEntity_of_set holds firstRan
      obtain ⟨resultHolds, beside, looked⟩ := ih restDistinct changed.holds restRan
      refine ⟨resultHolds, fun key differ => (beside key differ).trans (changed.beside key differ),
        fun other id => ?_⟩
      rw [looked, changed.entityAt]
      by_cases sameName : other = entityName
      · by_cases sameId : id = first.1
        · have missing : Members.get? first.1 rest = none := Members.get?_eq_none_iff.2 notLater
          simp [sameName, sameId, missing, Members.get?]
        · simp [sameName, sameId, Members.get?, Ne.symm sameId]
      · simp [sameName]

theorem exists_foldlM_run_followEntry {known : List (String × EntityInfo)} {document : Document}
    (holds : document.HoldsEntities)
    (addressable : ∀ member ∈ known, (entityPath entityName member.1).fault? = none)
    (now : Instant) :
    ∃ result, (known.map (followEntry entityName)).foldlM (Entry.run now) document =
      .ok result := by
  induction known generalizing document with
  | nil => exact ⟨document, rfl⟩
  | cons first rest ih =>
      obtain ⟨firstAddressable, restAddressable⟩ := List.forall_mem_cons.1 addressable
      obtain ⟨between, ran⟩ := Entry.exists_run_set holds firstAddressable now first.2.toDocument
      obtain ⟨result, restRan⟩ := ih (Entry.changesEntity_of_set holds ran).holds restAddressable
      refine ⟨result, ?_⟩
      rw [List.map_cons, List.foldlM_cons, followEntry, ran]
      exact restRan

/-- Nothing that is followed has commits. -/
def Clean (infos : NameMap EntityInfo) : Prop :=
  ∀ id info, NameMap.get? id infos = some info → ∃ entity versionId, info = .clean entity versionId

/-- Entities that were followed at once could be addressed, and are known as they are listed. -/
theorem known_of_applyCommand (isClean : Clean infos)
    (nonempty : (followUpdate entityName infos).isEmpty = false)
    (applied : state.applyCommand now (followUpdate entityName infos) = .ok next) :
    (∀ id info, NameMap.get? id infos = some info → (entityPath entityName id).fault? = none) ∧
      ∀ other id, next.find? other id =
        if other = entityName then (NameMap.get? id infos).or (state.find? other id)
        else state.find? other id := by
  obtain ⟨document, result, updated, read, found, _⟩ :=
    applyCommand_eq_ok nonempty touchedEntities_followUpdate applied
  refine ⟨fun id info isListed => fault?_of_touched touchedEntities_followUpdate updated
    (mem_touched_iff.2 ⟨rfl, info, isListed⟩), fun other id => ?_⟩
  obtain ⟨holds, _, looked⟩ :=
    foldlM_run_followEntry infos.nodup_keys (holdsEntities_toDocument _) updated
  rw [found]
  split
  next member =>
    obtain ⟨rfl, info, isListed⟩ := mem_touched_iff.1 member
    obtain ⟨entity, versionId, rfl⟩ := isClean id info isListed
    have reads := find?_of_ofDocument holds read other id
    rw [looked, if_pos rfl, ← NameMap.get?_eq, isListed] at reads
    rw [if_pos rfl, isListed, EntityInfo.eq_settled_of_readFrom reads (by simp [EntityInfo.clean])]
    rfl
  next notMember =>
    split
    next same =>
      have missing : NameMap.get? id infos = none := by
        refine Option.eq_none_iff_forall_ne_some.2 fun info isListed => ?_
        exact notMember (mem_touched_iff.2 ⟨same, info, isListed⟩)
      rw [missing, Option.none_or]
    · rfl

theorem exists_applyCommand_followUpdate (queue : state.QueueReads) (isClean : Clean infos)
    (nonempty : (followUpdate entityName infos).isEmpty = false)
    (addressable : ∀ id info, NameMap.get? id infos = some info →
      (entityPath entityName id).fault? = none) :
    ∃ next, state.applyCommand now (followUpdate entityName infos) = .ok next := by
  let touched := infos.toList.map fun known => (entityName, known.1)
  have before := holdsEntities_toDocument (state.scopedTo touched)
  obtain ⟨document, updated⟩ : ∃ document,
      (followUpdate entityName infos).apply now (state.scopedTo touched).toDocument =
        .ok document :=
    exists_foldlM_run_followEntry before (fun member isMember => addressable member.1 member.2
      ((NameMap.get?_eq _ _).trans (Members.get?_of_mem infos.nodup_keys isMember))) now
  obtain ⟨holds, beside, looked⟩ := foldlM_run_followEntry infos.nodup_keys before updated
  have readable : ∀ other id entity, document.entityAt other id = some entity →
      ∃ info, EntityInfo.ofDocument entity = .ok info := by
    intro other id entity found
    by_cases member : (other, id) ∈ touched
    · obtain ⟨rfl, info, isListed⟩ := mem_touched_iff.1 member
      obtain ⟨clean, versionId, rfl⟩ := isClean id info isListed
      rw [looked, if_pos rfl, ← NameMap.get?_eq, isListed] at found
      obtain rfl := Option.some.inj found
      exact ⟨_, EntityInfo.ofDocument_toDocument_eq_ok.2 ⟨[], rfl, rfl⟩⟩
    · have unknown : (state.scopedTo touched).toDocument.entityAt other id = none := by
        rw [entityAt_toDocument, find?_scopedTo, if_neg member, Option.map_none]
      have notListed : other = entityName → Members.get? id infos.toList = none := by
        intro same
        refine Option.eq_none_iff_forall_ne_some.2 fun info isListed => member ?_
        exact mem_touched_iff.2 ⟨same, info, (NameMap.get?_eq _ _).trans isListed⟩
      rw [looked, unknown] at found
      split at found
      next same => simp [notListed same] at found
      · cases found
  obtain ⟨result, read⟩ := exists_ofDocument holds beside (by exact queue) readable
  rw [applyCommand_eq nonempty touchedEntities_followUpdate, apply_eq, updated]
  exact ⟨_, congrArg (Except.map _ <| Except.mapError _ ·) read⟩

/-- Followable entities are listed under ids that can be addressed, and the other way round. -/
theorem followable_iff {entities : List Document} :
    (∀ entity ∈ entities, Followable entityName entity) ↔
      (∀ entity ∈ entities, ∃ id, entity.HoldsId id) ∧
        ∀ id info, NameMap.get? id (listed versionsById entities) = some info →
          (entityPath entityName id).fault? = none := by
  constructor
  · intro followable
    refine ⟨fun entity member => (followable entity member).imp fun _ both => both.1,
      fun id info found => ?_⟩
    obtain ⟨entity, member, holds⟩ := isSome_get?_listed.1 (Option.isSome_of_eq_some found)
    obtain ⟨other, otherHolds, addressable⟩ := followable entity member
    obtain rfl := Option.some.inj (otherHolds.symm.trans holds)
    exact addressable
  · rintro ⟨hold, addressable⟩ entity member
    obtain ⟨id, holds⟩ := hold entity member
    obtain ⟨info, found⟩ := Option.isSome_iff_exists.1
      (isSome_get?_listed.2 ⟨entity, member, holds⟩)
    exact ⟨id, holds, addressable id info found⟩

/-- Entities are followed at once when each of them can be addressed. -/
theorem exists_reduce_followAll {entities : List Document} (queue : state.QueueReads)
    (followable : ∀ entity ∈ entities, Followable entityName entity) :
    ∃ next, Action.reduce now state (.followAll entityName entities versionsById) = .ok next := by
  obtain ⟨hold, addressable⟩ := followable_iff.1 followable
  have updateOk : followAll entityName entities versionsById =
      .ok (followUpdate entityName (listed versionsById entities)) :=
    followAll_eq_ok_iff.2 ⟨hold, rfl⟩
  simp only [Action.reduce, Action.update, Except.bind_eq_ok]
  cases nonempty : (followUpdate entityName (listed versionsById entities)).isEmpty with
  | true => exact ⟨state, _, updateOk, if_pos nonempty⟩
  | false =>
      obtain ⟨next, applied⟩ := exists_applyCommand_followUpdate queue
        (fun _ _ => clean_of_get?_listed) nonempty addressable
      exact ⟨next, _, updateOk, applied⟩

/-- The entities that are followed at once can be addressed, and what they say is laid over the
state. -/
theorem overlays_of_followAll {entities : List Document}
    (reduced : Action.reduce now state (.followAll entityName entities versionsById) = .ok next) :
    (∀ entity ∈ entities, Followable entityName entity) ∧
      Overlays (listed versionsById entities) state next entityName := by
  have ⟨_, sameNames, sameFields⟩ := WithinParts.reduce (by simp) reduced
  simp only [Action.reduce, Action.update, Except.bind_eq_ok] at reduced
  obtain ⟨_, updateOk, applied⟩ := reduced
  obtain ⟨hold, rfl⟩ := followAll_eq_ok_iff.1 updateOk
  rw [followable_iff, and_assoc]
  refine ⟨hold, ?_⟩
  cases isEmpty : (listed versionsById entities).isEmpty with
  | true =>
      have nothing : listed versionsById entities = Keyed.empty :=
        Keyed.eq_of_toList_eq (List.isEmpty_iff.1 isEmpty)
      rw [nothing] at applied ⊢
      cases applied
      exact ⟨fun _ _ found => by simp at found, overlays_empty state entityName⟩
  | false =>
      have nonempty : (followUpdate entityName (listed versionsById entities)).isEmpty = false :=
        List.isEmpty_map.trans isEmpty
      obtain ⟨addressable, known⟩ :=
        known_of_applyCommand (fun _ _ => clean_of_get?_listed) nonempty applied
      refine ⟨addressable, known, fun other => ?_, ?_⟩
      · by_cases same : other = entityName
        · obtain ⟨id, isListed⟩ := (NameMap.isEmpty_eq_false_iff _).1 isEmpty
          obtain ⟨info, found⟩ := Option.isSome_iff_exists.1 isListed
          have nowKnown := known other id
          rw [if_pos same, found, Option.some_or] at nowKnown
          exact iff_of_true (Option.isSome_of_isSome_bind (Option.isSome_of_eq_some nowKnown))
            (.inr ⟨same, isEmpty⟩)
        · rw [sameNames other fun id reached => same reached.1]
          simp [same]
      · exact beside_eq_of_same fun field => sameFields field fun here => here

end LocalState

end LocalFirst
