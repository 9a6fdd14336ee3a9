import LocalFirst.Proofs.ScopedDocument

/-!
# What entries within the touched entities change

An entry that stays within the touched entities changes their documents and the members beside the
entities, and it loses no entity.  So a whole update runs on the restricted document as on the
document itself, entry by entry.
-/

namespace LocalFirst

namespace Edit

/-- What an edit can do to the document that holds its field: write the field, leave it as it is,
which an edit that creates only does with a field that is there, or take it away. -/
theorem act_eq_ok {now : Instant} {edit : Edit} {document result : Document} {key : String}
    (acted : edit.act now document key = .ok result) :
    (∃ value, document.setChild key value = .ok result) ∨
      (result = document ∧ (edit.creates = true → (document.child? key).isSome)) ∨
      ((edit.operator = .unset ∨ edit.operator = .rename) ∧ result = document.removeChild key) := by
  cases edit <;> simp only [act, combine, writeIf, runBits, growArray, shrinkArray] at acted
  case unset =>
    cases acted
    exact .inr (.inr ⟨.inl rfl, rfl⟩)
  case rename =>
    cases acted
    exact .inr (.inr ⟨.inr rfl, rfl⟩)
  all_goals
    repeat' split at acted
    all_goals first
      | exact .inl ⟨_, acted⟩
      | (cases acted; exact .inr (.inl ⟨rfl, by simp [*, creates]⟩))
      | cases acted

theorem topKeysDistinct_of_act {now : Instant} {edit : Edit} {document result : Document}
    {key : String} (isObject : document.IsObject) (distinct : document.TopKeysDistinct)
    (acted : edit.act now document key = .ok result) : result.TopKeysDistinct := by
  obtain ⟨value, written⟩ | ⟨rfl, _⟩ | ⟨_, rfl⟩ := act_eq_ok acted
  · rw [Document.setChild_of_isObject isObject] at written
    cases written
    exact Document.topKeysDistinct_put distinct key value
  · exact distinct
  · exact Document.topKeysDistinct_removeChild isObject distinct key

/-- An edit that takes nothing away leaves a field where there was one, or creates it. -/
theorem isSome_get?_of_act {now : Instant} {edit : Edit} {document result : Document}
    {key : String} (isObject : document.IsObject) (notUnset : edit.operator ≠ .unset)
    (notRename : edit.operator ≠ .rename) (acted : edit.act now document key = .ok result)
    (present : edit.creates = true ∨ (document.get? key).isSome) : (result.get? key).isSome := by
  obtain ⟨value, written⟩ | ⟨rfl, there⟩ | ⟨removes, _⟩ := act_eq_ok acted
  · rw [Document.setChild_of_isObject isObject] at written
    cases written
    rw [Document.get?_put_self isObject]
    rfl
  · rw [Document.child?_of_isObject isObject] at there
    exact present.elim there id
  · rcases removes with unset | rename
    · exact absurd unset notUnset
    · exact absurd rename notRename

end Edit

namespace Document

/-- The object with the entities of one name. -/
def namedAt (document : Document) (entityName : String) : Option Document :=
  (document.get? "entities").bind (get? entityName)

theorem entityAt_eq (document : Document) (entityName id : String) :
    document.entityAt entityName id = (document.namedAt entityName).bind (get? id) :=
  rfl

variable {document result : Document} {edit : Edit} {now : Instant} {key : String}
  {rest : List String}

/-- What an edit at a path changes in the object where the path begins. -/
theorem updateParent_of_isObject (isObject : document.IsObject)
    (distinct : document.TopKeysDistinct)
    (updated : document.updateParent edit.creates (edit.act now) (key :: rest) = .ok result) :
    result.IsObject ∧ result.TopKeysDistinct ∧
      (∀ other, other ≠ key → result.get? other = document.get? other) ∧
      (edit.operator ≠ .unset → edit.operator ≠ .rename →
        edit.creates = true ∨ (document.get? key).isSome → (result.get? key).isSome) := by
  cases rest with
  | nil =>
      exact ⟨Edit.isObject_of_act isObject updated,
        Edit.topKeysDistinct_of_act isObject distinct updated,
        fun other differ => Edit.get?_of_act isObject differ updated,
        fun notUnset notRename => Edit.isSome_get?_of_act isObject notUnset notRename updated⟩
  | cons next rest =>
      obtain ⟨child, node, _, _, rfl⟩ | ⟨missing, keeps, rfl⟩ := updateParent_cons isObject updated
      · refine ⟨isObject_put isObject key node, topKeysDistinct_put distinct key node,
          fun other differ => get?_put_of_ne differ node document, fun _ _ _ => ?_⟩
        rw [get?_put_self isObject]
        rfl
      · refine ⟨isObject, distinct, fun _ _ => rfl, fun _ _ present => ?_⟩
        simp [missing, keeps] at present

/-- An edit inside an entity changes the object of its name only, and creates it at most together
with the entity. -/
theorem updateParent_entity {entityName id : String} (holds : document.HoldsEntities)
    (updated : document.updateParent edit.creates (edit.act now)
      ("entities" :: entityName :: id :: rest) = .ok result) :
    result = document ∨ ∃ named node : Document,
      (document.namedAt entityName = some named ∨
        (document.namedAt entityName = none ∧ edit.creates = true ∧ named = emptyObject)) ∧
      named.IsObject ∧ named.TopKeysDistinct ∧
      named.updateParent edit.creates (edit.act now) (id :: rest) = .ok node ∧
      result.HoldsEntities ∧
      ∀ other, result.namedAt other =
        if other = entityName then some node else document.namedAt other := by
  have documentObject := holds.1
  obtain ⟨entities, found, entitiesObject, entitiesDistinct, namedObjects⟩ := holds.2
  obtain ⟨child, changed, childFound, entitiesUpdated, rfl⟩ | ⟨missing, _⟩ :=
    updateParent_cons documentObject updated
  swap
  · simp [found] at missing
  simp only [found, Option.some.injEq, reduceCtorEq, false_and, or_false] at childFound
  subst childFound
  have namedAtEq : ∀ other, document.namedAt other = entities.get? other := fun other => by
    rw [namedAt, found, Option.bind_some]
  obtain ⟨named, node, namedFound, namedUpdated, rfl⟩ | ⟨_, _, rfl⟩ :=
    updateParent_cons entitiesObject entitiesUpdated
  · have shape : named.IsObject ∧ named.TopKeysDistinct := by
      rcases namedFound with there | ⟨_, _, rfl⟩
      · exact namedObjects entityName named there
      · exact ⟨isObject_emptyObject, topKeysDistinct_emptyObject⟩
    obtain ⟨nodeObject, nodeDistinct, _⟩ :=
      updateParent_of_isObject shape.1 shape.2 namedUpdated
    refine .inr ⟨named, node, by rwa [namedAtEq], shape.1, shape.2, namedUpdated,
      holds.put_named found nodeObject nodeDistinct, fun other => ?_⟩
    rw [namedAt, get?_put_self documentObject, Option.bind_some, namedAtEq]
    split
    next same => rw [same, get?_put_self entitiesObject]
    next differ => rw [get?_put_of_ne differ]
  · exact .inl (put_of_get? found)

/-- Only touched entities may differ, and the name of a new entity may be new. -/
structure ChangesWithin (touched : List (String × String)) (document result : Document) :
    Prop where
  holds : result.HoldsEntities
  untouched : ∀ entityName id, (entityName, id) ∉ touched →
    result.entityAt entityName id = document.entityAt entityName id
  keepsNames : ∀ entityName, (document.namedAt entityName).isSome →
    (result.namedAt entityName).isSome
  newNames : ∀ entityName, (result.namedAt entityName).isSome →
    (document.namedAt entityName).isSome ∨ ∃ id, (entityName, id) ∈ touched

/-- No entity is gone, and a new name stands over a touched entity. -/
structure LosesNothing (touched : List (String × String)) (document result : Document) :
    Prop where
  keepsEntities : ∀ entityName id, (document.entityAt entityName id).isSome →
    (result.entityAt entityName id).isSome
  newNames : ∀ entityName, (result.namedAt entityName).isSome →
    (document.namedAt entityName).isSome ∨
      ∃ id, (entityName, id) ∈ touched ∧ (result.entityAt entityName id).isSome

variable {touched : List (String × String)}

theorem ChangesWithin.refl (holds : document.HoldsEntities) :
    ChangesWithin touched document document :=
  ⟨holds, fun _ _ _ => rfl, fun _ there => there, fun _ there => .inl there⟩

theorem LosesNothing.refl (document : Document) : LosesNothing touched document document :=
  ⟨fun _ _ there => there, fun _ there => .inl there⟩

theorem ChangesWithin.trans {between : Document} (first : ChangesWithin touched document between)
    (second : ChangesWithin touched between result) : ChangesWithin touched document result where
  holds := second.holds
  untouched entityName id notTouched :=
    (second.untouched entityName id notTouched).trans (first.untouched entityName id notTouched)
  keepsNames entityName there := second.keepsNames entityName (first.keepsNames entityName there)
  newNames entityName there :=
    (second.newNames entityName there).elim (first.newNames entityName) .inr

theorem LosesNothing.trans {between : Document} (first : LosesNothing touched document between)
    (second : LosesNothing touched between result) : LosesNothing touched document result where
  keepsEntities entityName id there :=
    second.keepsEntities entityName id (first.keepsEntities entityName id there)
  newNames entityName there := by
    rcases second.newNames entityName there with between | new
    · rcases first.newNames entityName between with before | ⟨id, member, entity⟩
      · exact .inl before
      · exact .inr ⟨id, member, second.keepsEntities entityName id entity⟩
    · exact .inr new

/-- What is beside the entities does not matter. -/
theorem ChangesWithin.of_entities (holds : document.HoldsEntities) (isObject : result.IsObject)
    (same : result.get? "entities" = document.get? "entities") :
    ChangesWithin touched document result := by
  have sameNamed : ∀ entityName, result.namedAt entityName = document.namedAt entityName :=
    fun entityName => by rw [namedAt, namedAt, same]
  exact ⟨⟨isObject, same ▸ holds.entities⟩,
    fun _ _ _ => by rw [entityAt_eq, entityAt_eq, sameNamed],
    fun _ there => sameNamed _ ▸ there, fun _ there => .inl (sameNamed _ ▸ there)⟩

theorem LosesNothing.of_entities (same : result.get? "entities" = document.get? "entities") :
    LosesNothing touched document result := by
  have sameNamed : ∀ entityName, result.namedAt entityName = document.namedAt entityName :=
    fun entityName => by rw [namedAt, namedAt, same]
  refine ⟨fun _ _ there => ?_, fun _ there => .inl (sameNamed _ ▸ there)⟩
  rwa [entityAt_eq, sameNamed, ← entityAt_eq]

/-- The object of one name is there and differs in one entity, everything else is the same. -/
structure ChangesOne (entityName id : String) (document result : Document) : Prop where
  holds : result.HoldsEntities
  named : (result.namedAt entityName).isSome
  otherNames : ∀ other, other ≠ entityName → result.namedAt other = document.namedAt other
  otherEntities : ∀ other otherId, ¬ (other = entityName ∧ otherId = id) →
    result.entityAt other otherId = document.entityAt other otherId

theorem ChangesOne.changesWithin {entityName id : String}
    (changes : ChangesOne entityName id document result) (member : (entityName, id) ∈ touched) :
    ChangesWithin touched document result where
  holds := changes.holds
  untouched other otherId notTouched := by
    refine changes.otherEntities other otherId ?_
    rintro ⟨rfl, rfl⟩
    exact notTouched member
  keepsNames other before := by
    by_cases same : other = entityName
    · exact same ▸ changes.named
    · rwa [changes.otherNames other same]
  newNames other after := by
    by_cases same : other = entityName
    · exact .inr ⟨id, same ▸ member⟩
    · exact .inl (changes.otherNames other same ▸ after)

theorem ChangesOne.losesNothing {entityName id : String}
    (changes : ChangesOne entityName id document result) (member : (entityName, id) ∈ touched)
    (keeps : (document.entityAt entityName id).isSome → (result.entityAt entityName id).isSome)
    (creates : (document.namedAt entityName).isSome ∨ (result.entityAt entityName id).isSome) :
    LosesNothing touched document result where
  keepsEntities other otherId before := by
    by_cases here : other = entityName ∧ otherId = id
    · obtain ⟨rfl, rfl⟩ := here
      exact keeps before
    · rwa [changes.otherEntities other otherId here]
  newNames other after := by
    by_cases same : other = entityName
    · subst same
      exact creates.imp_right fun entity => ⟨id, member, entity⟩
    · exact .inl (changes.otherNames other same ▸ after)

end Document

namespace Entry

open Document

theorem changesWithin_of_run {touched : List (String × String)} {now : Instant} {entry : Entry}
    {document result : Document} (holds : document.HoldsEntities)
    (within : entry.StaysWithin touched) (ran : entry.run now document = .ok result) :
    ChangesWithin touched document result ∧
      (entry.edit.operator ≠ .unset → LosesNothing touched document result) := by
  have notRename := within.1
  obtain ⟨path, edit⟩ := entry
  obtain ⟨segments⟩ := path
  obtain ⟨_, ⟨root, rest, rfl, outside⟩ | ⟨entityName, id, rest, rfl, member⟩⟩ := within
  · obtain ⟨isObject, same⟩ := get?_of_run_outside holds.isObject notRename ran
    have sameEntities := same "entities" (Ne.symm outside)
    exact ⟨.of_entities holds isObject sameEntities, fun _ => .of_entities sameEntities⟩
  · obtain rfl |
        ⟨named, node, namedFound, namedObject, namedDistinct, updated, resultHolds, looks⟩ :=
      updateParent_entity holds (updateParent_of_run notRename ran)
    · exact ⟨.refl holds, fun _ => .refl result⟩
    obtain ⟨_, _, others, present⟩ :=
      updateParent_of_isObject namedObject namedDistinct updated
    have before : ∀ other, document.entityAt entityName other = named.get? other := by
      intro other
      rw [entityAt_eq]
      rcases namedFound with there | ⟨missing, _, rfl⟩
      · rw [there, Option.bind_some]
      · rw [missing]
        rfl
    have after : ∀ other, result.entityAt entityName other = node.get? other := by
      intro other
      rw [entityAt_eq, looks, if_pos rfl, Option.bind_some]
    have changes : ChangesOne entityName id document result := by
      refine ⟨resultHolds, ?_, fun other differ => ?_, fun other otherId differ => ?_⟩
      · rw [looks, if_pos rfl]
        rfl
      · rw [looks, if_neg differ]
      · by_cases same : other = entityName
        · subst same
          rw [after, before, others otherId fun sameId => differ ⟨rfl, sameId⟩]
        · rw [entityAt_eq, looks, if_neg same, ← entityAt_eq]
    refine ⟨changes.changesWithin member, fun notUnset => changes.losesNothing member ?_ ?_⟩
    · rw [before, after]
      exact fun there => present notUnset notRename (.inr there)
    · rw [after]
      rcases namedFound with found | ⟨_, creates, _⟩
      · exact .inl (by rw [found]; rfl)
      · exact .inr (present notUnset notRename (.inl creates))

/-- Entries that stay within what is touched, one after another. -/
theorem foldlM_run_scopedTo {touched : List (String × String)} (now : Instant)
    {entries : List Entry} {document : Document} (holds : document.HoldsEntities)
    (within : ∀ entry ∈ entries, entry.StaysWithin touched) :
    entries.foldlM (Entry.run now) (document.scopedTo touched) =
        (entries.foldlM (Entry.run now) document).map (Document.scopedTo touched) ∧
      ∀ result, entries.foldlM (Entry.run now) document = .ok result →
        ChangesWithin touched document result ∧
          ((∀ entry ∈ entries, entry.edit.operator ≠ .unset) →
            LosesNothing touched document result) := by
  induction entries generalizing document with
  | nil =>
      refine ⟨rfl, fun result ran => ?_⟩
      cases ran
      exact ⟨.refl holds, fun _ => .refl document⟩
  | cons entry rest ih =>
      obtain ⟨firstWithin, restWithin⟩ := List.forall_mem_cons.1 within
      simp only [List.foldlM_cons, run_scopedTo now holds firstWithin]
      cases ran : entry.run now document with
      | error error => exact ⟨rfl, by simp⟩
      | ok between =>
          obtain ⟨changes, loses⟩ := changesWithin_of_run holds firstWithin ran
          obtain ⟨same, restChanges⟩ := ih changes.holds restWithin
          refine ⟨same, fun result restRan => ?_⟩
          obtain ⟨changesRest, losesRest⟩ := restChanges result restRan
          refine ⟨changes.trans changesRest, fun noUnset => ?_⟩
          obtain ⟨firstKeeps, restKeeps⟩ := List.forall_mem_cons.1 noUnset
          exact (loses firstKeeps).trans (losesRest restKeeps)

end Entry

end LocalFirst
