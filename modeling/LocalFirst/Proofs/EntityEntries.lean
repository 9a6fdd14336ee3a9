import LocalFirst.Proofs.EntityDocument
import LocalFirst.State.Basic

/-!
# Entries at the fields of an entity

An entry of an update whose path leads into an entity changes the document of this entity only, and
one whose path leads elsewhere changes none.
-/

namespace LocalFirst

namespace Edit

theorem get?_of_act {now : Instant} {edit : Edit} {document result : Document}
    {key other : String} (isObject : document.IsObject) (differ : other ≠ key)
    (acted : edit.act now document key = .ok result) : result.get? other = document.get? other := by
  have written : ∀ {value result : Document}, document.setChild key value = .ok result →
      result.get? other = document.get? other := by
    intro value result written
    rw [Document.setChild_of_isObject isObject] at written
    cases written
    exact Document.get?_put_of_ne differ value document
  cases edit <;> simp only [act, combine, writeIf, runBits, growArray, shrinkArray] at acted
  case unset | rename =>
    cases acted
    exact Document.get?_removeChild_of_ne isObject differ
  all_goals
    repeat' split at acted
    all_goals first
      | exact written acted
      | (cases acted; rfl)
      | cases acted

end Edit

namespace Entry

open Document

theorem updateParent_of_run {now : Instant} {entry : Entry} {document result : Document}
    (notRename : entry.edit.operator ≠ .rename) (ran : entry.run now document = .ok result) :
    document.updateParent entry.edit.creates (entry.edit.act now) entry.path.segments =
      .ok result := by
  unfold run at ran
  split at ran
  next name same => simp [same, Edit.operator] at notRename
  · rw [blame_eq_ok, atParent] at ran
    split at ran
    · cases ran
    · exact ran

/-- Setting an entity as a whole. -/
theorem changesEntity_of_set {now : Instant} {document result value : Document}
    {entityName id : String} (holds : document.HoldsEntities)
    (ran : run now document ⟨entityPath entityName id, .set value⟩ = .ok result) :
    ChangesEntity document result entityName id (some value) := by
  have updated := updateParent_of_run (by simp [Edit.operator]) ran
  obtain ⟨named, node, isObject, distinct, looks, written, resultHolds, beside, looked⟩ |
    ⟨creates, _⟩ := updateParent_named holds updated
  · simp only [updateParent, Edit.act, setChild_of_isObject isObject, Except.ok.injEq] at written
    subst written
    refine ⟨resultHolds (isObject_put isObject _ _) (topKeysDistinct_put distinct _ _), beside,
      fun other otherId => ?_⟩
    rw [looked]
    by_cases sameName : other = entityName
    · by_cases sameId : otherId = id
      · simp [sameName, sameId, get?_put_self isObject]
      · simp [sameName, sameId, get?_put_of_ne, looks]
    · simp [sameName]
  · cases creates

theorem changesEntity_of_unset {now : Instant} {document result : Document}
    {entityName id : String} (holds : document.HoldsEntities)
    (ran : run now document ⟨entityPath entityName id, .unset⟩ = .ok result) :
    ChangesEntity document result entityName id none := by
  have updated := updateParent_of_run (by simp [Edit.operator]) ran
  obtain ⟨named, node, isObject, distinct, looks, removed, resultHolds, beside, looked⟩ |
    ⟨_, missing, rfl⟩ := updateParent_named holds updated
  · simp only [updateParent, Edit.act, Except.ok.injEq] at removed
    subst removed
    refine ⟨resultHolds (isObject_removeChild _ isObject)
      (topKeysDistinct_removeChild isObject distinct _), beside, fun other otherId => ?_⟩
    rw [looked]
    by_cases sameName : other = entityName
    · by_cases sameId : otherId = id
      · simp [sameName, sameId, get?_removeChild_self isObject distinct]
      · simp [sameName, sameId, get?_removeChild_of_ne isObject sameId, looks]
    · simp [sameName]
  · refine ⟨holds, fun _ _ => rfl, fun other otherId => ?_⟩
    split
    next same => rw [same.1, missing]
    · rfl

/-- An edit of a field of an entity acts on the document of the entity. -/
theorem changesEntity_of_field {now : Instant} {document result entity : Document}
    {entityName id field : String} {edit : Edit} (holds : document.HoldsEntities)
    (found : document.entityAt entityName id = some entity)
    (notRename : edit.operator ≠ .rename)
    (ran : run now document ⟨entityField entityName id field, edit⟩ = .ok result) :
    ∃ node, edit.act now entity field = .ok node ∧
      ChangesEntity document result entityName id (some node) := by
  have updated := updateParent_of_run notRename ran
  obtain ⟨named, node, namedObject, distinct, looks, namedUpdated, resultHolds, beside, looked⟩ |
    ⟨_, missing, _⟩ := updateParent_named holds updated
  · rw [looks] at found
    obtain ⟨child, changed, childFound, acted, rfl⟩ | ⟨missing, _⟩ :=
      updateParent_cons namedObject namedUpdated
    · simp only [found, Option.some.injEq, reduceCtorEq, false_and, or_false] at childFound
      subst childFound
      refine ⟨changed, acted, resultHolds (isObject_put namedObject _ _)
        (topKeysDistinct_put distinct _ _), beside, fun other otherId => ?_⟩
      rw [looked]
      by_cases sameName : other = entityName
      · by_cases sameId : otherId = id
        · simp [sameName, sameId, get?_put_self namedObject]
        · simp [sameName, sameId, get?_put_of_ne, looks]
      · simp [sameName]
    · simp [found] at missing
  · simp [missing] at found

/-- Setting a name to the empty object. -/
theorem entityAt_of_clear {now : Instant} {document result : Document} {entityName : String}
    (holds : document.HoldsEntities)
    (ran : run now document ⟨⟨["entities", entityName]⟩, .set emptyObject⟩ = .ok result) :
    result.HoldsEntities ∧ SameBeside document result ∧ ∀ other otherId,
      result.entityAt other otherId =
        if other = entityName then none else document.entityAt other otherId := by
  have updated := updateParent_of_run (by simp [Edit.operator]) ran
  have documentObject := holds.1
  obtain ⟨entities, entitiesFound, entitiesObject, _⟩ := holds.2
  obtain ⟨child, node, childFound, written, rfl⟩ | ⟨missing, _⟩ :=
    updateParent_cons documentObject updated
  · simp only [entitiesFound, Option.some.injEq, reduceCtorEq, false_and, or_false] at childFound
    subst childFound
    simp only [updateParent, Edit.act, setChild_of_isObject entitiesObject, Except.ok.injEq]
      at written
    subst written
    exact ⟨holds.put_named entitiesFound isObject_emptyObject topKeysDistinct_emptyObject,
      fun key differ => get?_put_of_ne differ _ _, entityAt_put_named holds entitiesFound⟩
  · simp [entitiesFound] at missing

/-- An edit outside the entities changes one member beside them. -/
theorem get?_of_run_outside {now : Instant} {document result : Document} {root : String}
    {rest : List String} {edit : Edit} (isObject : document.IsObject)
    (notRename : edit.operator ≠ .rename)
    (ran : run now document ⟨⟨root :: rest⟩, edit⟩ = .ok result) :
    result.IsObject ∧ ∀ key, key ≠ root → result.get? key = document.get? key := by
  refine ⟨isObject_of_run isObject ran, fun key differ => ?_⟩
  have updated := updateParent_of_run notRename ran
  cases rest with
  | nil => exact Edit.get?_of_act isObject differ updated
  | cons next rest =>
      obtain ⟨_, node, _, _, rfl⟩ | ⟨_, _, rfl⟩ := updateParent_cons isObject updated
      · exact get?_put_of_ne differ node document
      · rfl

theorem holdsEntities_of_run_outside {now : Instant} {document result : Document} {root : String}
    {rest : List String} {edit : Edit} (holds : document.HoldsEntities)
    (notRename : edit.operator ≠ .rename) (outside : root ≠ "entities")
    (ran : run now document ⟨⟨root :: rest⟩, edit⟩ = .ok result) :
    result.HoldsEntities ∧ ∀ entityName id,
      result.entityAt entityName id = document.entityAt entityName id := by
  obtain ⟨isObject, same⟩ := get?_of_run_outside holds.isObject notRename ran
  have sameEntities := same "entities" (Ne.symm outside)
  exact ⟨⟨isObject, sameEntities ▸ holds.entities⟩,
    fun entityName id => by rw [entityAt, entityAt, sameEntities]⟩

end Entry

end LocalFirst
