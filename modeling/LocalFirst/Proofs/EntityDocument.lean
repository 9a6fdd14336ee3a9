import LocalFirst.Proofs.Replay

/-!
# The documents of entities within a document

In the document of a state an entity is a member of the object of its name.  What an edit at a path
of an entity does to the document is told by two look-ups: the document of each entity, and the
members beside the entities.
-/

namespace LocalFirst

namespace Document

@[simp]
theorem get?_object (key : String) (members : List (String × Document)) :
    (object members).get? key = Members.get? key members :=
  rfl

/-- Write a member, if the document is an object. -/
def put (document : Document) (key : String) (value : Document) : Document :=
  match document with
  | .object members => .object (Members.put key value members)
  | other => other

theorem isObject_put {document : Document} (isObject : document.IsObject) (key : String)
    (value : Document) : (document.put key value).IsObject := by
  obtain ⟨members, rfl⟩ := isObject
  exact ⟨_, rfl⟩

theorem get?_put_self {document : Document} (isObject : document.IsObject) (key : String)
    (value : Document) : (document.put key value).get? key = some value := by
  obtain ⟨members, rfl⟩ := isObject
  exact Members.get?_put_self key value members

theorem put_of_get? {document value : Document} {key : String}
    (found : document.get? key = some value) : document.put key value = document := by
  cases document with
  | object members => exact congrArg object (Members.put_of_get? found)
  | _ => cases found

theorem get?_put_of_ne {key other : String} (differ : other ≠ key) (value document : Document) :
    (document.put key value).get? other = document.get? other := by
  cases document with
  | object members => exact Members.get?_put_of_ne value members differ
  | _ => rfl

theorem topKeysDistinct_put {document : Document} (distinct : document.TopKeysDistinct)
    (key : String) (value : Document) : (document.put key value).TopKeysDistinct := by
  cases document with
  | object members =>
      rintro _ ⟨⟩
      exact Members.nodup_keys_put (distinct members rfl)
  | _ => exact distinct

theorem setChild_of_isObject {document : Document} (isObject : document.IsObject) (key : String)
    (value : Document) : document.setChild key value = .ok (document.put key value) := by
  obtain ⟨members, rfl⟩ := isObject
  rfl

theorem child?_of_isObject {document : Document} (isObject : document.IsObject) (key : String) :
    document.child? key = document.get? key := by
  obtain ⟨members, rfl⟩ := isObject
  rfl

theorem get?_removeChild_self {document : Document} {key : String}
    (isObject : document.IsObject) (distinct : document.TopKeysDistinct) :
    (document.removeChild key).get? key = none := by
  obtain ⟨members, rfl⟩ := isObject
  exact Members.get?_erase_self (distinct members rfl)

theorem get?_removeChild_of_ne {document : Document} {key other : String}
    (isObject : document.IsObject) (differ : other ≠ key) :
    (document.removeChild key).get? other = document.get? other := by
  obtain ⟨members, rfl⟩ := isObject
  exact Members.get?_erase_of_ne members differ

theorem topKeysDistinct_removeChild {document : Document} (isObject : document.IsObject)
    (distinct : document.TopKeysDistinct) (key : String) :
    (document.removeChild key).TopKeysDistinct := by
  obtain ⟨members, rfl⟩ := isObject
  rintro _ ⟨⟩
  exact Members.nodup_keys_erase (distinct members rfl)

@[simp]
theorem isObject_emptyObject : emptyObject.IsObject :=
  ⟨[], rfl⟩

theorem topKeysDistinct_emptyObject : emptyObject.TopKeysDistinct := by
  rintro _ ⟨⟩
  exact List.nodup_nil

/-- An edit below a member of an object changes that member, which an edit that
creates finds empty when it is missing.  Any other edit then does nothing. -/
theorem updateParent_cons {create : Bool}
    {act : Document → String → Except EntryFault Document} {document result : Document}
    {segment next : String} {rest : List String} (isObject : document.IsObject)
    (updated : document.updateParent create act (segment :: next :: rest) = .ok result) :
    (∃ child node : Document,
      (document.get? segment = some child ∨
        (document.get? segment = none ∧ create = true ∧ child = emptyObject)) ∧
      child.updateParent create act (next :: rest) = .ok node ∧
      result = document.put segment node) ∨
    (document.get? segment = none ∧ create = false ∧ result = document) := by
  simp only [updateParent, child?_of_isObject isObject] at updated
  split at updated
  next child found =>
    simp only [Except.bind_eq_ok, setChild_of_isObject isObject, Except.ok.injEq] at updated
    obtain ⟨node, childUpdated, rfl⟩ := updated
    exact .inl ⟨child, node, .inl found, childUpdated, rfl⟩
  next missing =>
    split at updated
    next creates =>
      have grownObject := isObject_put isObject segment emptyObject
      simp only [setChild_of_isObject isObject, Except.bind_eq_ok, Except.ok.injEq] at updated
      obtain ⟨_, rfl, updated⟩ := updated
      simp only [child?_of_isObject grownObject, get?_put_self isObject, Except.bind_eq_ok,
        setChild_of_isObject grownObject, Except.ok.injEq] at updated
      obtain ⟨node, childUpdated, rfl⟩ := updated
      refine .inl ⟨emptyObject, node, .inr ⟨missing, creates, rfl⟩, childUpdated, ?_⟩
      obtain ⟨members, rfl⟩ := isObject
      simp [put, Members.put_put]
    next keeps =>
      cases updated
      exact .inr ⟨missing, by simpa using keeps, rfl⟩

/-- The document of an entity in the document of a state. -/
def entityAt (document : Document) (entityName id : String) : Option Document :=
  ((document.get? "entities").bind (get? entityName)).bind (get? id)

/-- The entities stand in objects without repeated keys, by name and by id. -/
structure HoldsEntities (document : Document) : Prop where
  isObject : document.IsObject
  entities : ∃ entities, document.get? "entities" = some entities ∧ entities.IsObject ∧
    entities.TopKeysDistinct ∧ ∀ entityName named, entities.get? entityName = some named →
      named.IsObject ∧ named.TopKeysDistinct

/-- The same members beside the entities. -/
def SameBeside (document other : Document) : Prop :=
  ∀ key, key ≠ "entities" → other.get? key = document.get? key

/-- Writing the object of one name. -/
theorem HoldsEntities.put_named {document entities named : Document} {entityName : String}
    (holds : document.HoldsEntities) (found : document.get? "entities" = some entities)
    (isObject : named.IsObject) (distinct : named.TopKeysDistinct) :
    (document.put "entities" (entities.put entityName named)).HoldsEntities := by
  obtain ⟨documentObject, entities', found', entitiesObject, entitiesDistinct, namedObjects⟩ := holds
  obtain rfl := Option.some.inj (found.symm.trans found')
  refine ⟨isObject_put documentObject _ _, _, get?_put_self documentObject _ _,
    isObject_put entitiesObject _ _, topKeysDistinct_put entitiesDistinct _ _, ?_⟩
  intro other otherNamed otherFound
  by_cases same : other = entityName
  · subst same
    obtain rfl := Option.some.inj ((get?_put_self entitiesObject _ _).symm.trans otherFound)
    exact ⟨isObject, distinct⟩
  · rw [get?_put_of_ne same] at otherFound
    exact namedObjects other otherNamed otherFound

theorem entityAt_put_named {document entities named : Document} {entityName : String}
    (holds : document.HoldsEntities) (found : document.get? "entities" = some entities)
    (other id : String) :
    (document.put "entities" (entities.put entityName named)).entityAt other id =
      if other = entityName then named.get? id else document.entityAt other id := by
  obtain ⟨documentObject, entities', found', entitiesObject, _⟩ := holds
  obtain rfl := Option.some.inj (found.symm.trans found')
  simp only [entityAt, get?_put_self documentObject, found, Option.bind_some]
  split
  next same =>
    subst same
    simp [get?_put_self entitiesObject]
  next differ => rw [get?_put_of_ne differ]

/-- An edit below a name changes the object of that name only. -/
theorem updateParent_named {create : Bool}
    {act : Document → String → Except EntryFault Document} {document result : Document}
    {entityName id : String} {rest : List String} (holds : document.HoldsEntities)
    (updated : document.updateParent create act ("entities" :: entityName :: id :: rest) =
      .ok result) :
    (∃ named node : Document,
      named.IsObject ∧ named.TopKeysDistinct ∧
      (∀ other, document.entityAt entityName other = named.get? other) ∧
      named.updateParent create act (id :: rest) = .ok node ∧
      (node.IsObject → node.TopKeysDistinct → result.HoldsEntities) ∧
      SameBeside document result ∧
      ∀ other otherId, result.entityAt other otherId =
        if other = entityName then node.get? otherId else document.entityAt other otherId) ∨
    (create = false ∧ (∀ other, document.entityAt entityName other = none) ∧
      result = document) := by
  have ⟨documentObject, entities, entitiesFound, entitiesObject, _, namedObjects⟩ := holds
  obtain ⟨child, changed, childFound, entitiesUpdated, rfl⟩ | ⟨missing, _⟩ :=
    updateParent_cons documentObject updated
  swap
  · simp [entitiesFound] at missing
  simp only [entitiesFound, Option.some.injEq, reduceCtorEq, false_and, or_false] at childFound
  subst childFound
  obtain ⟨named, node, namedFound, namedUpdated, rfl⟩ | ⟨missing, keeps, rfl⟩ :=
    updateParent_cons entitiesObject entitiesUpdated
  · have shape : named.IsObject ∧ named.TopKeysDistinct ∧
        ∀ other, document.entityAt entityName other = named.get? other := by
      rcases namedFound with found | ⟨missing, _, rfl⟩
      · obtain ⟨isObject, distinct⟩ := namedObjects entityName named found
        exact ⟨isObject, distinct, fun other => by simp [entityAt, entitiesFound, found]⟩
      · refine ⟨isObject_emptyObject, topKeysDistinct_emptyObject, fun other => ?_⟩
        simp only [entityAt, entitiesFound, missing, Option.bind_some, Option.bind_none]
        rfl
    exact .inl ⟨named, node, shape.1, shape.2.1, shape.2.2, namedUpdated,
      fun isObject distinct => holds.put_named entitiesFound isObject distinct,
      fun key differ => get?_put_of_ne differ _ _, entityAt_put_named holds entitiesFound⟩
  · exact .inr ⟨keeps, fun other => by simp [entityAt, entitiesFound, missing],
      put_of_get? entitiesFound⟩

/-- Only one entity may differ; its document is now the given one. -/
structure ChangesEntity (document result : Document) (entityName id : String)
    (value : Option Document) : Prop where
  holds : result.HoldsEntities
  beside : SameBeside document result
  entityAt : ∀ other otherId, result.entityAt other otherId =
    if other = entityName ∧ otherId = id then value else document.entityAt other otherId

theorem ChangesEntity.trans {document between result : Document} {entityName id : String}
    {first second : Option Document} (before : ChangesEntity document between entityName id first)
    (after : ChangesEntity between result entityName id second) :
    ChangesEntity document result entityName id second where
  holds := after.holds
  beside key differ := (after.beside key differ).trans (before.beside key differ)
  entityAt other otherId := by
    rw [after.entityAt, before.entityAt]
    split <;> rfl

end Document

end LocalFirst
