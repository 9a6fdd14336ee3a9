import LocalFirst.Proofs.WithEntity

/-!
# Entities that are listed to be followed

A list of entities is laid over what a state knows: under each id, what is listed last.
-/

namespace LocalFirst

instance (document : Document) (id : String) : Decidable (document.HoldsId id) :=
  inferInstanceAs (Decidable (_ = some id))

namespace LocalState

variable {state next : LocalState} {entityName : String} {versionsById : NameMap String}
  {infos : NameMap EntityInfo}

/-- List an entity under the id that it holds, at its version in the map. -/
def list (versionsById : NameMap String) (infos : NameMap EntityInfo) (entity : Document) :
    NameMap EntityInfo :=
  match (entity.get? "id").bind Document.string? with
  | none => infos
  | some id => infos.put id (.clean entity (versionsById.get? id))

/-- What a list of entities says about each id. -/
def listed (versionsById : NameMap String) (entities : List Document) : NameMap EntityInfo :=
  entities.foldl (list versionsById) Keyed.empty

theorem list_eq {entity : Document} {id : String} (holds : entity.HoldsId id) :
    list versionsById infos entity = infos.put id (.clean entity (versionsById.get? id)) := by
  rw [list, show (entity.get? "id").bind Document.string? = some id from holds]

theorem get?_list (entity : Document) (id : String) :
    NameMap.get? id (list versionsById infos entity) =
      if entity.HoldsId id then some (.clean entity (versionsById.get? id))
      else NameMap.get? id infos := by
  cases read : (entity.get? "id").bind Document.string? with
  | none => simp [list, Document.HoldsId, read]
  | some other =>
      rw [list_eq read]
      by_cases same : other = id
      · simp [Document.HoldsId, read, same]
      · simp [Document.HoldsId, read, same, NameMap.get?_put_of_ne (Ne.symm same)]

/-- The last entity that holds an id counts. -/
theorem get?_foldl_list (entities : List Document) (id : String) :
    NameMap.get? id (entities.foldl (list versionsById) infos) =
      ((entities.filter (·.HoldsId id)).getLast?.map fun entity =>
        EntityInfo.clean entity (versionsById.get? id)).or (NameMap.get? id infos) := by
  induction entities generalizing infos with
  | nil => rfl
  | cons entity rest ih =>
      rw [List.foldl_cons, ih, get?_list]
      by_cases holds : entity.HoldsId id
      · rw [List.filter_cons_of_pos (by simpa using holds), List.getLast?_cons, if_pos holds]
        cases (rest.filter (·.HoldsId id)).getLast? <;> rfl
      · rw [List.filter_cons_of_neg (by simpa using holds), if_neg holds]

theorem get?_listed (entities : List Document) (id : String) :
    NameMap.get? id (listed versionsById entities) =
      (entities.filter (·.HoldsId id)).getLast?.map fun entity =>
        EntityInfo.clean entity (versionsById.get? id) :=
  (get?_foldl_list entities id).trans Option.or_none

theorem get?_listed_of_last {before after : List Document} {entity : Document} {id : String}
    (holds : entity.HoldsId id) (last : ∀ later ∈ after, ¬ later.HoldsId id) :
    NameMap.get? id (listed versionsById (before ++ entity :: after)) =
      some (.clean entity (versionsById.get? id)) := by
  have noLater : after.filter (·.HoldsId id) = [] :=
    List.filter_eq_nil_iff.2 fun later member => by simpa using last later member
  rw [get?_listed, List.filter_append, List.filter_cons_of_pos (by simpa using holds), noLater,
    List.getLast?_concat]
  rfl

theorem isSome_get?_listed {entities : List Document} {id : String} :
    (NameMap.get? id (listed versionsById entities)).isSome ↔
      ∃ entity ∈ entities, entity.HoldsId id := by
  rw [get?_listed, Option.isSome_map, List.getLast?_isSome, ne_eq, List.filter_eq_nil_iff]
  simp

/-- Nothing that is listed has commits. -/
theorem clean_of_get?_listed {entities : List Document} {id : String} {info : EntityInfo}
    (found : NameMap.get? id (listed versionsById entities) = some info) :
    ∃ entity versionId, info = .clean entity versionId := by
  rw [get?_listed, Option.map_eq_some_iff] at found
  obtain ⟨entity, _, rfl⟩ := found
  exact ⟨entity, _, rfl⟩

/-- Nothing differs but the listed entities of one name, which are as they are listed. -/
structure Overlays (infos : NameMap EntityInfo) (state next : LocalState) (entityName : String) :
    Prop where
  known : ∀ other id, next.find? other id =
    if other = entityName then (NameMap.get? id infos).or (state.find? other id)
    else state.find? other id
  names : ∀ other, (next.entities.get? other).isSome ↔
    (state.entities.get? other).isSome ∨ other = entityName ∧ infos.isEmpty = false
  beside : { next with entities := Keyed.empty } = { state with entities := Keyed.empty }

theorem Overlays.unique {other : LocalState} (overlays : Overlays infos state next entityName)
    (otherOverlays : Overlays infos state other entityName) : next = other :=
  eq_of_entities
    (eq_of_lookUp
      (fun name => Bool.eq_iff_iff.2 ((overlays.names name).trans (otherOverlays.names name).symm))
      fun name id => (overlays.known name id).trans (otherOverlays.known name id).symm)
    (overlays.beside.trans otherOverlays.beside.symm)

theorem overlays_empty (state : LocalState) (entityName : String) :
    Overlays Keyed.empty state state entityName where
  known other id := by simp
  names other := by simp [Keyed.isEmpty, Keyed.empty]
  beside := rfl

/-- One more entity is laid over the state. -/
theorem Overlays.put (overlays : Overlays infos state next entityName) (id : String)
    (info : EntityInfo) :
    Overlays (infos.put id info) state (next.withEntity entityName id info) entityName where
  known other otherId := by
    rw [find?_withEntity, overlays.known]
    by_cases sameName : other = entityName
    · by_cases sameId : otherId = id
      · simp [sameName, sameId]
      · simp [sameName, sameId, NameMap.get?_put_of_ne sameId]
    · simp [sameName]
  names other := by
    have nonempty : (infos.put id info).isEmpty = false :=
      (NameMap.isEmpty_eq_false_iff _).2 ⟨id, by simp⟩
    by_cases same : other = entityName
    · simp [withEntity, same, nonempty]
    · rw [withEntity, NameMap.get?_put_of_ne same, overlays.names]
      simp [same]
  beside := overlays.beside

/-- The entity can be addressed by the id that it holds. -/
def Followable (entityName : String) (entity : Document) : Prop :=
  ∃ id, entity.HoldsId id ∧ (entityPath entityName id).fault? = none

/-- The version that a map has for an entity. -/
def versionOf (versionsById : NameMap String) (entity : Document) : Option String :=
  ((entity.get? "id").bind Document.string?).bind fun id => versionsById.get? id

theorem versionOf_eq {entity : Document} {id : String} (holds : entity.HoldsId id) :
    versionOf versionsById entity = versionsById.get? id := by
  rw [versionOf, show (entity.get? "id").bind Document.string? = some id from holds,
    Option.bind_some]

end LocalState

end LocalFirst
