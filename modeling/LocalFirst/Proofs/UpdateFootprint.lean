import LocalFirst.Proofs.ScopedApplication

/-!
# What an update leaves alone

An update that stays within some entities and some fields beside them changes no other entity and no
other field of the state to which it is applied.
-/

namespace LocalFirst

namespace LocalState

/-- What stands beside the entities. -/
inductive Field where
  | unreachedCommits
  | network
  | session
  | error
  deriving DecidableEq

namespace Field

/-- The member of the document form that holds a field. -/
def key : Field → String
  | .unreachedCommits => "unreachedCommits"
  | .network => "network"
  | .session => "session"
  | .error => "error"

/-- A field is the same in two states. -/
def Same (state next : LocalState) : Field → Prop
  | .unreachedCommits => next.unreachedCommits = state.unreachedCommits
  | .network => next.network = state.network
  | .session => next.session = state.session
  | .error => next.error = state.error

theorem key_ne_entities (field : Field) : field.key ≠ "entities" := by
  cases field <;> decide

theorem key_injective {field other : Field} (same : field.key = other.key) : field = other := by
  revert same
  cases field <;> cases other <;> decide

theorem same_refl (state : LocalState) (field : Field) : field.Same state state := by
  cases field <;> rfl

/-- A field is read from its own member. -/
theorem same_of_ofDocument {field : Field} {document : Document} {state next : LocalState}
    (read : ofDocument document = .ok next)
    (found : document.get? field.key = state.toDocument.get? field.key) :
    field.Same state next := by
  cases field with
  | unreachedCommits => exact unreachedCommits_of_ofDocument read found
  | network => exact network_of_ofDocument read found
  | session => exact session_of_ofDocument read (found.trans (get?_session_toDocument state))
  | error => exact error_of_ofDocument read (found.trans (get?_error_toDocument state))

end Field

end LocalState

/-- An update without renames leaves the members alone that none of its paths begins with. -/
theorem Update.get?_of_apply {now : Instant} {update : Update} {document result : Document}
    {key : String} (isObject : document.IsObject)
    (notRename : ∀ entry ∈ update.entries.toList, entry.edit.operator ≠ .rename)
    (apart : ∀ path ∈ update.paths, path.segments.head? ≠ some key)
    (applied : update.apply now document = .ok result) :
    result.get? key = document.get? key := by
  have keeps : ∀ entry ∈ update.entries.toList, ∀ before after : Document,
      (before.IsObject ∧ before.get? key = document.get? key) →
      entry.run now before = .ok after →
      after.IsObject ∧ after.get? key = document.get? key := by
    rintro ⟨⟨segments⟩, edit⟩ member before after ⟨beforeObject, same⟩ ran
    have beginsApart : segments.head? ≠ some key := apart ⟨segments⟩ (List.mem_map_of_mem member)
    cases segments with
    | nil => cases Entry.updateParent_of_run (notRename _ member) ran
    | cons root rest =>
        obtain ⟨afterObject, sameMembers⟩ :=
          Entry.get?_of_run_outside beforeObject (notRename _ member) ran
        refine ⟨afterObject, (sameMembers key fun isRoot => beginsApart ?_).trans same⟩
        rw [isRoot]
        rfl
  exact (Except.foldlM_preserves keeps ⟨isObject, rfl⟩ applied).2

namespace LocalState

/-- An update writes into some entities and some fields only. -/
structure WithinParts (update : Update) (entities : String → String → Prop)
    (fields : Field → Prop) : Prop where
  reaches : (touchedEntities update).isSome = true
  inEntities : ∀ path ∈ update.paths, ∀ entityName id rest,
    path.segments = "entities" :: entityName :: id :: rest → entities entityName id
  inFields : ∀ path ∈ update.paths, ∀ field : Field,
    path.segments.head? = some field.key → fields field

section WithinParts

variable {update : Update} {entities : String → String → Prop} {fields : Field → Prop}

theorem withinParts_empty : WithinParts Update.empty entities fields where
  reaches := rfl
  inEntities := by rintro _ ⟨⟩
  inFields := by rintro _ ⟨⟩

/-- Every path leads into one entity. -/
theorem withinParts_of_entity (entityName id : String)
    (reaches : (touchedEntities update).isSome = true)
    (paths : ∀ path ∈ update.paths, ∃ rest, path.segments = "entities" :: entityName :: id :: rest) :
    WithinParts update (fun other otherId => other = entityName ∧ otherId = id) fun _ => False where
  reaches := reaches
  inEntities path member other otherId rest segments := by
    obtain ⟨_, found⟩ := paths path member
    cases found.symm.trans segments
    exact ⟨rfl, rfl⟩
  inFields path member field begins := by
    obtain ⟨_, found⟩ := paths path member
    rw [found, List.head?_cons, Option.some.injEq] at begins
    exact field.key_ne_entities begins.symm

/-- The only path leads into one field. -/
theorem withinParts_of_field (field : Field) {path : Path}
    (reaches : (touchedEntities update).isSome = true) (paths : update.paths = [path])
    (begins : path.segments.head? = some field.key) :
    WithinParts update (fun _ _ => False) fun other => other = field where
  reaches := reaches
  inEntities other member entityName id rest segments := by
    rw [paths, List.mem_singleton] at member
    rw [← member, segments, List.head?_cons, Option.some.injEq] at begins
    exact field.key_ne_entities begins.symm
  inFields other member otherField otherBegins := by
    rw [paths, List.mem_singleton] at member
    rw [member, begins, Option.some.injEq] at otherBegins
    exact Field.key_injective otherBegins.symm

theorem withinParts_of_entityPath {entityName id : String}
    (reaches : (touchedEntities update).isSome = true)
    (paths : update.paths = [entityPath entityName id]) :
    WithinParts update (fun other otherId => other = entityName ∧ otherId = id) fun _ => False := by
  refine withinParts_of_entity entityName id reaches fun path member => ?_
  rw [paths, List.mem_singleton] at member
  exact ⟨[], by rw [member, entityPath]⟩

theorem withinParts_of_fields {entityName id : String} (edits : List (String × Edit))
    (entries : update.entries.toList =
      edits.map (fun edit => ⟨entityField entityName id edit.1, edit.2⟩))
    (notRename : ∀ edit ∈ edits, edit.2.operator ≠ .rename) :
    WithinParts update (fun other otherId => other = entityName ∧ otherId = id)
      fun _ => False := by
  refine withinParts_of_entity entityName id
    (by rw [touchedEntities_of_fields entries notRename]; rfl) ?_
  intro path member
  rw [Update.paths, entries, List.map_map, List.mem_map] at member
  obtain ⟨edit, _, rfl⟩ := member
  exact ⟨[edit.1], rfl⟩

theorem WithinParts.mono {moreEntities : String → String → Prop} {moreFields : Field → Prop}
    (within : WithinParts update entities fields)
    (entitiesLess : ∀ entityName id, entities entityName id → moreEntities entityName id)
    (fieldsLess : ∀ field, fields field → moreFields field) :
    WithinParts update moreEntities moreFields where
  reaches := within.reaches
  inEntities path member entityName id rest segments :=
    entitiesLess _ _ (within.inEntities path member entityName id rest segments)
  inFields path member field begins := fieldsLess _ (within.inFields path member field begins)

end WithinParts

theorem get?_takeOver_of_ne {source target : EntityMap} {entityName id other : String}
    (differ : other ≠ entityName) :
    (takeOver source target entityName id).get? other = target.get? other := by
  unfold takeOver
  split
  · exact NameMap.get?_put_of_ne differ _ _
  · split
    · rfl
    · exact NameMap.get?_put_of_ne differ _ _

/-- Taking over entities leaves the other names alone. -/
theorem get?_foldl_takeOver {source target : EntityMap} {touched : List (String × String)}
    {entityName : String} (notTouched : ∀ id, (entityName, id) ∉ touched) :
    (touched.foldl (fun entities entity => takeOver source entities entity.1 entity.2)
      target).get? entityName = target.get? entityName := by
  induction touched generalizing target with
  | nil => rfl
  | cons first rest ih =>
      rw [List.foldl_cons, ih fun id member => notTouched id (List.mem_cons_of_mem _ member)]
      refine get?_takeOver_of_ne fun same => notTouched first.2 ?_
      rw [same]
      exact List.mem_cons_self

variable {now : Instant} {state next : LocalState} {update : Update}

/-- A command that changes something reads the state back from the document form of the state,
or of a part of it with the same fields. -/
theorem exists_read_of_applyCommand (nonempty : update.isEmpty = false)
    (applied : state.applyCommand now update = .ok next) :
    ∃ part document result, (∀ field : Field, field.Same state part ∧ field.Same result next) ∧
      update.apply now part.toDocument = .ok document ∧ ofDocument document = .ok result := by
  have opened : ∀ part result : LocalState, part.apply now update = .ok result →
      ∃ document, update.apply now part.toDocument = .ok document ∧
        ofDocument document = .ok result := by
    intro part result partApplied
    rw [apply_eq, Except.mapError_eq_ok, Except.bind_eq_ok] at partApplied
    exact partApplied
  cases reaches : touchedEntities update with
  | none =>
      simp only [applyCommand, nonempty, reaches, Bool.false_eq_true, if_false] at applied
      obtain ⟨document, updated, read⟩ := opened state next applied
      exact ⟨state, document, next, fun field => ⟨field.same_refl _, field.same_refl _⟩, updated,
        read⟩
  | some touched =>
      rw [applyCommand_eq nonempty reaches, Except.map_eq_ok] at applied
      obtain ⟨result, partApplied, rfl⟩ := applied
      obtain ⟨document, updated, read⟩ := opened (state.scopedTo touched) result partApplied
      exact ⟨state.scopedTo touched, document, result, fun field => by cases field <;> exact ⟨rfl, rfl⟩,
        updated, read⟩

/-- A field that no path leads to stays as it is. -/
theorem same_of_applyCommand {field : Field}
    (notRename : ∀ entry ∈ update.entries.toList, entry.edit.operator ≠ .rename)
    (apart : ∀ path ∈ update.paths, path.segments.head? ≠ some field.key)
    (applied : state.applyCommand now update = .ok next) : field.Same state next := by
  cases nonempty : update.isEmpty with
  | true =>
      simp only [applyCommand, nonempty, if_true, Except.ok.injEq] at applied
      exact applied ▸ field.same_refl state
  | false =>
      obtain ⟨part, document, result, same, updated, read⟩ :=
        exists_read_of_applyCommand nonempty applied
      have found := Update.get?_of_apply (holdsEntities_toDocument part).isObject notRename apart
        updated
      have readSame := Field.same_of_ofDocument read found
      obtain ⟨samePart, sameNext⟩ := same field
      cases field with
      | unreachedCommits | network | session | error =>
          exact Eq.trans (Eq.trans sameNext readSame) samePart

/-- Everything outside the part of its update stays as it is. -/
theorem WithinParts.applyCommand {entities : String → String → Prop} {fields : Field → Prop}
    (within : WithinParts update entities fields)
    (applied : state.applyCommand now update = .ok next) :
    (∀ entityName id, ¬ entities entityName id →
      next.find? entityName id = state.find? entityName id) ∧
    (∀ entityName, (∀ id, ¬ entities entityName id) →
      next.entities.get? entityName = state.entities.get? entityName) ∧
    ∀ field, ¬ fields field → field.Same state next := by
  obtain ⟨touched, reaches⟩ := Option.isSome_iff_exists.1 within.reaches
  have notTouched : ∀ {entityName id}, ¬ entities entityName id → (entityName, id) ∉ touched := by
    intro entityName id outside member
    obtain ⟨path, isPath, rest, segments⟩ := exists_path_of_touchedEntities reaches member
    exact outside (within.inEntities path isPath entityName id rest segments)
  have notRename : ∀ entry ∈ update.entries.toList, entry.edit.operator ≠ .rename :=
    fun entry member => (staysWithin_of_touchedEntities reaches entry member).1
  refine ⟨?_, ?_, fun field outside => same_of_applyCommand notRename
    (fun path isPath begins => outside (within.inFields path isPath field begins)) applied⟩
  all_goals cases nonempty : update.isEmpty
  case refine_1.true | refine_2.true =>
    simp only [LocalState.applyCommand, nonempty, if_true, Except.ok.injEq] at applied
    simp [applied]
  case refine_1.false =>
    intro entityName id outside
    obtain ⟨_, _, _, _, found, _⟩ := applyCommand_eq_ok nonempty reaches applied
    rw [found, if_neg (notTouched outside)]
  case refine_2.false =>
    intro entityName outside
    rw [applyCommand_eq nonempty reaches, Except.map_eq_ok] at applied
    obtain ⟨result, _, rfl⟩ := applied
    exact get?_foldl_takeOver fun id => notTouched (outside id)

/-- The entities of a name are read from the object of the name. -/
theorem get?_of_namedAt {document other : Document} {entityName : String}
    (holds : document.HoldsEntities) (otherHolds : other.HoldsEntities)
    (read : ofDocument document = .ok state) (otherRead : ofDocument other = .ok next)
    (same : other.namedAt entityName = document.namedAt entityName) :
    next.entities.get? entityName = state.entities.get? entityName := by
  obtain ⟨names, named, found, namedRead, looked⟩ := readEach_of_ofDocument holds read
  obtain ⟨otherNames, otherNamed, otherFound, otherNamedRead, otherLooked⟩ :=
    readEach_of_ofDocument otherHolds otherRead
  rw [Document.namedAt, Document.namedAt, found, otherFound, Option.bind_some, Option.bind_some,
    Document.get?_object, Document.get?_object] at same
  rw [looked, otherLooked]
  cases nameFound : Members.get? entityName names with
  | none =>
      have missing : Members.get? entityName named = none := by
        rwa [Members.get?_eq_none_iff, Members.keys_readEach namedRead,
          ← Members.get?_eq_none_iff]
      have otherMissing : Members.get? entityName otherNamed = none := by
        rw [Members.get?_eq_none_iff, Members.keys_readEach otherNamedRead,
          ← Members.get?_eq_none_iff, same, nameFound]
      rw [missing, otherMissing]
  | some value =>
      rw [nameFound] at same
      obtain ⟨infos, infosRead, infosFound⟩ := Members.get?_readEach namedRead nameFound
      obtain ⟨otherInfos, otherInfosRead, otherInfosFound⟩ :=
        Members.get?_readEach otherNamedRead same
      rw [infosFound, otherInfosFound, Except.ok.inj (otherInfosRead.symm.trans infosRead)]

/-- Clearing a name leaves the other names alone. -/
theorem get?_of_reduce_clear {entityName other : String}
    (roundTrips : ofDocument state.toDocument = .ok state) (differ : other ≠ entityName)
    (reduced : Action.reduce now state (.clear entityName) = .ok next) :
    next.entities.get? other = state.entities.get? other := by
  simp only [Action.reduce, Action.update, Except.bind_eq_ok, Except.ok.injEq,
    exists_eq_left'] at reduced
  have nonempty : (clear entityName).isEmpty = false := rfl
  have reaches : touchedEntities (clear entityName) = none := rfl
  simp only [LocalState.applyCommand, nonempty, reaches, Bool.false_eq_true, if_false, apply_eq,
    Except.mapError_eq_ok, Except.bind_eq_ok] at reduced
  obtain ⟨document, updated, read⟩ := reduced
  change (Entry.run now state.toDocument
    ⟨⟨["entities", entityName]⟩, .set Document.emptyObject⟩ >>= pure) = _ at updated
  rw [bind_pure] at updated
  have stateHolds := holdsEntities_toDocument state
  obtain ⟨holds, _⟩ := Entry.entityAt_of_clear stateHolds updated
  refine get?_of_namedAt stateHolds holds roundTrips read ?_
  obtain ⟨entities, entitiesFound, entitiesObject, _⟩ := stateHolds.entities
  obtain ⟨child, node, childFound, written, rfl⟩ | ⟨missing, _⟩ :=
    Document.updateParent_cons stateHolds.isObject
      (Entry.updateParent_of_run (by simp [Edit.operator]) updated)
  · simp only [entitiesFound, Option.some.injEq, reduceCtorEq, false_and, or_false] at childFound
    subst childFound
    simp only [Document.updateParent, Edit.act, Document.setChild_of_isObject entitiesObject,
      Except.ok.injEq] at written
    subst written
    rw [Document.namedAt, Document.get?_put_self stateHolds.isObject, Document.namedAt,
      entitiesFound, Option.bind_some, Option.bind_some, Document.get?_put_of_ne differ]
  · simp [entitiesFound] at missing

end LocalState

end LocalFirst
