import LocalFirst.Proofs.EntityEntries
import LocalFirst.Proofs.TakingPart
import LocalFirst.State.Action

/-!
# The updates of commands

Each command has an update with few entries, all of them at the fields of one entity.  Such an
update touches this entity only, and writes the fields one by one.
-/

namespace LocalFirst

namespace LocalState

theorem compare_entityField (entityName id field other : String) :
    compare (entityField entityName id field) (entityField entityName id other) =
      compare field other := by
  have reflexive : ∀ text : String, compare text text = .eq := fun _ => Std.ReflCmp.compare_self
  change compare ["entities", entityName, id, field] ["entities", entityName, id, other] = _
  simp only [List.compare_cons_cons, reflexive, Ordering.eq_then]
  cases compare field other <;> rfl

theorem toList_setVersion (entityName id : String) (origin : Document) (versionId : String)
    (head : Document) :
    (setVersion entityName id origin versionId head).entries.toList =
      [⟨entityField entityName id "head", .set head⟩,
        ⟨entityField entityName id "origin", .set origin⟩,
        ⟨entityField entityName id "versionId", .set (.string versionId)⟩] := by
  have fields : compare "versionId" "origin" = .gt ∧ compare "head" "origin" = .lt := by decide
  simp [setVersion, Update.set, Update.insert, Keyed.insert, Keyed.insertInto, Update.empty,
    Keyed.empty, Entry.compare_address, Edit.operator, compare_entityField, fields]

theorem toList_commit (entityName id : String) (operation head : Document) :
    ((Update.empty.push (entityField entityName id "commits") operation).set
      (entityField entityName id "head") head).entries.toList =
      [⟨entityField entityName id "head", .set head⟩,
        ⟨entityField entityName id "commits", .push ⟨[operation], none, none, none⟩⟩] := by
  have operators : compare Operator.set Operator.push = .lt := rfl
  simp [Update.set, Update.push, Update.insert, Keyed.insert, Keyed.insertInto, Update.empty,
    Keyed.empty, Entry.compare_address, Edit.operator, operators]

theorem toList_revert (entityName id : String) (commits head : Document) :
    ((Update.empty.set (entityField entityName id "commits") commits).set
      (entityField entityName id "head") head).entries.toList =
      [⟨entityField entityName id "commits", .set commits⟩,
        ⟨entityField entityName id "head", .set head⟩] := by
  have fields : compare "head" "commits" = .gt := by decide
  simp [Update.set, Update.insert, Keyed.insert, Keyed.insertInto, Update.empty,
    Keyed.empty, Entry.compare_address, Edit.operator, compare_entityField, fields]

/-- Edits of fields of one entity touch that entity. -/
theorem touchedEntities_of_fields {update : Update} {entityName id : String}
    {edits : List (String × Edit)}
    (entries : update.entries.toList =
      edits.map (fun edit => ⟨entityField entityName id edit.1, edit.2⟩))
    (notRename : ∀ edit ∈ edits, edit.2.operator ≠ .rename) :
    touchedEntities update = some (edits.map (fun _ => (entityName, id))) := by
  have noRename : update.entries.toList.any (fun entry => entry.edit.operator = .rename) =
      false := by
    rw [entries, List.any_map, List.any_eq_false]
    exact fun edit member => by simpa using notRename edit member
  rw [touchedEntities, noRename, Update.paths, entries, List.map_map]
  clear entries noRename notRename
  simp only [Bool.false_eq_true, if_false]
  induction edits with
  | nil => rfl
  | cons edit rest ih =>
      have reaches : reach (entityField entityName id edit.1) = .entity entityName id := rfl
      simp [collectTouched, reaches, ih]

theorem mem_touched_of_fields {edits : List (String × Edit)} (nonempty : edits ≠ [])
    (entityName id other otherId : String) :
    (other, otherId) ∈ edits.map (fun _ => (entityName, id)) ↔
      other = entityName ∧ otherId = id := by
  simp [List.map_const', nonempty]

/-- Run edits on the fields of the document of an entity. -/
def runFields (now : Instant) (entity : Document) (edits : List (String × Edit)) :
    Except EntryFault Document :=
  edits.foldlM (fun entity edit => edit.2.act now entity edit.1) entity

theorem changesEntity_of_fields {now : Instant} {entityName id : String}
    {edits : List (String × Edit)} {document result entity : Document}
    (nonempty : edits ≠ []) (notRename : ∀ edit ∈ edits, edit.2.operator ≠ .rename)
    (holds : document.HoldsEntities) (found : document.entityAt entityName id = some entity)
    (ran : (edits.map (fun edit => (⟨entityField entityName id edit.1, edit.2⟩ : Entry))).foldlM
      (Entry.run now) document = .ok result) :
    ∃ node, runFields now entity edits = .ok node ∧
      Document.ChangesEntity document result entityName id (some node) := by
  induction edits generalizing document entity with
  | nil => exact absurd rfl nonempty
  | cons edit rest ih =>
      obtain ⟨firstNotRename, restNotRename⟩ := List.forall_mem_cons.1 notRename
      simp only [List.map_cons, List.foldlM_cons, Except.bind_eq_ok] at ran
      obtain ⟨between, firstRan, restRan⟩ := ran
      obtain ⟨node, acted, changed⟩ :=
        Entry.changesEntity_of_field holds found firstNotRename firstRan
      have ran : runFields now entity (edit :: rest) = runFields now node rest := by
        rw [runFields, List.foldlM_cons, acted]
        rfl
      rw [ran]
      cases rest with
      | nil =>
          cases restRan
          exact ⟨node, rfl, changed⟩
      | cons next rest =>
          obtain ⟨last, restActed, restChanged⟩ := ih (by simp) restNotRename changed.holds
            (by rw [changed.entityAt, if_pos ⟨rfl, rfl⟩]) restRan
          exact ⟨last, restActed, changed.trans restChanged⟩

/-- A command that edits fields of a followed entity. -/
theorem concernsEntity_of_fields {now : Instant} {state next : LocalState} {update : Update}
    {entityName id : String} {info : EntityInfo} {entity : Document}
    (edits : List (String × Edit)) (nonempty : edits ≠ [])
    (entries : update.entries.toList =
      edits.map (fun edit => ⟨entityField entityName id edit.1, edit.2⟩))
    (notRename : ∀ edit ∈ edits, edit.2.operator ≠ .rename)
    (known : state.find? entityName id = some info)
    (runs : runFields now info.toDocument edits = .ok entity)
    (applied : state.applyCommand now update = .ok next) :
    ConcernsEntity state next entityName id ∧
      EntityInfo.ReadFrom (some entity) (next.find? entityName id) := by
  have updateNonempty : update.isEmpty = false := by
    simp [Update.isEmpty, Keyed.isEmpty, entries, nonempty]
  refine concernsEntity_of_applyCommand _ _ updateNonempty
    (touchedEntities_of_fields entries notRename) (mem_touched_of_fields nonempty entityName id)
    applied ?_
  intro document result holds found updated
  rw [Update.apply, entries] at updated
  obtain ⟨node, acted, changed⟩ := changesEntity_of_fields nonempty notRename holds
    (by rw [found, known]; rfl) updated
  rw [runs, Except.ok.injEq] at acted
  exact acted ▸ changed

/-- Setting an entity as a whole, followed or not. -/
theorem concernsEntity_of_set {now : Instant} {state next : LocalState}
    {entityName id : String} {value : Document}
    (applied : state.applyCommand now (Update.empty.set (entityPath entityName id) value) =
      .ok next) :
    ConcernsEntity state next entityName id ∧
      EntityInfo.ReadFrom (some value) (next.find? entityName id) := by
  refine concernsEntity_of_applyCommand [(entityName, id)] _ rfl rfl (by simp)
    applied ?_
  intro document result holds _ updated
  simp only [Update.apply, Update.set, Update.insert, Update.empty, Keyed.insert, Keyed.empty,
    Keyed.insertInto, List.foldlM_cons, List.foldlM_nil, Except.bind_eq_ok, Except.pure_eq_ok]
    at updated
  obtain ⟨_, ran, rfl⟩ := updated
  exact Entry.changesEntity_of_set holds ran

/-- What is known of an entity whose document is written from given knowledge. -/
theorem readFrom_toDocument {info : EntityInfo} {known : Option EntityInfo}
    (reads : EntityInfo.ReadFrom (some info.toDocument) known) :
    ∃ commits, info.commits.mapM Update.stored = .ok commits ∧
      known = some ⟨info.origin, info.versionId, commits,
        info.head.filter (fun head => !head.isNull)⟩ := by
  obtain ⟨result, read, rfl⟩ := reads
  obtain ⟨commits, commitsRead, rfl⟩ := EntityInfo.ofDocument_toDocument_eq_ok.1 read
  exact ⟨commits, commitsRead, rfl⟩

theorem find?_of_entityInfo {state : LocalState} {entityName id : String} {info : EntityInfo}
    (known : state.entityInfo entityName id = .ok info) :
    state.find? entityName id = some info := by
  unfold entityInfo at known
  split at known
  next found => rw [found, Except.ok.inj known]
  · cases known

/-- An action that succeeds has applied its update, or has overwritten the state as a whole. -/
theorem reduce_eq_ok {now : Instant} {state next : LocalState} {action : Action}
    (reduced : action.reduce now state = .ok next) :
    (∃ update, action.update now state = .ok update ∧ state.applyCommand now update = .ok next) ∨
      action = .replace next ∨ (action = .reset ∧ next = .empty) ∨
      ∃ updates, action = .assign updates ∧ state.applyAll now updates = .ok next := by
  cases action
  case replace => exact .inr (.inl (Except.ok.inj reduced ▸ rfl))
  case reset => exact .inr (.inr (.inl ⟨rfl, (Except.ok.inj reduced).symm⟩))
  case assign updates => exact .inr (.inr (.inr ⟨updates, rfl, reduced⟩))
  all_goals exact .inl (Except.bind_eq_ok.1 reduced)

end LocalState

end LocalFirst
