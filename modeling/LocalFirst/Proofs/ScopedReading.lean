import LocalFirst.Proofs.ChangesWithin
import LocalFirst.Proofs.StateDocument
import LocalFirst.State.Apply

/-!
# Reading part of a document

A document is read entity by entity, and beside the entities field by field.  When some entities are
left out that can be read, the rest is read alike and with the same errors.  The entries of an
update stay within the entities that it touches.
-/

namespace LocalFirst

namespace LocalState

/-- Read what stands beside the entities. -/
def readBeside (record : Record) (entities : EntityMap) : Except UpdateError LocalState := do
  let unreachedCommits ← record.typedList "unreachedCommits"
  let network ← record.typed "network"
  let session ← record.optionalTyped "session"
  let error ← record.optionalTyped "error"
  return ⟨entities, unreachedCommits, network, session, error⟩

/-- Reading a state reads the entities first. -/
theorem ofDocument_eq {document entities : Document} (isObject : document.IsObject)
    (found : document.get? "entities" = some entities) (entitiesObject : entities.IsObject) :
    ∃ members, document = .object members ∧
      ofDocument document =
        (readEntities (some entities) >>= readBeside ⟨"LocalState", members⟩) := by
  obtain ⟨members, rfl⟩ := isObject
  obtain ⟨names, rfl⟩ := entitiesObject
  have entitiesFound : (Record.mk "LocalState" members).optional? "entities" =
      some (.object names) := by
    rw [Document.get?_object] at found
    simp [Record.optional?, found, Document.isNull]
  exact ⟨members, rfl,
    congrArg (readEntities · >>= readBeside ⟨"LocalState", members⟩) entitiesFound⟩

/-- What stands beside the entities is read without regard to them. -/
theorem readBeside_congr {typeName : String} {members others : List (String × Document)}
    (same : ∀ key, key ≠ "entities" → Members.get? key members = Members.get? key others) :
    readBeside ⟨typeName, members⟩ = readBeside ⟨typeName, others⟩ := by
  funext entities
  simp only [readBeside, Record.typedList, Record.typed, Record.optionalTyped, Record.required,
    Record.optional?, Record.mismatch, same "unreachedCommits" (by decide),
    same "network" (by decide), same "session" (by decide), same "error" (by decide)]

theorem readBeside_eq (record : Record) (entities : EntityMap) :
    readBeside record entities =
      (readBeside record Keyed.empty).map fun state => { state with entities := entities } := by
  unfold readBeside
  cases record.typedList (α := UnreachedCommit) "unreachedCommits" with
  | error _ => rfl
  | ok _ =>
      cases record.typed (α := NetworkState) "network" with
      | error _ => rfl
      | ok _ =>
          cases record.optionalTyped (α := Session) "session" with
          | error _ => rfl
          | ok _ => cases record.optionalTyped (α := LocalError) "error" <;> rfl

variable {touched : List (String × String)}

/-- Leaving out entities that can be read keeps the errors. -/
theorem sameErrors_readNamed {entityName : String} {named : Document} (isObject : named.IsObject)
    (distinct : named.TopKeysDistinct)
    (readable : ∀ id entity, (entityName, id) ∉ touched → named.get? id = some entity →
      ∃ info, EntityInfo.ofDocument entity = .ok info) :
    Except.SameErrors (readNamed entityName named)
      (readNamed entityName (named.idsScopedTo touched entityName)) := by
  obtain ⟨members, rfl⟩ := isObject
  refine (Except.sameErrors_mapM_filter (fun member isMember leftOut => ?_)
    fun member _ _ => .refl _).bind fun _ _ _ _ => Except.sameErrors_ok _ _
  obtain ⟨info, read⟩ := readable member.1 member.2 (by simpa using leftOut)
    (Members.get?_of_mem (distinct members rfl) isMember)
  exact ⟨(member.1, info), by simp [read]⟩

theorem sameErrors_readEntities {entities : Document} (isObject : entities.IsObject)
    (distinct : entities.TopKeysDistinct)
    (namedObjects : ∀ entityName named, entities.get? entityName = some named →
      named.IsObject ∧ named.TopKeysDistinct)
    (readable : ∀ entityName id entity, (entityName, id) ∉ touched →
      (entities.get? entityName).bind (Document.get? id) = some entity →
        ∃ info, EntityInfo.ofDocument entity = .ok info) :
    Except.SameErrors (readEntities (some entities))
      (readEntities (some (entities.namesScopedTo touched))) := by
  obtain ⟨members, rfl⟩ := isObject
  have sameNamed : ∀ member ∈ members, Except.SameErrors (readNamed member.1 member.2)
      (readNamed member.1 (member.2.idsScopedTo touched member.1)) := by
    intro member isMember
    have found := Members.get?_of_mem (distinct members rfl) isMember
    obtain ⟨namedObject, namedDistinct⟩ := namedObjects member.1 member.2 found
    refine sameErrors_readNamed namedObject namedDistinct fun id entity notTouched entityFound => ?_
    refine readable member.1 id entity notTouched ?_
    rw [Document.get?_object, found]
    exact entityFound
  refine (Except.sameErrors_mapM_filter (fun member isMember leftOut => ?_)
    fun member isMember _ => (sameNamed member isMember).bind fun _ _ _ _ =>
      Except.sameErrors_ok _ _).bind fun _ _ _ _ => Except.sameErrors_ok _ _
  -- nothing stays under a name that is not touched
  have nothing : readNamed member.1 (member.2.idsScopedTo touched member.1) =
      .ok Keyed.empty := by
    obtain ⟨⟨infoMembers, isInfos⟩, _⟩ := namedObjects member.1 member.2
      (Members.get?_of_mem (distinct members rfl) isMember)
    have noneTouched : ∀ id, (member.1, id) ∉ touched := fun id isTouched =>
      (by simpa using leftOut : member.1 ∉ touched.map Prod.fst) (List.mem_map_of_mem isTouched)
    have empty : Members.restrict (fun id => decide ((member.1, id) ∈ touched))
        (fun _ value => value) infoMembers = [] := by
      simp [Members.restrict, noneTouched]
    rw [isInfos, Document.idsScopedTo, Document.restrict, empty]
    rfl
  obtain ⟨infos, read⟩ := (nothing ▸ sameNamed member isMember).eq_ok
  exact ⟨(member.1, infos), by simp [read]⟩

/-- When the entities that are left out can be read, the errors stay the same. -/
theorem sameErrors_ofDocument {document : Document} (holds : document.HoldsEntities)
    (readable : ∀ entityName id entity, (entityName, id) ∉ touched →
      document.entityAt entityName id = some entity →
        ∃ info, EntityInfo.ofDocument entity = .ok info) :
    Except.SameErrors (ofDocument document) (ofDocument (document.scopedTo touched)) := by
  have partHolds : (document.scopedTo touched).HoldsEntities := holds.scopedTo
  obtain ⟨isObject, entities, found, entitiesObject, distinct, namedObjects⟩ := holds
  have partFound : (document.scopedTo touched).get? "entities" =
      some (entities.namesScopedTo touched) := by
    rw [Document.get?_entities_scopedTo, found, Option.map_some]
  obtain ⟨members, isMembers, wholeReads⟩ := ofDocument_eq isObject found entitiesObject
  obtain ⟨partMembers, isPartMembers, partReads⟩ :=
    ofDocument_eq partHolds.isObject partFound (Document.isObject_restrict entitiesObject)
  have sameBeside : ∀ key, key ≠ "entities" →
      Members.get? key members = Members.get? key partMembers := by
    intro key beside
    have same : (document.scopedTo touched).get? key = document.get? key :=
      Document.get?_scopedTo beside
    rw [isPartMembers, isMembers] at same
    exact same.symm
  have sameEntities := sameErrors_readEntities entitiesObject distinct namedObjects
    fun entityName id entity notTouched entityFound =>
      readable entityName id entity notTouched (by rwa [Document.entityAt, found])
  rw [wholeReads, partReads, readBeside_congr sameBeside]
  refine sameEntities.bind fun whole part _ _ => ?_
  rw [readBeside_eq _ whole, readBeside_eq _ part]
  exact (Except.sameErrors_map _ _).trans (Except.sameErrors_map _ _).symm

/-- What stands beside the entities is the same after reading the same members. -/
theorem beside_eq_of_ofDocument {document other : Document} {state otherState : LocalState}
    (holds : document.HoldsEntities) (otherHolds : other.HoldsEntities)
    (same : Document.SameBeside document other) (read : ofDocument document = .ok state)
    (otherRead : ofDocument other = .ok otherState) :
    { state with entities := Keyed.empty } = { otherState with entities := Keyed.empty } := by
  obtain ⟨isObject, _, found, entitiesObject, _⟩ := holds
  obtain ⟨otherObject, _, otherFound, otherEntitiesObject, _⟩ := otherHolds
  obtain ⟨members, rfl, reads⟩ := ofDocument_eq isObject found entitiesObject
  obtain ⟨otherMembers, rfl, otherReads⟩ :=
    ofDocument_eq otherObject otherFound otherEntitiesObject
  simp only [reads, otherReads, Except.bind_eq_ok] at read otherRead
  obtain ⟨entities, _, besideRead⟩ := read
  obtain ⟨otherEntities, _, otherBesideRead⟩ := otherRead
  rw [readBeside_congr same, readBeside_eq] at otherBesideRead
  rw [readBeside_eq] at besideRead
  simp only [Except.map_eq_ok] at besideRead otherBesideRead
  obtain ⟨base, baseRead, rfl⟩ := besideRead
  obtain ⟨otherBase, otherBaseRead, rfl⟩ := otherBesideRead
  obtain rfl := Except.ok.inj (baseRead.symm.trans otherBaseRead)
  rfl

/-- A name stands in the state that is read when it stands in the document. -/
theorem isSome_get?_of_ofDocument {document : Document} {state : LocalState}
    (holds : document.HoldsEntities) (read : ofDocument document = .ok state)
    (entityName : String) :
    (state.entities.get? entityName).isSome = (document.namedAt entityName).isSome := by
  obtain ⟨names, named, found, namedRead, looked⟩ := readEach_of_ofDocument holds read
  rw [looked, Document.namedAt, found, Option.bind_some, Document.get?_object, Bool.eq_iff_iff,
    ← not_iff_not]
  simp only [Option.not_isSome_iff_eq_none, Members.get?_eq_none_iff,
    Members.keys_readEach namedRead]

theorem segments_of_reach (path : Path) :
    (reach path = .outside → ∃ root rest, path.segments = root :: rest ∧ root ≠ "entities") ∧
      ∀ entityName id, reach path = .entity entityName id →
        ∃ rest, path.segments = "entities" :: entityName :: id :: rest := by
  obtain ⟨segments⟩ := path
  cases segments with
  | nil => simp [reach]
  | cons root rest =>
      by_cases inside : root = "entities"
      · cases rest with
        | nil => simp [reach, inside]
        | cons entityName rest => cases rest <;> simp [reach, inside]
      · simp [reach, inside]

/-- Every path stays outside the entities or inside one that is collected, and each of these is
there for some path. -/
theorem reaches_of_collectTouched {paths : List Path} {touched : List (String × String)}
    (collected : collectTouched paths = some touched) :
    (∀ path ∈ paths, (∃ root rest, path.segments = root :: rest ∧ root ≠ "entities") ∨
      ∃ entityName id rest, path.segments = "entities" :: entityName :: id :: rest ∧
        (entityName, id) ∈ touched) ∧
    ∀ entity ∈ touched, ∃ path ∈ paths, ∃ rest,
      path.segments = "entities" :: entity.1 :: entity.2 :: rest := by
  induction paths generalizing touched with
  | nil =>
      cases collected
      simp
  | cons path paths ih =>
      obtain ⟨outside, inside⟩ := segments_of_reach path
      cases reached : reach path with
      | outside =>
          simp only [collectTouched, reached] at collected
          obtain ⟨stay, come⟩ := ih collected
          refine ⟨List.forall_mem_cons.2 ⟨.inl (outside reached), stay⟩, fun entity member => ?_⟩
          obtain ⟨other, isPath, segments⟩ := come entity member
          exact ⟨other, List.mem_cons_of_mem _ isPath, segments⟩
      | entity entityName id =>
          simp only [collectTouched, reached, Option.map_eq_some_iff] at collected
          obtain ⟨later, collected, rfl⟩ := collected
          obtain ⟨stay, come⟩ := ih collected
          obtain ⟨rest, segments⟩ := inside entityName id reached
          refine ⟨List.forall_mem_cons.2 ⟨.inr ⟨_, _, rest, segments, List.mem_cons_self⟩,
            fun other isPath => ?_⟩, fun entity member => ?_⟩
          · obtain outside | ⟨otherName, otherId, otherRest, found, isLater⟩ := stay other isPath
            · exact .inl outside
            · exact .inr ⟨otherName, otherId, otherRest, found, List.mem_cons_of_mem _ isLater⟩
          · rcases List.mem_cons.1 member with rfl | isLater
            · exact ⟨path, List.mem_cons_self, rest, segments⟩
            · obtain ⟨other, isPath, found⟩ := come entity isLater
              exact ⟨other, List.mem_cons_of_mem _ isPath, found⟩
      | above => simp [collectTouched, reached] at collected

/-- The entries of an update stay within the entities that it touches. -/
theorem staysWithin_of_touchedEntities {update : Update} {touched : List (String × String)}
    (reaches : touchedEntities update = some touched) :
    ∀ entry ∈ update.entries.toList, entry.StaysWithin touched := by
  unfold touchedEntities at reaches
  split at reaches
  · cases reaches
  next noRename =>
    intro entry member
    refine ⟨?_, (reaches_of_collectTouched reaches).1 entry.path (List.mem_map_of_mem member)⟩
    simp only [List.any_eq_true, decide_eq_true_eq, not_exists, not_and] at noRename
    exact noRename entry member

theorem exists_path_of_touchedEntities {update : Update} {touched : List (String × String)}
    (reaches : touchedEntities update = some touched) {entityName id : String}
    (member : (entityName, id) ∈ touched) :
    ∃ path ∈ update.paths, ∃ rest, path.segments = "entities" :: entityName :: id :: rest := by
  unfold touchedEntities at reaches
  split at reaches
  · cases reaches
  · exact (reaches_of_collectTouched reaches).2 (entityName, id) member

end LocalState

end LocalFirst
