import LocalFirst.Proofs.EntityDocument
import LocalFirst.State.Documents

/-!
# The document of a state

A state is written to a document and read back from it entity by entity and field by field.  Reading
the state back keeps all look-ups, except that every commit comes back in its stored form.
-/

namespace LocalFirst

namespace EntityInfo

/-- What is known of an entity is what its document says. -/
def ReadFrom : Option Document → Option EntityInfo → Prop
  | none, known => known = none
  | some entity, known => ∃ info, ofDocument entity = .ok info ∧ known = some info

theorem ReadFrom.unique {entity : Option Document} {known other : Option EntityInfo}
    (read : ReadFrom entity known) (otherRead : ReadFrom entity other) : known = other := by
  cases entity with
  | none => exact Eq.trans read otherRead.symm
  | some entity =>
      obtain ⟨info, infoRead, rfl⟩ := read
      obtain ⟨otherInfo, otherInfoRead, rfl⟩ := otherRead
      rw [Except.ok.inj (infoRead.symm.trans otherInfoRead)]

/-- What is read from the document of an entity: the commits in their stored form, and no
head in the place of null. -/
theorem ofDocument_toDocument_eq_ok {info result : EntityInfo} :
    ofDocument info.toDocument = .ok result ↔
      ∃ commits, info.commits.mapM Update.stored = .ok commits ∧
        result = ⟨info.origin, info.versionId, commits,
          info.head.filter (fun head => !head.isNull)⟩ := by
  obtain ⟨origin, versionId, commits, head⟩ := info
  have commitsRead : (commits.map Update.toDocument).mapM
      (DocumentForm.ofDocument (α := Update)) = commits.mapM Update.stored := List.mapM_map
  have reads : ofDocument (toDocument ⟨origin, versionId, commits, head⟩) =
      (commits.mapM Update.stored).map fun commits =>
        ⟨origin, versionId, commits, head.filter (fun head => !head.isNull)⟩ := by
    rw [← commitsRead]
    cases versionId <;> cases head <;> rfl
  rw [reads, Except.map_eq_ok]
  simp only [eq_comm]

end EntityInfo

namespace UnreachedCommit

theorem eq_of_ofDocument_toDocument {commit result : UnreachedCommit}
    (read : ofDocument commit.toDocument = .ok result) : result = commit := by
  obtain ⟨entityName, id, count⟩ := commit
  change (if count.toInt64 < 0 then _ else _) = _ at read
  split at read
  · cases read
  · cases read
    simp

end UnreachedCommit

namespace NetworkState

theorem ofDocument_toDocument (network : NetworkState) :
    ofDocument network.toDocument = .ok network := by
  obtain ⟨requests, isOnline⟩ := network
  have tagsRead : (requests.map Document.string).mapM readTag = .ok requests :=
    Except.mapM_map_eq_ok fun _ _ => rfl
  change ((requests.map Document.string).mapM readTag >>= fun requests =>
    Except.ok (⟨requests, isOnline⟩ : NetworkState)) = _
  rw [tagsRead]
  rfl

end NetworkState

namespace Session

theorem ofDocument_toDocument (session : Session) :
    ofDocument session.toDocument = .ok session := by
  obtain ⟨id, entityName, userId, expiredAt, values⟩ := session
  cases userId <;> cases expiredAt <;> cases values <;> rfl

end Session

namespace LocalError

theorem ofDocument_toDocument (error : LocalError) :
    ofDocument error.toDocument = .ok error := by
  obtain ⟨kind, site, message, actionTag⟩ := error
  cases kind <;> cases site <;> rfl

end LocalError

namespace LocalState

open Document

/-- Reading a state reads its parts. -/
theorem ofDocument_eq_ok {document : Document} {state : LocalState}
    (read : ofDocument document = .ok state) :
    ∃ record : Record, (∀ key, Members.get? key record.members = document.get? key) ∧
      readEntities (record.optional? "entities") = .ok state.entities ∧
      record.typedList "unreachedCommits" = .ok state.unreachedCommits ∧
      record.typed "network" = .ok state.network ∧
      record.optionalTyped "session" = .ok state.session ∧
      record.optionalTyped "error" = .ok state.error := by
  simp only [ofDocument, Except.bind_eq_ok, Except.pure_eq_ok] at read
  obtain ⟨record, recordRead, entities, entitiesRead, commits, commitsRead, network, networkRead,
    session, sessionRead, error, errorRead, rfl⟩ := read
  refine ⟨record, ?_, entitiesRead, commitsRead, networkRead, sessionRead, errorRead⟩
  cases document with
  | object members =>
      cases recordRead
      exact fun _ => rfl
  | _ => cases recordRead

theorem unreachedCommits_of_ofDocument {document : Document} {state : LocalState}
    {commits : List UnreachedCommit} (read : ofDocument document = .ok state)
    (found : document.get? "unreachedCommits" =
      some (.array (commits.map UnreachedCommit.toDocument))) :
    state.unreachedCommits = commits := by
  obtain ⟨record, members, _, commitsRead, _⟩ := ofDocument_eq_ok read
  simp only [Record.typedList, Record.required, members, found, Except.bind_eq_ok,
    Except.ok.injEq, exists_eq_left', Except.mapM_eq_ok_iff, List.forall₂_map_left_iff]
    at commitsRead
  refine (List.forall₂_eq_eq_eq ▸ commitsRead.imp fun _ _ read => ?_ :
    commits = state.unreachedCommits).symm
  exact (UnreachedCommit.eq_of_ofDocument_toDocument read).symm

theorem network_of_ofDocument {document : Document} {state : LocalState} {network : NetworkState}
    (read : ofDocument document = .ok state)
    (found : document.get? "network" = some network.toDocument) : state.network = network := by
  obtain ⟨record, members, _, _, networkRead, _⟩ := ofDocument_eq_ok read
  simp only [Record.typed, Record.required, members, found, Except.bind_eq_ok,
    Except.ok.injEq, exists_eq_left'] at networkRead
  exact Except.ok.inj (networkRead.symm.trans network.ofDocument_toDocument)

theorem session_of_ofDocument {document : Document} {state : LocalState}
    {session : Option Session} (read : ofDocument document = .ok state)
    (found : document.get? "session" = session.map Session.toDocument) :
    state.session = session := by
  obtain ⟨record, members, _, _, _, sessionRead, _⟩ := ofDocument_eq_ok read
  simp only [Record.optionalTyped, Record.optional?, members, found] at sessionRead
  cases session with
  | none => exact (Except.ok.inj sessionRead).symm
  | some session =>
      have reads : (DocumentForm.ofDocument session.toDocument : Except UpdateError Session) =
        .ok session := session.ofDocument_toDocument
      simp only [Option.map_some, Session.toDocument, Option.filter_some, isNull, Bool.not_false,
        if_true] at sessionRead
      simp only [Session.toDocument] at reads
      simp only [reads, Except.map, Except.ok.injEq] at sessionRead
      exact sessionRead.symm

theorem error_of_ofDocument {document : Document} {state : LocalState}
    {error : Option LocalError} (read : ofDocument document = .ok state)
    (found : document.get? "error" = error.map LocalError.toDocument) :
    state.error = error := by
  obtain ⟨record, members, _, _, _, _, errorRead⟩ := ofDocument_eq_ok read
  simp only [Record.optionalTyped, Record.optional?, members, found] at errorRead
  cases error with
  | none => exact (Except.ok.inj errorRead).symm
  | some error =>
      have reads : (DocumentForm.ofDocument error.toDocument : Except UpdateError LocalError) =
        .ok error := error.ofDocument_toDocument
      simp only [Option.map_some, LocalError.toDocument, Option.filter_some, isNull,
        Bool.not_false, if_true] at errorRead
      simp only [LocalError.toDocument] at reads
      simp only [reads, Except.map, Except.ok.injEq] at errorRead
      exact errorRead.symm

/-- The entities of each name are read from the object of the name. -/
theorem readEach_of_ofDocument {document : Document} {state : LocalState}
    (holds : document.HoldsEntities) (read : ofDocument document = .ok state) :
    ∃ names named, document.get? "entities" = some (.object names) ∧
      Members.readEach readNamed names = .ok named ∧
      ∀ entityName, state.entities.get? entityName = Members.get? entityName named := by
  obtain ⟨record, members, entitiesRead, _⟩ := ofDocument_eq_ok read
  obtain ⟨_, entities, found, ⟨names, rfl⟩, namesDistinct, _⟩ := holds
  simp only [Record.optional?, members, found, Option.filter_some, isNull, Bool.not_false,
    if_true, readEntities, Except.bind_eq_ok, Except.pure_eq_ok] at entitiesRead
  obtain ⟨named, namedRead, entitiesEq⟩ := entitiesRead
  refine ⟨names, named, found, namedRead, fun entityName => ?_⟩
  rw [← entitiesEq,
    NameMap.get?_ofList (Members.keys_readEach namedRead ▸ namesDistinct names rfl)]

/-- An entity of the state that is read is read from its document. -/
theorem find?_of_ofDocument {document : Document} {state : LocalState}
    (holds : document.HoldsEntities) (read : ofDocument document = .ok state)
    (entityName id : String) :
    EntityInfo.ReadFrom (document.entityAt entityName id) (state.find? entityName id) := by
  obtain ⟨names, named, found, namedRead, looked⟩ := readEach_of_ofDocument holds read
  have keysEq := Members.keys_readEach namedRead
  have namedObjects : ∀ entityName named, Members.get? entityName names = some named →
      named.IsObject ∧ named.TopKeysDistinct := by
    obtain ⟨_, entities, found', _, _, namedObjects⟩ := holds
    obtain rfl := Option.some.inj (found.symm.trans found')
    exact namedObjects
  simp only [entityAt, found, Option.bind_some, get?_object, find?, looked]
  cases nameFound : Members.get? entityName names with
  | none =>
      have missing : Members.get? entityName named = none := by
        rw [Members.get?_eq_none_iff, keysEq, ← Members.get?_eq_none_iff, nameFound]
      simp [EntityInfo.ReadFrom, missing]
  | some infosDocument =>
      obtain ⟨infos, infosRead, infosFound⟩ := Members.get?_readEach namedRead nameFound
      obtain ⟨⟨infoMembers, rfl⟩, infosDistinct⟩ := namedObjects entityName _ nameFound
      simp only [readNamed, Except.bind_eq_ok, Except.pure_eq_ok] at infosRead
      obtain ⟨infoList, infosRead, rfl⟩ := infosRead
      change Members.readEach (fun _ entity => EntityInfo.ofDocument entity) infoMembers =
        .ok infoList at infosRead
      have infoKeysEq := Members.keys_readEach infosRead
      simp only [infosFound, get?_object, Option.bind_some,
        NameMap.get?_ofList (infoKeysEq ▸ infosDistinct infoMembers rfl)]
      cases idFound : Members.get? id infoMembers with
      | none =>
          rw [EntityInfo.ReadFrom, Members.get?_eq_none_iff, infoKeysEq,
            ← Members.get?_eq_none_iff, idFound]
      | some entity =>
          obtain ⟨info, infoRead, infoFound⟩ := Members.get?_readEach infosRead idFound
          exact ⟨info, infoRead, infoFound⟩

/-- The document of the entities of one name. -/
def namedDocument (named : NameMap EntityInfo) : Document :=
  .object (named.toList.map (fun member => (member.1, member.2.toDocument)))

theorem entitiesDocument_eq (entities : EntityMap) :
    entitiesDocument entities =
      .object (entities.toList.map (fun named => (named.1, namedDocument named.2))) :=
  rfl

theorem holdsEntities_toDocument (state : LocalState) : state.toDocument.HoldsEntities := by
  refine ⟨⟨_, rfl⟩, entitiesDocument state.entities, rfl, ⟨_, rfl⟩, ?_, ?_⟩
  · rintro _ ⟨⟩
    exact NameMap.nodup_keys_map_toList state.entities namedDocument
  · intro entityName named found
    rw [entitiesDocument_eq, get?_object, NameMap.get?_map_toList, Option.map_eq_some_iff] at found
    obtain ⟨infos, _, rfl⟩ := found
    refine ⟨⟨_, rfl⟩, ?_⟩
    rintro _ ⟨⟩
    exact NameMap.nodup_keys_map_toList infos EntityInfo.toDocument

theorem entityAt_toDocument (state : LocalState) (entityName id : String) :
    state.toDocument.entityAt entityName id =
      (state.find? entityName id).map EntityInfo.toDocument := by
  have found : state.toDocument.get? "entities" = some (entitiesDocument state.entities) := rfl
  rw [entityAt, found, Option.bind_some, entitiesDocument_eq, get?_object, NameMap.get?_map_toList, find?]
  cases state.entities.get? entityName with
  | none => rfl
  | some named => exact NameMap.get?_map_toList named EntityInfo.toDocument id

@[simp]
theorem get?_unreachedCommits_toDocument (state : LocalState) :
    state.toDocument.get? "unreachedCommits" =
      some (.array (state.unreachedCommits.map UnreachedCommit.toDocument)) :=
  rfl

@[simp]
theorem get?_network_toDocument (state : LocalState) :
    state.toDocument.get? "network" = some state.network.toDocument :=
  rfl

@[simp]
theorem get?_session_toDocument (state : LocalState) :
    state.toDocument.get? "session" = state.session.map Session.toDocument := by
  obtain ⟨_, _, _, session, error⟩ := state
  cases session <;> cases error <;> rfl

@[simp]
theorem get?_error_toDocument (state : LocalState) :
    state.toDocument.get? "error" = state.error.map LocalError.toDocument := by
  obtain ⟨_, _, _, session, error⟩ := state
  cases session <;> cases error <;> rfl

end LocalState

end LocalFirst
