import LocalFirst.Proofs.StateParts

/-!
# The two forms of a state

A state is written as a document in two ways: directly, where an absent session or error has no
member, and through its JSON form, where it is null.  Both documents are read in two ways, as a
record and through JSON.  All four combinations give back the state, as long as what it holds can be
written: JSON has no infinite floats, commits are kept as they are read, a null head is no head, and
the counts of the queue are stored as signed integers.
-/

namespace LocalFirst

open JsonForm

namespace LocalState

variable {state : LocalState}

variable {entities : EntityMap}

/-- The document of a state in which an absent session or error is null. -/
def fullDocument (state : LocalState) : Document :=
  .object [
    ("entities", entitiesDocument state.entities),
    ("unreachedCommits", .array (state.unreachedCommits.map UnreachedCommit.toDocument)),
    ("network", state.network.toDocument),
    ("session", (state.session.map Session.toDocument).getD .null),
    ("error", (state.error.map LocalError.toDocument).getD .null)]

/-- What JSON and a document can hold of a state. -/
structure Storable (state : LocalState) : Prop where
  entities : EntitiesStorable state.entities
  session : ∀ session, state.session = some session → session.values.FloatsFinite
  counts : state.CountsFit

theorem Storable.writtenAs_queue (storable : state.Storable) :
    (Document.array (state.unreachedCommits.map UnreachedCommit.toDocument)).WrittenAs
      (toJson state.unreachedCommits) :=
  writtenAs_list fun commit member => (storable.counts commit member).writtenAs

/-- Through JSON, a state is written in full. -/
theorem Storable.writtenAs (storable : state.Storable) :
    state.fullDocument.WrittenAs (toJson state) := by
  have session : ((state.session.map Session.toDocument).getD .null).WrittenAs
      (toJson state.session) :=
    writtenAs_option fun session known => Session.writtenAs (storable.session session known)
  have error : ((state.error.map LocalError.toDocument).getD .null).WrittenAs
      (toJson state.error) := writtenAs_option fun error _ => error.writtenAs
  exact Document.writtenAs_object (.cons ⟨rfl, storable.entities.writtenAs⟩ <|
    .cons ⟨rfl, storable.writtenAs_queue⟩ <| .cons ⟨rfl, state.network.writtenAs⟩ <|
    .cons ⟨rfl, session⟩ <| .cons ⟨rfl, error⟩ .nil)

theorem Storable.readsBack_session (storable : state.Storable) : ReadsBack state.session :=
  readsBack_option fun session known =>
    ⟨Session.readsBack (storable.session session known), Json.noConfusion⟩

theorem readsBack_error (error : Option LocalError) : ReadsBack error :=
  readsBack_option fun error _ => ⟨error.readsBack, Json.noConfusion⟩

/-- A JSON tree is read as the state when it has the parts of the state as its members. -/
theorem Storable.ofJson?_eq (storable : state.Storable) {tree : Json}
    (entities : tree.get? "entities" = some (toJson state.entities))
    (queue : tree.get? "unreachedCommits" = some (toJson state.unreachedCommits))
    (network : tree.get? "network" = some (toJson state.network))
    (session : tree.optionalField? "session" = some state.session)
    (error : tree.optionalField? "error" = some state.error) : ofJson? tree = some state := by
  have entitiesRead : tree.field? "entities" = some state.entities := by
    rw [Json.field?, entities]
    exact storable.entities.readsBack
  have queueRead : tree.field? "unreachedCommits" = some state.unreachedCommits := by
    rw [Json.field?, queue]
    exact readsBack_list fun commit _ => commit.readsBack
  have networkRead : tree.field? "network" = some state.network := by
    rw [Json.field?, network]
    exact state.network.readsBack
  change (do
    return LocalState.mk (← tree.field? "entities") (← tree.field? "unreachedCommits")
      (← tree.field? "network") (← tree.optionalField? "session")
      (← tree.optionalField? "error")) = some state
  rw [entitiesRead, queueRead, networkRead, session, error]
  rfl

theorem Storable.readsBack (storable : state.Storable) : ReadsBack state :=
  storable.ofJson?_eq rfl rfl rfl storable.readsBack_session (readsBack_error state.error)

theorem Storable.ofDocument?_fullDocument (storable : state.Storable) :
    JsonForm.ofDocument? state.fullDocument = some state :=
  (congrArg ofJson? storable.writtenAs.toJson_eq).trans storable.readsBack

/-- Members that are left out are read as absent. -/
theorem Storable.ofDocument?_toDocument (storable : state.Storable) :
    JsonForm.ofDocument? state.toDocument = some state := by
  refine storable.ofJson?_eq (congrArg some storable.entities.writtenAs.toJson_eq)
    (congrArg some storable.writtenAs_queue.toJson_eq)
    (congrArg some state.network.writtenAs.toJson_eq) ?_ ?_
  · rw [Json.optionalField?, Document.get?_toJson, get?_session_toDocument]
    cases known : state.session with
    | none => rfl
    | some session =>
        have written := Session.writtenAs (storable.session session known)
        have read : ReadsBack (some session) := known ▸ storable.readsBack_session
        exact (congrArg ofJson? written.toJson_eq).trans read
  · rw [Json.optionalField?, Document.get?_toJson, get?_error_toDocument]
    cases state.error with
    | none => rfl
    | some error =>
        exact (congrArg ofJson? error.writtenAs.toJson_eq).trans (readsBack_error (some error))

/-- An object is read as the state when it has the parts of the state as its members.  An absent
session or error may have no member, or null. -/
theorem Storable.ofDocument_object (storable : state.Storable)
    {members : List (String × Document)}
    (entities : Members.get? "entities" members = some (entitiesDocument state.entities))
    (queue : Members.get? "unreachedCommits" members =
      some (.array (state.unreachedCommits.map UnreachedCommit.toDocument)))
    (network : Members.get? "network" members = some state.network.toDocument)
    (session : (Record.mk "LocalState" members).optional? "session" =
      state.session.map Session.toDocument)
    (error : (Record.mk "LocalState" members).optional? "error" =
      state.error.map LocalError.toDocument) :
    ofDocument (.object members) = .ok state := by
  have found : (Document.object members).get? "entities" =
      some (entitiesDocument state.entities) := by rw [Document.get?_object, entities]
  obtain ⟨_, isObject, reads⟩ := ofDocument_eq ⟨members, rfl⟩ found ⟨_, rfl⟩
  obtain rfl := Document.object.inj isObject
  rw [reads, storable.entities.readEntities]
  exact readBeside_eq_ok
    (fun commit member => (storable.counts commit member).ofDocument_toDocument)
    queue network session error state.entities

theorem Storable.ofDocument_toDocument (storable : state.Storable) :
    ofDocument state.toDocument = .ok state := by
  obtain ⟨entities, unreachedCommits, network, session, error⟩ := state
  refine storable.ofDocument_object rfl rfl rfl ?_ ?_ <;> cases session <;> cases error <;> rfl

theorem Storable.ofDocument_fullDocument (storable : state.Storable) :
    ofDocument state.fullDocument = .ok state := by
  obtain ⟨entities, unreachedCommits, network, session, error⟩ := state
  refine storable.ofDocument_object rfl rfl rfl ?_ ?_ <;> cases session <;> cases error <;> rfl

/-- The entities are read from the document of a state whose commits are in their stored form. -/
theorem CommitsParsed.exists_readEntities (parsed : state.CommitsParsed) :
    ∃ entities, readEntities (some (entitiesDocument state.entities)) = .ok entities := by
  -- without its queue, such a state is read back up to null heads
  let queueless : LocalState := { state with unreachedCommits := [] }
  have readable : ∀ entityName id entity,
      queueless.toDocument.entityAt entityName id = some entity →
        ∃ info, EntityInfo.ofDocument entity = .ok info := by
    intro entityName id entity found
    obtain ⟨info, known, rfl⟩ := Option.map_eq_some_iff.1
      ((entityAt_toDocument queueless entityName id).symm.trans found)
    exact ⟨_, EntityInfo.ofDocument_toDocument_eq_ok.2 ⟨info.commits,
      Update.mapM_stored_eq_ok fun commit member => parsed.stored known member, rfl⟩⟩
  have queue : queueless.QueueReads := fun commit member => absurd member List.not_mem_nil
  obtain ⟨result, read⟩ := exists_ofDocument (holdsEntities_toDocument queueless)
    (fun _ _ => rfl) queue readable
  obtain ⟨record, looks, entitiesRead, _⟩ := ofDocument_eq_ok read
  have found : record.optional? "entities" = some (entitiesDocument state.entities) := by
    rw [Record.optional?, looks]
    rfl
  exact ⟨result.entities, found ▸ entitiesRead⟩

/-- A state is not read from its document when some count of its queue does not fit. -/
theorem CommitsParsed.ofDocument_toDocument (parsed : state.CommitsParsed)
    {commit : UnreachedCommit} (member : commit ∈ state.unreachedCommits)
    (large : ¬ commit.Fits) :
    ofDocument state.toDocument =
      .error (.restore "UnreachedCommit" (.negative "commitCount")) := by
  obtain ⟨entities, entitiesRead⟩ := parsed.exists_readEntities
  have found : state.toDocument.get? "entities" = some (entitiesDocument state.entities) := rfl
  obtain ⟨members, isDocument, reads⟩ :=
    ofDocument_eq (holdsEntities_toDocument state).isObject found ⟨_, rfl⟩
  have queueFound : Members.get? "unreachedCommits" members =
      some (.array (state.unreachedCommits.map UnreachedCommit.toDocument)) := by
    rw [← Document.get?_object, ← isDocument, get?_unreachedCommits_toDocument]
  have fails : (Record.mk "LocalState" members).typedList (α := UnreachedCommit)
      "unreachedCommits" = .error (.restore "UnreachedCommit" (.negative "commitCount")) := by
    simp only [Record.typedList, Record.required, queueFound]
    exact UnreachedCommit.mapM_ofDocument_toDocument_of_not_fits member large
  rw [reads, entitiesRead]
  change readBeside ⟨"LocalState", members⟩ entities = _
  rw [readBeside, fails]
  rfl

/-- A state with finite floats, commits that have been read, no null head and counts that fit is
given back by both of its documents, read as a record or through JSON; the document through JSON
holds null for an absent session or error.  With a count that does not fit, its own document is
refused. -/
theorem forms_agree (state : LocalState) (finite : state.FloatsFinite)
    (parsed : state.CommitsParsed) (heads : state.HeadsNotNull) :
    (state.CountsFit →
      ofDocument state.toDocument = .ok state ∧
      JsonForm.ofDocument? state.toDocument = some state ∧
      ofDocument (JsonForm.toDocument state) = .ok state ∧
      JsonForm.ofDocument? (JsonForm.toDocument state) = some state ∧
      (JsonForm.toDocument state).get? "session" =
        some ((state.session.map Session.toDocument).getD .null) ∧
      (JsonForm.toDocument state).get? "error" =
        some ((state.error.map LocalError.toDocument).getD .null)) ∧
    ((∃ commit ∈ state.unreachedCommits, Nat.pow 2 63 ≤ commit.commitCount.toNat) →
      ofDocument state.toDocument =
        .error (.restore "UnreachedCommit" (.negative "commitCount"))) := by
  constructor
  · intro counts
    have storable : state.Storable :=
      ⟨finite.entitiesStorable parsed heads, finite.session, counts⟩
    have inFull : JsonForm.toDocument state = state.fullDocument := storable.writtenAs.ofJson_eq
    rw [inFull]
    exact ⟨storable.ofDocument_toDocument, storable.ofDocument?_toDocument,
      storable.ofDocument_fullDocument, storable.ofDocument?_fullDocument, rfl, rfl⟩
  · rintro ⟨commit, member, large⟩
    have large : 2 ^ 63 ≤ commit.commitCount.toNat := large
    refine parsed.ofDocument_toDocument member fun fits => ?_
    have small : commit.commitCount.toNat ≤ 2 ^ 63 - 1 := fits
    omega

/-- A rating, as it is written. -/
def rerating : Document :=
  .object [("$set", .object [("rating", .float 2.5)])]

def ratedFilm (rating : Float) : Document :=
  .object [("id", .string "f1"), ("rating", .float rating)]

/-- A film with a pending rating. -/
def reratedFilm : EntityInfo :=
  ⟨ratedFilm 1.5, some "v1", [Update.empty.set (Path.parse "rating") (.float 2.5)],
    some (ratedFilm 2.5)⟩

/-- One film, with nobody signed in. -/
def ratedFilms (count : UInt64) : LocalState where
  entities := Keyed.ofList [("film", Keyed.ofList [("f1", reratedFilm)])]
  unreachedCommits := [⟨"film", "f1", count⟩]
  network := ⟨["t1"], true⟩
  session := none
  error := none

theorem floatsFinite_ratedFilm {rating : Float} (finite : rating.isFinite = true) :
    (ratedFilm rating).FloatsFinite := by
  refine Document.everywhere_object.2 ⟨trivial, ?_⟩
  simp only [List.forall_mem_cons, List.not_mem_nil, false_imp_iff, implies_true, and_true]
  exact ⟨trivial, finite⟩

theorem floatsFinite_rerating : rerating.FloatsFinite := by
  refine Document.everywhere_object.2 ⟨trivial, List.forall_mem_singleton.2 ?_⟩
  exact Document.everywhere_object.2 ⟨trivial, List.forall_mem_singleton.2 (by rfl)⟩

theorem eq_of_find?_ratedFilms {count : UInt64} {entityName id : String} {info : EntityInfo}
    (found : (ratedFilms count).find? entityName id = some info) : info = reratedFilm := by
  obtain ⟨named, namedFound, infoFound⟩ := Option.bind_eq_some_iff.1 found
  rw [NameMap.get?_eq] at namedFound infoFound
  have named := List.mem_singleton.1 (Members.mem_of_get? namedFound)
  obtain ⟨-, rfl⟩ := Prod.mk.inj named
  exact (Prod.mk.inj (List.mem_singleton.1 (Members.mem_of_get? infoFound))).2

theorem forms_agree_ratedFilms :
    (ofDocument (JsonForm.toDocument (ratedFilms 2)) = .ok (ratedFilms 2) ∧
      JsonForm.ofDocument? (ratedFilms 2).toDocument = some (ratedFilms 2) ∧
      (JsonForm.toDocument (ratedFilms 2)).get? "session" = some .null) ∧
    ofDocument (ratedFilms Int64.minValue.toUInt64).toDocument =
      .error (.restore "UnreachedCommit" (.negative "commitCount")) := by
  have read : Update.ofDocument rerating =
    .ok (Update.empty.set (Path.parse "rating") (.float 2.5)) := rfl
  have distinct : rerating.KeysDistinct := by
    simp [rerating, Document.KeysDistinct, Document.MemberKeysDistinct, Members.keys]
  have finite : ∀ count, (ratedFilms count).FloatsFinite := fun count => {
    origins := fun _ _ _ found => eq_of_find?_ratedFilms found ▸ floatsFinite_ratedFilm rfl
    heads := by
      rintro _ _ _ found head isHead
      obtain rfl := eq_of_find?_ratedFilms found
      exact Option.some.inj isHead ▸ floatsFinite_ratedFilm rfl
    commits := by
      rintro _ _ _ found commit member
      obtain rfl := eq_of_find?_ratedFilms found
      rw [List.mem_singleton.1 member]
      exact Update.carries_of_ofDocument floatsFinite_rerating read
    session := fun _ known => by cases known }
  have parsed : ∀ count, (ratedFilms count).CommitsParsed := by
    rintro count _ _ _ found commit member
    obtain rfl := eq_of_find?_ratedFilms found
    exact ⟨rerating, distinct, List.mem_singleton.1 member ▸ read⟩
  have heads : ∀ count, (ratedFilms count).HeadsNotNull := by
    rintro count _ _ _ found isNull
    obtain rfl := eq_of_find?_ratedFilms found
    cases isNull
  have agree := forms_agree (ratedFilms 2) (finite 2) (parsed 2) (heads 2)
  obtain ⟨_, readThrough, readBack, _, noSession, _⟩ := agree.1
    (List.forall_mem_singleton.2 (by decide : (2 : UInt64).toNat ≤ Nat.pow 2 63 - 1))
  have refused := (forms_agree (ratedFilms Int64.minValue.toUInt64) (finite _) (parsed _)
    (heads _)).2 ⟨_, List.mem_singleton_self _, by decide⟩
  exact ⟨⟨readBack, readThrough, noSession⟩, refused⟩

end LocalState

end LocalFirst
