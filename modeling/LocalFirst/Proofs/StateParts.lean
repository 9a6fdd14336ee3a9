import LocalFirst.Proofs.Carried
import LocalFirst.Proofs.JsonForms
import LocalFirst.Proofs.ReadBack

/-!
# The parts of a state in both forms

Each part of a state is written the same way directly and through its JSON form, and is read back
from either.  The conditions that this needs are those of the parts: finite floats, commits that
stay as they are when they are parsed, heads that are not null, counts that fit.
-/

namespace LocalFirst

open JsonForm

theorem writtenAs_string (text : String) : (Document.string text).WrittenAs (toJson text) :=
  ⟨rfl, rfl⟩

theorem writtenAs_optionalString (text : Option String) :
    (Document.ofOptionalString text).WrittenAs (toJson text) := by
  cases text <;> exact ⟨rfl, rfl⟩

theorem readsBack_optionalString (text : Option String) : ReadsBack text :=
  readsBack_option fun text _ => ⟨readsBack_string text, by exact Json.noConfusion⟩

theorem readsBack_document {document : Document} (finite : document.FloatsFinite) :
    ReadsBack document :=
  congrArg some finite.writtenAs.ofJson_eq

namespace Update

theorem writtenAs {update : Update} (finite : update.Carries Document.FloatsFinite) :
    update.toDocument.WrittenAs (toJson update) :=
  Document.FloatsFinite.writtenAs (everywhere_toDocument Document.wireSafe_finiteFloat finite)

theorem readsBack {update : Update} (finite : update.Carries Document.FloatsFinite)
    (stored : update.stored = .ok update) : ReadsBack update := by
  have read : Document.ofJson (toJson update) = update.toDocument := (writtenAs finite).ofJson_eq
  change (ofDocument (Document.ofJson (toJson update))).toOption = some update
  rw [read, show ofDocument update.toDocument = .ok update from stored]
  rfl

end Update

namespace EntityInfo

/-- What JSON and a document can hold of an entity: floats are finite, commits are as they are
stored, and null is not a head. -/
structure Storable (info : EntityInfo) : Prop where
  origin : info.origin.FloatsFinite
  head : ∀ head, info.head = some head → head.FloatsFinite ∧ head.isNull = false
  commits : ∀ commit ∈ info.commits, commit.Carries Document.FloatsFinite ∧
    commit.stored = .ok commit

variable {info : EntityInfo}

theorem Storable.writtenAs (storable : info.Storable) :
    info.toDocument.WrittenAs (toJson info) := by
  have commits : (Document.array (info.commits.map Update.toDocument)).WrittenAs
      (toJson info.commits) :=
    writtenAs_list fun commit member => Update.writtenAs (storable.commits commit member).1
  have head : (info.head.getD .null).WrittenAs (toJson info.head) := by
    cases known : info.head with
    | none => exact ⟨rfl, rfl⟩
    | some head => exact (storable.head head known).1.writtenAs
  exact Document.writtenAs_object (.cons ⟨rfl, storable.origin.writtenAs⟩ <|
    .cons ⟨rfl, writtenAs_optionalString info.versionId⟩ <| .cons ⟨rfl, commits⟩ <|
    .cons ⟨rfl, head⟩ .nil)

theorem Storable.readsBack (storable : info.Storable) : ReadsBack info := by
  have origin : ofJson? (toJson info.origin) = some info.origin :=
    readsBack_document storable.origin
  have version : ofJson? (toJson info.versionId) = some info.versionId :=
    readsBack_optionalString info.versionId
  have commits : ofJson? (toJson info.commits) = some info.commits :=
    readsBack_list fun commit member =>
      Update.readsBack (storable.commits commit member).1 (storable.commits commit member).2
  have head : ofJson? (toJson info.head) = some info.head :=
    readsBack_option fun head known =>
      ⟨readsBack_document (storable.head head known).1,
        (storable.head head known).1.toJson_ne_null (storable.head head known).2⟩
  change (do
    return EntityInfo.mk (← ofJson? (toJson info.origin)) (← ofJson? (toJson info.versionId))
      (← ofJson? (toJson info.commits)) (← ofJson? (toJson info.head))) = some info
  rw [origin, version, commits, head]
  rfl

/-- The entity is read from its own document. -/
theorem Storable.ofDocument_toDocument (storable : info.Storable) :
    ofDocument info.toDocument = .ok info := by
  have heads : info.head.filter (fun head => !head.isNull) = info.head := by
    cases known : info.head with
    | none => rfl
    | some head => rw [Option.filter_some, (storable.head head known).2]; rfl
  refine ofDocument_toDocument_eq_ok.2 ⟨info.commits,
    Update.mapM_stored_eq_ok fun commit member => (storable.commits commit member).2, ?_⟩
  rw [heads]

end EntityInfo

namespace UnreachedCommit

variable {commit : UnreachedCommit}

/-- The count fits into a signed integer. -/
def Fits (commit : UnreachedCommit) : Prop :=
  commit.commitCount.toNat ≤ Nat.pow 2 63 - 1

theorem Fits.writtenAs (fits : commit.Fits) : commit.toDocument.WrittenAs (toJson commit) := by
  have small : commit.commitCount.toNat ≤ 2 ^ 63 - 1 := fits
  have isNat : commit.commitCount.toInt64.toInt = commit.commitCount.toNat :=
    BitVec.toInt_eq_toNat_of_lt (show 2 * commit.commitCount.toNat < 2 ^ 64 by omega)
  have count : (Document.int commit.commitCount.toInt64).WrittenAs (toJson commit.commitCount) := by
    have written := Document.writtenAs_int commit.commitCount.toInt64
    rwa [isNat] at written
  exact Document.writtenAs_object (.cons ⟨rfl, writtenAs_string commit.entityName⟩ <|
    .cons ⟨rfl, writtenAs_string commit.id⟩ <| .cons ⟨rfl, count⟩ .nil)

theorem readsBack (commit : UnreachedCommit) : ReadsBack commit := by
  have count : ofJson? (toJson commit.commitCount) = some commit.commitCount :=
    readsBack_count commit.commitCount
  change (do
    return UnreachedCommit.mk (← ofJson? (toJson commit.entityName)) (← ofJson? (toJson commit.id))
      (← ofJson? (toJson commit.commitCount))) = some commit
  rw [count]
  rfl

theorem Fits.ofDocument_toDocument (fits : commit.Fits) :
    ofDocument commit.toDocument = .ok commit := by
  have small : commit.commitCount.toNat ≤ 2 ^ 63 - 1 := fits
  exact ofDocument_toDocument_of_lt (show commit.commitCount.toNat < 2 ^ 63 by omega)

/-- A count that does not fit is written as a negative number, which is refused. -/
theorem ofDocument_toDocument_of_not_fits (large : ¬ commit.Fits) :
    ofDocument commit.toDocument =
      .error (.restore "UnreachedCommit" (.negative "commitCount")) := by
  have large : ¬ commit.commitCount.toNat ≤ 2 ^ 63 - 1 := large
  have negative : commit.commitCount.toInt64 < 0 := by
    rw [Int64.lt_iff_toInt_lt, Int64.toInt_zero]
    exact BitVec.toInt_neg_iff.2 (show 2 ^ 64 ≤ 2 * commit.commitCount.toNat by omega)
  exact if_pos negative

theorem mapM_ofDocument_toDocument_of_not_fits {commits : List UnreachedCommit}
    (member : commit ∈ commits) (large : ¬ commit.Fits) :
    (commits.map toDocument).mapM ofDocument =
      .error (.restore "UnreachedCommit" (.negative "commitCount")) := by
  refine Except.mapM_eq_error ⟨_, List.mem_map_of_mem member,
    ofDocument_toDocument_of_not_fits large⟩ (List.forall_mem_map.2 fun other _ => ?_)
  by_cases fits : other.Fits
  · exact .inl ⟨other, fits.ofDocument_toDocument⟩
  · exact .inr (ofDocument_toDocument_of_not_fits fits)

end UnreachedCommit

namespace NetworkState

theorem writtenAs (network : NetworkState) : network.toDocument.WrittenAs (toJson network) := by
  have requests : (Document.array (network.requests.map .string)).WrittenAs
      (toJson network.requests) := writtenAs_list fun tag _ => writtenAs_string tag
  exact Document.writtenAs_object (.cons ⟨rfl, requests⟩ <| .cons ⟨rfl, ⟨rfl, rfl⟩⟩ .nil)

theorem readsBack (network : NetworkState) : ReadsBack network := by
  have requests : ofJson? (toJson network.requests) = some network.requests :=
    readsBack_list fun tag _ => readsBack_string tag
  change (do
    return NetworkState.mk (← ofJson? (toJson network.requests))
      (← ofJson? (toJson network.isOnline))) = some network
  rw [requests]
  rfl

end NetworkState

namespace Session

variable {session : Session}

theorem writtenAs (finite : session.values.FloatsFinite) :
    session.toDocument.WrittenAs (toJson session) :=
  Document.writtenAs_object (.cons ⟨rfl, writtenAs_string session.id⟩ <|
    .cons ⟨rfl, writtenAs_string session.entityName⟩ <|
    .cons ⟨rfl, writtenAs_optionalString session.userId⟩ <|
    .cons ⟨rfl, writtenAs_optionalString session.expiredAt⟩ <|
    .cons ⟨rfl, finite.writtenAs⟩ .nil)

/-- Null values are read as absent, and absent values are null. -/
theorem readsBack (finite : session.values.FloatsFinite) : ReadsBack session := by
  obtain ⟨id, entityName, userId, expiredAt, values⟩ := session
  have user : ofJson? (toJson userId) = some userId := readsBack_optionalString userId
  have expiry : ofJson? (toJson expiredAt) = some expiredAt := readsBack_optionalString expiredAt
  obtain ⟨read, valuesRead, same⟩ : ∃ read : Option Document,
      ofJson? (toJson values) = some read ∧ read.getD .null = values := by
    cases isNull : values.isNull with
    | true =>
        obtain rfl : values = .null := by
          cases values <;> first | rfl | cases isNull
        exact ⟨none, rfl, rfl⟩
    | false =>
        have present : ReadsBack (some values) := readsBack_option fun present known => by
          obtain rfl := Option.some.inj known
          exact ⟨readsBack_document finite, finite.toJson_ne_null isNull⟩
        exact ⟨some values, present, rfl⟩
  change (do
    return Session.mk (← ofJson? (toJson id)) (← ofJson? (toJson entityName))
      (← ofJson? (toJson userId)) (← ofJson? (toJson expiredAt))
      ((← (ofJson? (toJson values) : Option (Option Document))).getD .null)) = _
  rw [user, expiry, valuesRead, ← same]
  rfl

end Session

namespace LocalError

theorem writtenAs (error : LocalError) : error.toDocument.WrittenAs (toJson error) :=
  ⟨rfl, rfl⟩

theorem readsBack (error : LocalError) : ReadsBack error := by
  obtain ⟨kind, site, message, actionTag⟩ := error
  cases kind <;> cases site <;> rfl

end LocalError

namespace LocalState

/-- Every float in the state is finite. -/
structure FloatsFinite (state : LocalState) : Prop where
  origins : ∀ entityName id info, state.find? entityName id = some info →
    info.origin.FloatsFinite
  heads : ∀ entityName id info, state.find? entityName id = some info →
    ∀ head, info.head = some head → head.FloatsFinite
  commits : ∀ entityName id info, state.find? entityName id = some info →
    ∀ commit ∈ info.commits, commit.Carries Document.FloatsFinite
  session : ∀ session, state.session = some session → session.values.FloatsFinite

/-- Every commit has been read from a document. -/
def CommitsParsed (state : LocalState) : Prop :=
  ∀ entityName id info, state.find? entityName id = some info → ∀ commit ∈ info.commits,
    ∃ wire : Document, wire.KeysDistinct ∧ Update.ofDocument wire = .ok commit

/-- No head is null. -/
def HeadsNotNull (state : LocalState) : Prop :=
  ∀ entityName id info, state.find? entityName id = some info → info.head ≠ some .null

/-- Every count of the queue fits into a signed integer. -/
def CountsFit (state : LocalState) : Prop :=
  ∀ commit ∈ state.unreachedCommits, commit.Fits

variable {state : LocalState}

theorem find?_of_mem {named : String × NameMap EntityInfo} {known : String × EntityInfo}
    (inState : named ∈ state.entities.toList) (inNamed : known ∈ named.2.toList) :
    state.find? named.1 known.1 = some known.2 := by
  rw [find?, NameMap.get?_eq, Members.get?_of_mem state.entities.nodup_keys inState,
    Option.bind_some, NameMap.get?_eq, Members.get?_of_mem named.2.nodup_keys inNamed]

/-- All entities can be stored. -/
def EntitiesStorable (entities : EntityMap) : Prop :=
  ∀ named ∈ entities.toList, ∀ known ∈ named.2.toList, known.2.Storable

/-- A commit that has been read is in its stored form. -/
theorem CommitsParsed.stored (parsed : state.CommitsParsed) {entityName id : String}
    {info : EntityInfo} (found : state.find? entityName id = some info) {commit : Update}
    (member : commit ∈ info.commits) : commit.stored = .ok commit := by
  obtain ⟨wire, distinct, read⟩ := parsed entityName id info found commit member
  exact Update.stored_of_written (Update.written_of_ofDocument distinct read)

theorem FloatsFinite.entitiesStorable (finite : state.FloatsFinite)
    (parsed : state.CommitsParsed) (heads : state.HeadsNotNull) :
    EntitiesStorable state.entities := by
  intro named inState known inNamed
  have found := find?_of_mem inState inNamed
  refine ⟨finite.origins _ _ _ found, fun head isHead => ⟨finite.heads _ _ _ found head isHead, ?_⟩,
    fun commit member => ⟨finite.commits _ _ _ found commit member, parsed.stored found member⟩⟩
  cases isNull : head.isNull with
  | false => rfl
  | true =>
      obtain rfl : head = .null := by
        cases head <;> first | rfl | cases isNull
      exact absurd isHead (heads _ _ _ found)

variable {entities : EntityMap}

theorem EntitiesStorable.writtenAs (storable : EntitiesStorable entities) :
    (entitiesDocument entities).WrittenAs (toJson entities) := by
  have named : ∀ named ∈ entities.toList, (namedDocument named.2).WrittenAs (toJson named.2) :=
    fun named inEntities => writtenAs_map fun known inNamed =>
      (storable named inEntities known inNamed).writtenAs
  exact writtenAs_map named

theorem EntitiesStorable.readsBack (storable : EntitiesStorable entities) : ReadsBack entities :=
  readsBack_map fun named inEntities => readsBack_map fun known inNamed =>
    (storable named inEntities known inNamed).readsBack

/-- A map is read from the object of its members when each of these is read. -/
theorem readEach_map {α : Type} {map : NameMap α} {write : α → Document}
    (read : String → Document → Except UpdateError α)
    (reads : ∀ member ∈ map.toList, read member.1 (write member.2) = .ok member.2) :
    Members.readEach read (map.toList.map fun member => (member.1, write member.2)) =
      .ok map.toList :=
  Except.mapM_map_eq_ok fun member inMap => by rw [reads member inMap]; rfl

theorem EntitiesStorable.readEntities (storable : EntitiesStorable entities) :
    readEntities (some (entitiesDocument entities)) = .ok entities := by
  have named : ∀ named ∈ entities.toList,
      readNamed named.1 (namedDocument named.2) = .ok named.2 := by
    intro named inEntities
    have read := readEach_map (fun _ => EntityInfo.ofDocument) fun known inNamed =>
      (storable named inEntities known inNamed).ofDocument_toDocument
    refine (congrArg (Except.map Keyed.ofList) read).trans (congrArg Except.ok ?_)
    exact named.2.ofList_toList
  refine (congrArg (Except.map Keyed.ofList) (readEach_map readNamed named)).trans
    (congrArg Except.ok ?_)
  exact entities.ofList_toList

end LocalState

end LocalFirst
