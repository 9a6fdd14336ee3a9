import LocalFirst.Proofs.StateDocument
import LocalFirst.State.Apply

/-!
# The entities that take part in a command

Only the entities that an update touches take part in the document form of the state.  Applying the
update of a command therefore leaves the others alone, and what becomes of one that takes part is
read off its own document.
-/

namespace LocalFirst

namespace LocalState

/-- What a map knows about an entity. -/
def lookUp (entities : EntityMap) (entityName id : String) : Option EntityInfo :=
  (entities.get? entityName).bind (NameMap.get? id)

theorem lookUp_put (entities : EntityMap) (entityName : String) (named : NameMap EntityInfo)
    (other id : String) :
    lookUp (entities.put entityName named) other id =
      if other = entityName then named.get? id else lookUp entities other id := by
  unfold lookUp
  split
  next same => simp [same]
  next differ => rw [NameMap.get?_put_of_ne differ]

theorem get?_getD (entities : EntityMap) (entityName id : String) :
    NameMap.get? id ((entities.get? entityName).getD Keyed.empty) =
      lookUp entities entityName id := by
  unfold lookUp
  cases entities.get? entityName <;> rfl

/-- An entity is put beside the others of its name. -/
theorem lookUp_putEntity (entities : EntityMap) (entityName id : String) (info : EntityInfo)
    (other otherId : String) :
    lookUp (entities.put entityName
        (((entities.get? entityName).getD Keyed.empty).put id info)) other otherId =
      if other = entityName ∧ otherId = id then some info else lookUp entities other otherId := by
  rw [lookUp_put]
  by_cases sameName : other = entityName
  · by_cases sameId : otherId = id
    · simp [sameName, sameId]
    · simp [sameName, sameId, NameMap.get?_put_of_ne, get?_getD]
  · simp [sameName]

theorem lookUp_bring (source target : EntityMap) (entityName id other otherId : String) :
    lookUp (bring source target entityName id) other otherId =
      if other = entityName ∧ otherId = id then
        (lookUp source entityName id).or (lookUp target entityName id)
      else lookUp target other otherId := by
  have unchanged : lookUp source entityName id = none →
      lookUp target other otherId =
        if other = entityName ∧ otherId = id then
          (lookUp source entityName id).or (lookUp target entityName id)
        else lookUp target other otherId := by
    intro missing
    split
    next same => simp [missing, same.1, same.2]
    · rfl
  unfold bring
  split
  next nameMissing => exact unchanged (by simp [lookUp, nameMissing])
  next named nameFound =>
    split
    next idMissing =>
      rw [← unchanged (by simp [lookUp, nameFound, idMissing]), lookUp_put, get?_getD]
      split
      next same => rw [same]
      · rfl
    next info idFound =>
      have found : lookUp source entityName id = some info := by
        simp [lookUp, nameFound, idFound]
      rw [found, Option.some_or]
      exact lookUp_putEntity ..

theorem lookUp_takeOver (source target : EntityMap) (entityName id other otherId : String) :
    lookUp (takeOver source target entityName id) other otherId =
      if other = entityName ∧ otherId = id then lookUp source entityName id
      else lookUp target other otherId := by
  unfold takeOver
  split
  next info found =>
    change lookUp source entityName id = some info at found
    rw [found]
    exact lookUp_putEntity ..
  next missing =>
    change lookUp source entityName id = none at missing
    split
    next nameMissing =>
      split
      next same => rw [missing, same.1, lookUp, nameMissing, Option.bind_none]
      · rfl
    next named nameFound =>
      rw [lookUp_put]
      by_cases sameName : other = entityName
      · by_cases sameId : otherId = id
        · simp [sameName, sameId, missing, NameMap.get?_erase_self]
        · simp [sameName, sameId, NameMap.get?_erase_of_ne, lookUp, nameFound]
      · simp [sameName]

theorem find?_scopedTo (state : LocalState) (touched : List (String × String))
    (entityName id : String) :
    (state.scopedTo touched).find? entityName id =
      if (entityName, id) ∈ touched then state.find? entityName id else none := by
  have brings : ∀ start : EntityMap,
      lookUp (touched.foldl
        (fun kept entity => bring state.entities kept entity.1 entity.2) start) entityName id =
        if (entityName, id) ∈ touched then
          (lookUp state.entities entityName id).or (lookUp start entityName id)
        else lookUp start entityName id := by
    induction touched with
    | nil => simp
    | cons first rest ih =>
        intro start
        rw [List.foldl_cons, ih, lookUp_bring]
        obtain ⟨firstName, firstId⟩ := first
        by_cases here : entityName = firstName ∧ id = firstId
        · obtain ⟨rfl, rfl⟩ := here
          cases lookUp state.entities entityName id <;> simp
        · have notHere : (entityName, id) ≠ (firstName, firstId) := by simpa using here
          simp [here, notHere]
  exact (brings Keyed.empty).trans (by simp [lookUp, find?])

theorem lookUp_foldl_takeOver (source target : EntityMap) (touched : List (String × String))
    (entityName id : String) :
    lookUp (touched.foldl
      (fun entities entity => takeOver source entities entity.1 entity.2) target) entityName id =
      if (entityName, id) ∈ touched then lookUp source entityName id
      else lookUp target entityName id := by
  induction touched generalizing target with
  | nil => simp
  | cons first rest ih =>
      rw [List.foldl_cons, ih, lookUp_takeOver]
      obtain ⟨firstName, firstId⟩ := first
      by_cases here : entityName = firstName ∧ id = firstId
      · obtain ⟨rfl, rfl⟩ := here
        simp
      · have notHere : (entityName, id) ≠ (firstName, firstId) := by simpa using here
        simp [here, notHere]

/-- The update of a command that stays inside single entities is applied to the document
with these entities, and only they are taken from the result. -/
theorem applyCommand_eq_ok {now : Instant} {state next : LocalState} {update : Update}
    {touched : List (String × String)} (nonempty : update.isEmpty = false)
    (reaches : touchedEntities update = some touched)
    (applied : state.applyCommand now update = .ok next) :
    ∃ document result, update.apply now (state.scopedTo touched).toDocument = .ok document ∧
      ofDocument document = .ok result ∧
      (∀ entityName id, next.find? entityName id =
        if (entityName, id) ∈ touched then result.find? entityName id
        else state.find? entityName id) ∧
      next.unreachedCommits = result.unreachedCommits ∧ next.network = result.network ∧
      next.session = result.session ∧ next.error = result.error := by
  simp only [applyCommand, nonempty, reaches, Bool.false_eq_true, if_false, LocalState.apply,
    applyAll, Except.bind_eq_ok, Except.pure_eq_ok, Except.mapError_eq_ok, Update.applyTo,
    Update.applyAll, List.foldlM_cons, List.foldlM_nil] at applied
  obtain ⟨result, ⟨document, ⟨_, updated, rfl⟩, read⟩, rfl⟩ := applied
  exact ⟨_, result, updated, read,
    lookUp_foldl_takeOver result.entities state.entities touched, rfl, rfl, rfl, rfl⟩

/-- Only one entity may differ. -/
structure ConcernsEntity (state next : LocalState) (entityName id : String) : Prop where
  others : ∀ other otherId, ¬ (other = entityName ∧ otherId = id) →
    next.find? other otherId = state.find? other otherId
  unreachedCommits : next.unreachedCommits = state.unreachedCommits
  network : next.network = state.network
  session : next.session = state.session
  error : next.error = state.error

/-- An update that only changes the document of one entity. -/
theorem concernsEntity_of_applyCommand {now : Instant} {state next : LocalState}
    {update : Update} {entityName id : String} (touched : List (String × String))
    (value : Option Document) (nonempty : update.isEmpty = false)
    (reaches : touchedEntities update = some touched)
    (onlyEntity : ∀ other otherId,
      (other, otherId) ∈ touched ↔ other = entityName ∧ otherId = id)
    (applied : state.applyCommand now update = .ok next)
    (changes : ∀ document result : Document, document.HoldsEntities →
      document.entityAt entityName id = (state.find? entityName id).map EntityInfo.toDocument →
      update.apply now document = .ok result →
      Document.ChangesEntity document result entityName id value) :
    ConcernsEntity state next entityName id ∧
      EntityInfo.ReadFrom value (next.find? entityName id) := by
  obtain ⟨document, result, updated, read, found, commits, network, session, error⟩ :=
    applyCommand_eq_ok nonempty reaches applied
  have here := (onlyEntity entityName id).2 ⟨rfl, rfl⟩
  obtain ⟨holds, beside, entityAt⟩ := changes _ _ (holdsEntities_toDocument _)
    (by rw [entityAt_toDocument, find?_scopedTo, if_pos here]) updated
  refine ⟨⟨fun other otherId differ => ?_, ?_, ?_, ?_, ?_⟩, ?_⟩
  · rw [found, if_neg (fun member => differ ((onlyEntity other otherId).1 member))]
  · exact commits.trans (unreachedCommits_of_ofDocument read
      (by rw [beside _ (by decide), get?_unreachedCommits_toDocument]; rfl))
  · exact network.trans (network_of_ofDocument read
      (by rw [beside _ (by decide), get?_network_toDocument]; rfl))
  · exact session.trans (session_of_ofDocument read
      (by rw [beside _ (by decide), get?_session_toDocument]; rfl))
  · exact error.trans (error_of_ofDocument read
      (by rw [beside _ (by decide), get?_error_toDocument]; rfl))
  · have reads := find?_of_ofDocument holds read entityName id
    rw [entityAt, if_pos ⟨rfl, rfl⟩] at reads
    rw [found, if_pos here]
    exact reads

/-- An update that touches no entity leaves all of them as they are. -/
theorem entities_of_applyCommand {now : Instant} {state next : LocalState} {update : Update}
    (reaches : touchedEntities update = some []) (applied : state.applyCommand now update = .ok next) :
    next.entities = state.entities := by
  simp only [applyCommand, reaches] at applied
  split at applied
  · cases applied
    rfl
  · simp only [Except.bind_eq_ok, Except.pure_eq_ok] at applied
    obtain ⟨_, _, rfl⟩ := applied
    rfl

end LocalState

end LocalFirst
