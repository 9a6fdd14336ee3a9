import LocalFirst.Proofs.Replay
import LocalFirst.Sync.Server
import Mathlib.Logic.Relation

/-!
# The history of versions

The history of a server keeps the entities that were inserted and the diffs that were broadcast.  A
document was held at a version when it can be replayed from them, and as no version is issued twice
there is only one such document.
-/

namespace LocalFirst

/-- The entity that a diff is about. -/
def VersionDiff.key (diff : VersionDiff) : EntityKey :=
  ⟨diff.entityName, diff.id⟩

/-- All that a server has issued: the entities that were inserted, each with its first
version, and the diffs that were broadcast. -/
structure History where
  inserted : List (EntityKey × String × Document)
  diffs : List VersionDiff

namespace History

/-- The history of a server that has done nothing. -/
def empty : History :=
  ⟨[], []⟩

/-- The history after more diffs were broadcast. -/
def logged (history : History) (diffs : List VersionDiff) : History :=
  { history with diffs := history.diffs ++ diffs }

theorem logged_nil (history : History) : history.logged [] = history := by
  simp [logged]

/-- The history after an entity was inserted. -/
def withInserted (history : History) (key : EntityKey) (version : String) (entity : Document) :
    History :=
  { history with inserted := history.inserted ++ [(key, version, entity)] }

/-- The versions that were issued. -/
def versionIds (history : History) : List String :=
  history.inserted.map (fun entry => entry.2.1) ++ history.diffs.map VersionDiff.versionId

theorem versionIds_logged (history : History) (diffs : List VersionDiff) :
    (history.logged diffs).versionIds =
      history.versionIds ++ diffs.map VersionDiff.versionId := by
  simp [versionIds, logged]

/-- The document that the server held of an entity at a version. -/
inductive Held (history : History) : EntityKey → String → Document → Prop
  | inserted {key : EntityKey} {version : String} {document : Document}
      (member : (key, version, document) ∈ history.inserted) : Held history key version document
  | logged {diff : VersionDiff} {document result : Document} (member : diff ∈ history.diffs)
      (before : Held history diff.key diff.prevVersionId document)
      (applied : ∀ now, diff.operation.apply now document = .ok result) :
      Held history diff.key diff.versionId result

/-- The versions that lead from one version and its document to the last document. -/
inductive Follows (history : History) (key : EntityKey) :
    String → Document → List Version → Document → Prop
  | done {version : String} {document : Document} : Follows history key version document [] document
  | step {diff : VersionDiff} {document next result : Document} {later : List Version}
      (member : diff ∈ history.diffs) (sameKey : diff.key = key)
      (applied : ∀ now, diff.operation.apply now document = .ok next)
      (rest : Follows history key diff.versionId next later result) :
      Follows history key diff.prevVersionId document
        (⟨diff.versionId, some diff.operation⟩ :: later) result

/-- The log of a stored entity begins with the version of its insertion. -/
def LogOf (history : History) (key : EntityKey) (stored : StoredEntity) : Prop :=
  ∃ first document later, stored.versions = ⟨first, none⟩ :: later ∧
    (key, first, document) ∈ history.inserted ∧
    Follows history key first document later stored.current

/-- The history holds all that the server has issued. -/
structure Accounts (history : History) (server : Server) : Prop where
  issued : ∀ version ∈ history.versionIds, ∃ count, count < server.ids.issued ∧
    version = IdSource.identifier server.ids.node count
  nodup : history.versionIds.Nodup
  timeless : ∀ diff ∈ history.diffs, diff.operation.Timeless
  applied : ∀ diff ∈ history.diffs, ∃ document result,
    history.Held diff.key diff.prevVersionId document ∧
      ∀ now, diff.operation.apply now document = .ok result
  logs : ∀ key stored, server.stored? key = some stored → history.LogOf key stored

/-- A history that has grown. -/
structure Extends (history longer : History) : Prop where
  inserted : history.inserted ⊆ longer.inserted
  diffs : history.diffs ⊆ longer.diffs

theorem Extends.refl (history : History) : history.Extends history :=
  ⟨List.Subset.refl _, List.Subset.refl _⟩

theorem Extends.trans {history longer longest : History} (first : history.Extends longer)
    (second : longer.Extends longest) : history.Extends longest :=
  ⟨List.Subset.trans first.inserted second.inserted, List.Subset.trans first.diffs second.diffs⟩

theorem extends_logged (history : History) (diffs : List VersionDiff) :
    history.Extends (history.logged diffs) :=
  ⟨List.Subset.refl _, List.subset_append_left _ _⟩

theorem extends_withInserted (history : History) (key : EntityKey) (version : String)
    (entity : Document) : history.Extends (history.withInserted key version entity) :=
  ⟨List.subset_append_left _ _, List.Subset.refl _⟩

theorem Held.mono {history longer : History} (grows : history.Extends longer) {key : EntityKey}
    {version : String} {document : Document} (held : history.Held key version document) :
    longer.Held key version document := by
  induction held with
  | inserted member => exact .inserted (grows.inserted member)
  | logged member _ applied ih => exact .logged (grows.diffs member) ih applied

theorem Follows.mono {history longer : History} (grows : history.Extends longer)
    {key : EntityKey} {version : String} {document result : Document} {later : List Version}
    (follows : history.Follows key version document later result) :
    longer.Follows key version document later result := by
  induction follows with
  | done => exact .done
  | step member sameKey applied _ ih => exact .step (grows.diffs member) sameKey applied ih

theorem LogOf.mono {history longer : History} (grows : history.Extends longer)
    {key : EntityKey} {stored : StoredEntity} (log : history.LogOf key stored) :
    longer.LogOf key stored := by
  obtain ⟨first, document, later, versions, member, follows⟩ := log
  exact ⟨first, document, later, versions, grows.inserted member, follows.mono grows⟩

theorem Held.mem_keys {history : History} {key : EntityKey} {version : String}
    {document : Document} (held : history.Held key version document) :
    key ∈ history.inserted.map Prod.fst ++ history.diffs.map VersionDiff.key := by
  cases held with
  | inserted member => exact List.mem_append_left _ (List.mem_map_of_mem member)
  | logged member _ _ => exact List.mem_append_right _ (List.mem_map_of_mem member)

/-- A version belongs to one entity, and the server held one document at it. -/
theorem Held.unique {history : History} (nodup : history.versionIds.Nodup)
    {key other : EntityKey} {version : String} {document otherDocument : Document}
    (held : history.Held key version document)
    (otherHeld : history.Held other version otherDocument) :
    key = other ∧ document = otherDocument := by
  obtain ⟨insertedNodup, diffsNodup, apart⟩ := List.nodup_append.1 nodup
  induction held generalizing other otherDocument with
  | inserted member =>
      cases otherHeld with
      | inserted otherMember =>
          have same := List.inj_on_of_nodup_map insertedNodup member otherMember rfl
          simp only [Prod.mk.injEq] at same
          exact ⟨same.1, same.2.2⟩
      | logged otherMember _ _ =>
          exact absurd rfl (apart _ (List.mem_map_of_mem member) _ (List.mem_map_of_mem otherMember))
  | @logged diff _ _ member before applied ih =>
      generalize versionEq : diff.versionId = version at otherHeld
      cases otherHeld with
      | inserted otherMember =>
          exact absurd versionEq.symm
            (apart _ (List.mem_map_of_mem otherMember) _ (List.mem_map_of_mem member))
      | logged otherMember otherBefore otherApplied =>
          have same := List.inj_on_of_nodup_map diffsNodup member otherMember versionEq
          subst same
          obtain ⟨_, rfl⟩ := ih otherBefore
          exact ⟨rfl, Except.ok.inj ((applied default).symm.trans (otherApplied default))⟩

/-- The last of some versions, or the one before them. -/
def lastOf (version : String) : List Version → String
  | [] => version
  | next :: later => lastOf next.id later

theorem lastOf_append (version : String) (first second : List Version) :
    lastOf version (first ++ second) = lastOf (lastOf version first) second := by
  induction first generalizing version with
  | nil => rfl
  | cons next rest ih => exact ih next.id

theorem versionId_of_versions {stored : StoredEntity} {first : String} {later : List Version}
    (versions : stored.versions = ⟨first, none⟩ :: later) :
    stored.versionId = lastOf first later := by
  have last : ∀ (later : List Version) (version : Version),
      (((version :: later).getLast?).map Version.id).getD "" = lastOf version.id later := by
    intro later
    induction later with
    | nil => exact fun _ => rfl
    | cons next rest ih =>
        intro version
        rw [List.getLast?_cons_cons]
        exact ih next
  rw [StoredEntity.versionId, versions, last]

/-- Versions that are appended to a log follow on its latest one. -/
theorem versionId_append {stored : StoredEntity} {first : String} {later : List Version}
    (versions : stored.versions = ⟨first, none⟩ :: later) (current : Document)
    (more : List Version) :
    StoredEntity.versionId ⟨current, stored.versions ++ more⟩ = lastOf stored.versionId more := by
  have extended : (⟨current, stored.versions ++ more⟩ : StoredEntity).versions =
      ⟨first, none⟩ :: (later ++ more) := by simp [versions]
  rw [versionId_of_versions extended, lastOf_append, ← versionId_of_versions versions]

theorem Follows.append {history : History} {key : EntityKey} {version : String}
    {document between result : Document} {first second : List Version}
    (follows : history.Follows key version document first between)
    (continues : history.Follows key (lastOf version first) between second result) :
    history.Follows key version document (first ++ second) result := by
  induction follows with
  | done => exact continues
  | step member sameKey applied _ ih =>
      exact .step member sameKey applied (ih continues)

/-- The last document was held at the last version. -/
theorem Follows.held {history : History} {key : EntityKey} {version : String}
    {document result : Document} {later : List Version}
    (follows : history.Follows key version document later result)
    (held : history.Held key version document) :
    history.Held key (lastOf version later) result := by
  induction follows with
  | done => exact held
  | step member sameKey applied _ ih =>
      subst sameKey
      exact ih (.logged member held applied)

/-- Replaying the logged operations leads to the last document. -/
theorem Follows.applyAll {history : History} {key : EntityKey} {version : String}
    {document result : Document} {later : List Version}
    (follows : history.Follows key version document later result) (now : Instant) :
    Update.applyAll now document (later.filterMap Version.operation) = .ok result := by
  induction follows with
  | done => rfl
  | step _ _ applied _ ih =>
      simp only [List.filterMap_cons, Update.applyAll, List.foldlM_cons, applied now]
      exact ih

theorem Follows.timeless {history : History} {key : EntityKey} {version : String}
    {document result : Document} {later : List Version}
    (follows : history.Follows key version document later result)
    (timeless : ∀ diff ∈ history.diffs, diff.operation.Timeless) :
    ∀ operation ∈ later.filterMap Version.operation, operation.Timeless := by
  induction follows with
  | done => simp
  | step member _ _ _ ih =>
      simp only [List.filterMap_cons]
      exact List.forall_mem_cons.2 ⟨timeless _ member, ih⟩

/-- The versions behind one of a log follow from the document held at it. -/
theorem Follows.after {history : History} {key : EntityKey} {first version : String}
    {operation : Option Update} {document result : Document} {later behind : List Version}
    (follows : history.Follows key first document later result)
    (held : history.Held key first document)
    (found : StoredEntity.versionsAfter? version (⟨first, operation⟩ :: later) = some behind) :
    ∃ between, history.Held key version between ∧
      history.Follows key version between behind result ∧
      lastOf version behind = lastOf first later := by
  induction follows generalizing operation with
  | @done first document =>
      simp only [StoredEntity.versionsAfter?] at found
      split at found
      next same =>
        cases found
        exact ⟨document, same ▸ held, .done, by simp [lastOf, same]⟩
      · cases found
  | @step diff document next result later member sameKey applied rest ih =>
      by_cases same : diff.prevVersionId = version
      · subst same
        simp only [StoredEntity.versionsAfter?, if_true, Option.some.injEq] at found
        subst found
        exact ⟨document, held, .step member sameKey applied rest, rfl⟩
      · simp only [StoredEntity.versionsAfter?, same, if_false] at found
        have nextHeld : history.Held key diff.versionId next := by
          subst sameKey
          exact .logged member held applied
        exact ih nextHeld found

end History

end LocalFirst
