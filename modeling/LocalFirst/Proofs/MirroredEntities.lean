import LocalFirst.Proofs.ActionEffects
import LocalFirst.Proofs.EntityEffects
import LocalFirst.Proofs.VersionHistory

/-!
# Stored entities that mirror the server

The origin that a client stores is the document that the server has held at the stored version, and
every action on an entity keeps this when what it takes over comes from the server.

An entity is stored under the id that its document holds.  When an operation has rewritten the id,
this is not the id by which the server knows the entity.
-/

namespace LocalFirst

/-- The entity of the server from which a client may have what it stores under a key: the one
with this key, or one whose document has held this id. -/
def History.Names (history : History) (server key : EntityKey) : Prop :=
  server.entityName = key.entityName ∧
    (server.id = key.id ∨ ∃ version document, history.Held server version document ∧
      (document.get? "id").bind Document.string? = some key.id)

/-- The origin is the document that the server has held of an entity at the stored version, and
the commits do not read the clock. -/
structure EntityInfo.Mirrors (history : History) (server : EntityKey) (info : EntityInfo) :
    Prop where
  origin : ∃ version, info.versionId = some version ∧ history.Held server version info.origin
  timeless : ∀ commit ∈ info.commits, commit.Timeless

/-- What is stored under a key mirrors an entity of the server that it may come from. -/
def EntityInfo.Snapshot (history : History) (key : EntityKey) (info : EntityInfo) : Prop :=
  ∃ server, history.Names server key ∧ info.Mirrors history server

/-- All origins are snapshots of the server. -/
def LocalState.Snapshots (history : History) (state : LocalState) : Prop :=
  ∀ entityName id info, state.find? entityName id = some info →
    info.Snapshot history ⟨entityName, id⟩

/-- The operations lead from one document that the server has held of an entity to another. -/
def History.Leads (history : History) (key : EntityKey) (version : String) (origin : Document)
    (operations : List Update) (next : String) : Prop :=
  ∃ result, history.Held key version origin ∧
    (∀ now, Update.applyAll now origin operations = .ok result) ∧ history.Held key next result

/-- What an action takes over comes from the server. -/
def Action.Faithful (history : History) (state : LocalState) : Action → Prop
  | .commit _ _ operation => operation.Timeless
  | .follow entityName entity versionId => ∃ version id,
      versionId = some version ∧ history.Held ⟨entityName, id⟩ version entity
  | .setSession session user versionId => ∀ entity version, user = some entity →
      versionId = some version → ∃ id, history.Held ⟨session.entityName, id⟩ version entity
  | .patch diff => diff ∈ history.diffs
  | .rebase command => ∀ info, state.find? command.entityName command.id = some info →
      ∃ version, info.versionId = some version ∧
        history.Leads ⟨command.entityName, command.id⟩ version info.origin command.operations
          command.versionId
  | .synchronizeFrom command origin acknowledged => ∃ version,
      history.Leads ⟨command.entityName, command.id⟩ version origin
        (command.operations ++ acknowledged) command.versionId
  | .replace _ | .assign _ | .followAll .. | .synchronize .. => False
  | _ => True

section Growth

variable {history longer : History} (grows : history.Extends longer)

include grows

theorem History.Names.mono {server key : EntityKey} (names : history.Names server key) :
    longer.Names server key :=
  names.imp_right fun same => same.imp_right fun ⟨version, document, held, named⟩ =>
    ⟨version, document, held.mono grows, named⟩

theorem History.Leads.mono {key : EntityKey} {version next : String} {origin : Document}
    {operations : List Update} (leads : history.Leads key version origin operations next) :
    longer.Leads key version origin operations next := by
  obtain ⟨result, held, applied, resultHeld⟩ := leads
  exact ⟨result, held.mono grows, applied, resultHeld.mono grows⟩

theorem EntityInfo.Mirrors.mono {server : EntityKey} {info : EntityInfo}
    (mirrors : info.Mirrors history server) : info.Mirrors longer server := by
  obtain ⟨⟨version, versionEq, held⟩, timeless⟩ := mirrors
  exact ⟨⟨version, versionEq, held.mono grows⟩, timeless⟩

theorem LocalState.Snapshots.mono {state : LocalState} (snapshots : state.Snapshots history) :
    state.Snapshots longer := by
  intro entityName id info found
  obtain ⟨server, names, mirrors⟩ := snapshots entityName id info found
  exact ⟨server, names.mono grows, mirrors.mono grows⟩

end Growth

namespace EntityInfo

theorem timeless_of_mapM {commits stored : List Update}
    (timeless : ∀ commit ∈ commits, commit.Timeless)
    (read : commits.mapM Update.stored = .ok stored) : ∀ commit ∈ stored, commit.Timeless := by
  intro commit member
  obtain ⟨written, inCommits, parsed⟩ := Except.exists_mem_of_mapM read member
  exact Update.timeless_of_stored (timeless written inCommits) parsed

/-- An origin that was held and commits that are read back mirror the server. -/
theorem mirrors_of_readFrom {history : History} {server : EntityKey} {version : String}
    {origin : Document} {commits : List Update} {head : Option Document}
    {known : Option EntityInfo} {info : EntityInfo} (held : history.Held server version origin)
    (timeless : ∀ commit ∈ commits, commit.Timeless)
    (reads : ReadFrom (some (toDocument ⟨origin, some version, commits, head⟩)) known)
    (found : known = some info) : info.Mirrors history server := by
  obtain ⟨stored, read, knownEq⟩ := LocalState.readFrom_toDocument reads
  obtain rfl := Option.some.inj (found.symm.trans knownEq)
  exact ⟨⟨version, rfl, held⟩, timeless_of_mapM timeless read⟩

/-- What is read back with the same origin and version, and with commits that do not read the
clock, mirrors the same entity. -/
theorem Mirrors.of_readFrom {history : History} {server : EntityKey} {info next : EntityInfo}
    {commits : List Update} {head : Option Document} {known : Option EntityInfo}
    (mirrors : info.Mirrors history server) (timeless : ∀ commit ∈ commits, commit.Timeless)
    (reads : ReadFrom
      (some (toDocument { info with commits := commits, head := head })) known)
    (found : known = some next) : next.Mirrors history server := by
  obtain ⟨⟨version, versionEq, held⟩, _⟩ := mirrors
  rw [versionEq] at reads
  exact mirrors_of_readFrom held timeless reads found

end EntityInfo

namespace LocalState

open EntityInfo

theorem Snapshots.of_entities {history : History} {state next : LocalState}
    (snapshots : state.Snapshots history) (same : next.entities = state.entities) :
    next.Snapshots history := by
  intro entityName id info found
  refine snapshots entityName id info ?_
  rwa [find?, same] at found

theorem Snapshots.of_concernsEntity {history : History} {state next : LocalState}
    {entityName id : String} (snapshots : state.Snapshots history)
    (concerns : ConcernsEntity state next entityName id)
    (entity : ∀ info, next.find? entityName id = some info →
      info.Snapshot history ⟨entityName, id⟩) : next.Snapshots history := by
  intro other otherId info found
  by_cases here : other = entityName ∧ otherId = id
  · obtain ⟨rfl, rfl⟩ := here
    exact entity info found
  · exact snapshots other otherId info (concerns.others other otherId here ▸ found)

/-- What an entity mirrors, if it is followed. -/
def MirrorsAt (history : History) (state : LocalState) (key server : EntityKey) : Prop :=
  ∀ info, state.find? key.entityName key.id = some info → info.Mirrors history server

theorem MirrorsAt.of_entities {history : History} {state next : LocalState}
    {key server : EntityKey} (mirrors : state.MirrorsAt history key server)
    (same : next.entities = state.entities) : next.MirrorsAt history key server := by
  intro info found
  exact mirrors info ((find?_of_entities same _ _).symm.trans found)

theorem MirrorsAt.mono {history longer : History} (grows : history.Extends longer)
    {state : LocalState} {key server : EntityKey} (mirrors : state.MirrorsAt history key server) :
    state.MirrorsAt longer key server :=
  fun info found => (mirrors info found).mono grows

theorem MirrorsAt.commit {history : History} {server : EntityKey} {now : Instant}
    {state next : LocalState} {key : EntityKey} {operation : Update}
    (mirrors : state.MirrorsAt history key server) (timeless : operation.Timeless)
    (reduced : Action.reduce now state (.commit key.entityName key.id operation) = .ok next) :
    next.MirrorsAt history key server := by
  obtain ⟨_, info, parsed, head, known, _, _, reads⟩ := reduce_commit reduced
  refine fun result found => (mirrors info known).of_readFrom (fun commit member => ?_) reads found
  rcases List.mem_append.1 member with old | new
  · exact (mirrors info known).timeless commit old
  · exact List.mem_singleton.1 new ▸ timeless

/-- A diff of the server that applies leads to the next document of its entity. -/
theorem MirrorsAt.patch {history : History} {server : Server} {mirrored : EntityKey}
    {now : Instant} {state next : LocalState} {diff : VersionDiff}
    (accounts : history.Accounts server) (mirrors : state.MirrorsAt history diff.key mirrored)
    (member : diff ∈ history.diffs)
    (reduced : Action.reduce now state (.patch diff) = .ok next) :
    next = state ∨ next.MirrorsAt history diff.key diff.key := by
  obtain ⟨info, known, ⟨_, same⟩ | ⟨fresh, _, origin, head, applied, _, reads⟩⟩ :=
    reduce_patch reduced
  · exact .inl same
  · obtain ⟨⟨version, versionEq, held⟩, timeless⟩ := mirrors info known
    obtain rfl := Option.some.inj (versionEq.symm.trans fresh)
    obtain ⟨document, result, before, always⟩ := accounts.applied diff member
    obtain ⟨rfl, rfl⟩ := held.unique accounts.nodup before
    obtain rfl := Except.ok.inj ((always now).symm.trans applied)
    exact .inr fun result found =>
      mirrors_of_readFrom (.logged member before always) timeless reads found

/-- A clean entity whose document was held stands under the id that the document holds. -/
theorem snapshot_clean {history : History} {entityName id serverId version : String}
    {entity : Document} (idOk : (entity.get? "id").bind Document.string? = some id)
    (held : history.Held ⟨entityName, serverId⟩ version entity) :
    (EntityInfo.clean entity (some version)).Snapshot history ⟨entityName, id⟩ :=
  ⟨⟨entityName, serverId⟩, ⟨rfl, .inr ⟨version, entity, held, idOk⟩⟩, ⟨version, rfl, held⟩,
    by simp [clean]⟩

/-- An action that takes over what comes from the server keeps all origins snapshots. -/
theorem Snapshots.reduce {history : History} {server : Server} {now : Instant}
    {state next : LocalState} {action : Action} (accounts : history.Accounts server)
    (snapshots : state.Snapshots history) (faithful : action.Faithful history state)
    (reduced : action.reduce now state = .ok next) : next.Snapshots history := by
  cases action
  case replace | assign | followAll | synchronize => exact faithful.elim
  case reset =>
    cases reduced
    intro entityName id info found
    cases found
  case clear entityName =>
    intro other id info found
    obtain ⟨before, known, reads⟩ := known_of_reduce_clear reduced found
    obtain ⟨server, names, mirrors⟩ := snapshots other id before known
    exact ⟨server, names, mirrors.of_readFrom mirrors.timeless reads found⟩
  case commit entityName id operation =>
    obtain ⟨concerns, info, _, _, known, _⟩ := reduce_commit reduced
    obtain ⟨server, names, mirrors⟩ := snapshots entityName id info known
    have mirrorsAt : state.MirrorsAt history ⟨entityName, id⟩ server := fun other found =>
      Option.some.inj (known.symm.trans found) ▸ mirrors
    exact snapshots.of_concernsEntity concerns fun result found =>
      ⟨server, names, mirrorsAt.commit faithful reduced result found⟩
  case revert entityName id operations =>
    obtain ⟨concerns, info, requests, head, known, _, _, reads⟩ := reduce_revert reduced
    have within := removeAll_sublist requests info.commits
    obtain ⟨server, names, mirrors⟩ := snapshots entityName id info known
    exact snapshots.of_concernsEntity concerns fun result found =>
      ⟨server, names, mirrors.of_readFrom
        (fun commit member => mirrors.timeless commit (within.subset member)) reads found⟩
  case follow entityName entity versionId =>
    obtain ⟨id, idOk, concerns, known⟩ := reduce_follow reduced
    obtain ⟨version, serverId, rfl, held⟩ := faithful
    refine snapshots.of_concernsEntity concerns fun result found => ?_
    obtain rfl := Option.some.inj (found.symm.trans known)
    exact snapshot_clean idOk held
  case unfollow =>
    obtain ⟨concerns, unknown⟩ := reduce_unfollow reduced
    exact snapshots.of_concernsEntity concerns fun result found =>
      absurd (found.symm.trans unknown) (by simp)
  case setSession session user versionId =>
    rcases reduce_setSession reduced with
      same | ⟨entity, version, id, userEq, versionEq, idOk, others, known⟩
    · exact snapshots.of_entities same
    · obtain ⟨serverId, held⟩ := faithful entity version userEq versionEq
      intro other otherId info found
      by_cases here : other = session.entityName ∧ otherId = id
      · obtain ⟨rfl, rfl⟩ := here
        obtain rfl := Option.some.inj (found.symm.trans known)
        exact snapshot_clean idOk held
      · exact snapshots other otherId info (others other otherId here ▸ found)
  case patch diff =>
    obtain ⟨info, known, ⟨_, rfl⟩ | ⟨_, concerns, _⟩⟩ := reduce_patch reduced
    · exact snapshots
    · obtain ⟨server, names, mirrors⟩ := snapshots _ _ info known
      have mirrorsAt : state.MirrorsAt history diff.key server := fun other found =>
        Option.some.inj (known.symm.trans found) ▸ mirrors
      obtain rfl | patched := mirrorsAt.patch accounts faithful reduced
      · exact snapshots
      · exact snapshots.of_concernsEntity concerns fun result found =>
          ⟨diff.key, ⟨rfl, .inl rfl⟩, patched result found⟩
  case rebase command =>
    obtain ⟨concerns, info, origin, head, known, applied, _, reads⟩ := reduce_rebase reduced
    obtain ⟨version, _, result, _, always, resultHeld⟩ := faithful info known
    obtain rfl := Except.ok.inj ((always now).symm.trans applied)
    obtain ⟨_, _, mirrors⟩ := snapshots _ _ info known
    exact snapshots.of_concernsEntity concerns fun after found =>
      ⟨_, ⟨rfl, .inl rfl⟩, mirrors_of_readFrom resultHeld mirrors.timeless reads found⟩
  case synchronizeFrom command origin acknowledged =>
    obtain ⟨concerns, info, synced, head, known, applied, _, reads⟩ :=
      reduce_synchronizeFrom reduced
    obtain ⟨version, result, _, always, resultHeld⟩ := faithful
    obtain rfl := Except.ok.inj ((always now).symm.trans applied)
    obtain ⟨_, _, mirrors⟩ := snapshots _ _ info known
    exact snapshots.of_concernsEntity concerns fun after found =>
      ⟨_, ⟨rfl, .inl rfl⟩, mirrors_of_readFrom resultHeld
        (fun commit member => mirrors.timeless commit (List.mem_of_mem_drop member)) reads found⟩
  all_goals exact snapshots.of_entities (entities_of_reduce_beside (by exact trivial) reduced)

theorem Snapshots.undergoes {history : History} {server : Server} {before after : LocalState}
    {action : Action} (accounts : history.Accounts server) (snapshots : before.Snapshots history)
    (faithful : action.Faithful history before) (undergoes : before.Undergoes action after) :
    after.Snapshots history := by
  obtain ⟨now, start, stop, starts, reduced, stops⟩ := undergoes
  have startFaithful : action.Faithful history start := by
    cases action
    case rebase => simpa only [Action.Faithful, find?, starts] using faithful
    all_goals exact faithful
  exact ((snapshots.of_entities starts).reduce accounts startFaithful reduced).of_entities stops

end LocalState

end LocalFirst
