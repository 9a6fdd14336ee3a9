import LocalFirst.Proofs.ClientAnswers
import LocalFirst.Proofs.PendingCommits
import LocalFirst.Proofs.Scenes

/-!
# Catching up

When an entity has moved before the answer to a push comes, a pull follows the push.  It
asks for what is newer than the version that the push has returned, and while it waits,
commits and diffs go on.  The commits are pending behind the others when the pull is
settled.  The operations of the pull lead on to a later document of the server, but they
are replayed on whatever origin is stored then: if a diff has moved the entity in the
meantime, its operation is among them again.
-/

namespace LocalFirst

namespace LocalState

/-- What a client knows of an entity: the commits, and an origin that the server has held at a
version that is not older than another one. -/
def Knows (history : History) (state : LocalState) (key : EntityKey) (commits : List Update)
    (since : String) : Prop :=
  ∃ info version, state.find? key.entityName key.id = some info ∧ info.commits = commits ∧
    info.versionId = some version ∧ history.Later key since version ∧
    history.Held key version info.origin

variable {history : History} {state after : LocalState} {key : EntityKey}
  {commits : List Update} {since : String}

theorem Knows.of_entities (knows : state.Knows history key commits since)
    (same : after.entities = state.entities) : after.Knows history key commits since := by
  simpa only [Knows, find?_of_entities same] using knows

theorem Knows.mono {longer : History} (knows : state.Knows history key commits since)
    (grows : history.Extends longer) : state.Knows longer key commits since := by
  obtain ⟨info, version, known, commitsEq, versionEq, later, held⟩ := knows
  exact ⟨info, version, known, commitsEq, versionEq, History.Later.mono grows later,
    held.mono grows⟩

theorem Knows.pending (knows : state.Knows history key commits since) :
    state.pending key = commits := by
  obtain ⟨info, _, known, rfl, _⟩ := knows
  exact pending_of_find? known

/-- A commit is pending behind the others, as it is read back. -/
theorem Knows.commit {operation : Update} (knows : state.Knows history key commits since)
    (stored : ∀ commit ∈ commits, commit.stored = .ok commit)
    (undergoes : state.Undergoes (.commit key.entityName key.id operation) after) :
    ∃ commit, operation.stored = .ok commit ∧
      after.Knows history key (commits ++ [commit]) since := by
  obtain ⟨info, version, known, rfl, versionEq, later, held⟩ := knows
  obtain ⟨_, before, now, beforeKnown, nowKnown, sameVersion, sameOrigin, read⟩ := undergoes.commit
  obtain rfl := Option.some.inj (known.symm.trans beforeKnown)
  rw [List.mapM_append, Update.mapM_stored_eq_ok stored] at read
  simp only [List.mapM_cons, List.mapM_nil, Except.bind_eq_ok, Except.pure_eq_ok,
    Except.ok.injEq, exists_eq_left'] at read
  obtain ⟨_, ⟨commit, committed, rfl⟩, commitsEq⟩ := read
  exact ⟨commit, committed, now, version, nowKnown, commitsEq.symm, sameVersion.trans versionEq,
    later, sameOrigin ▸ held⟩

/-- A diff that applies moves the entity on to the version that the server has issued with it. -/
theorem Knows.patch {server : Server} {diff : VersionDiff}
    (knows : state.Knows history key commits since)
    (stored : ∀ commit ∈ commits, commit.stored = .ok commit)
    (accounts : history.Accounts server) (member : diff ∈ history.diffs) (sameKey : diff.key = key)
    (undergoes : state.Undergoes (.patch diff) after) : after.Knows history key commits since := by
  subst sameKey
  obtain ⟨time, start, stop, starts, reduced, stops⟩ := undergoes
  obtain ⟨info, version, known, rfl, versionEq, later, held⟩ := knows.of_entities starts
  obtain ⟨other, otherKnown, ⟨_, rfl⟩ | ⟨fresh, _, origin, head, applied, _, reads⟩⟩ :=
    reduce_patch reduced
  · exact knows.of_entities (stops.trans starts)
  · obtain rfl := Option.some.inj (known.symm.trans otherKnown)
    obtain rfl : version = diff.prevVersionId := Option.some.inj (versionEq.symm.trans fresh)
    obtain ⟨document, result, before, always⟩ := accounts.applied diff member
    obtain ⟨_, rfl⟩ := held.unique accounts.nodup before
    obtain rfl := Except.ok.inj ((always time).symm.trans applied)
    obtain ⟨commits, read, nowKnown⟩ := readFrom_toDocument reads
    obtain rfl := Except.ok.inj ((Update.mapM_stored_eq_ok stored).symm.trans read)
    exact ⟨_, diff.versionId, (find?_of_entities stops _ _).trans nowKnown, rfl, rfl,
      later.tail ⟨diff, member, rfl, rfl, rfl⟩, .logged member before always⟩

end LocalState

namespace Scene

/-- What may happen in any number of steps, with the operations that are committed on the way. -/
inductive Trail (key : EntityKey) (first : Scene) : List Update → Scene → Prop
  | refl : Trail key first [] first
  | commit {made : List Update} {scene : Scene} {operation : Update}
      (earlier : Trail key first made scene) (timeless : operation.Timeless)
      (done : (scene.run (Client.commit key operation)).1 = .ok ()) :
      Trail key first (made ++ [operation]) (scene.run (Client.commit key operation)).2
  | beside {made : List Update} {scene next : Scene} (earlier : Trail key first made scene)
      (happens : Step key scene next)
      (keeps : next.client.state.pending key = scene.client.state.pending key) :
      Trail key first made next

variable {key : EntityKey} {scene next : Scene} {commits : List Update} {since : String}

/-- The client knows an entity by the history of the server. -/
abbrev Knows (scene : Scene) (key : EntityKey) (commits : List Update) (since : String) : Prop :=
  scene.client.state.Knows scene.history key commits since

/-- Whatever happens, the pending commits stay, and a commit that is made joins them. -/
theorem Knows.step (knows : scene.Knows key commits since)
    (stored : ∀ commit ∈ commits, commit.stored = .ok commit)
    (accounts : scene.history.Accounts scene.server) (happens : Step key scene next) :
    next.Knows key commits since ∨ ∃ operation commit, operation.Timeless ∧
      (scene.run (Client.commit key operation)).1 = .ok () ∧
      next = (scene.run (Client.commit key operation)).2 ∧ operation.stored = .ok commit ∧
      next.Knows key (commits ++ [commit]) since := by
  cases happens with
  | @commit operation timeless =>
      obtain ⟨done, undergoes⟩ | ⟨_, same⟩ :=
        Client.run_dispatch_entities scene.client (.commit key.entityName key.id operation)
      · obtain ⟨commit, form, knowsMore⟩ := LocalState.Knows.commit knows stored undergoes
        exact .inr ⟨operation, commit, timeless, done, rfl, form, knowsMore⟩
      · exact .inl (knows.of_entities same)
  | @patch diff member sameKey =>
      obtain ⟨_, undergoes⟩ | ⟨_, same⟩ :=
        Client.run_dispatch_entities scene.client (.patch diff)
      · exact .inl (knows.patch stored accounts member sameKey undergoes)
      · exact .inl (knows.of_entities same)
  | @applyDiff diff member sameKey =>
      obtain same | undergoes := Client.run_applyVersionDiff scene.client diff
      · exact .inl (knows.of_entities same)
      · exact .inl (knows.patch stored accounts member sameKey undergoes)
  | serve happens => exact .inl (knows.mono happens.extends)
  | wake sameStore =>
      rw [Knows, Client.state, sameStore]
      exact .inl knows

/-- What has been committed on the way is pending behind the other commits, as it is read back. -/
theorem Knows.steps (knows : scene.Knows key commits since)
    (stored : ∀ commit ∈ commits, commit.stored = .ok commit)
    (accounts : scene.history.Accounts scene.server) (happen : Steps key scene next) :
    ∃ made added, Trail key scene made next ∧ made.mapM Update.stored = .ok added ∧
      next.Knows key (commits ++ added) since := by
  induction happen with
  | refl => exact ⟨[], [], .refl, rfl, by rwa [List.append_nil]⟩
  | @tail between next happen happens ih =>
      obtain ⟨made, added, trail, forms, known⟩ := ih
      have addedStored := Update.stored_of_mapM_stored forms
      obtain knowsOn | ⟨operation, commit, timeless, done, rfl, form, knowsMore⟩ :=
        known.step (List.forall_mem_append.2 ⟨stored, addedStored⟩)
          (accounts_of_steps happen accounts) happens
      · exact ⟨made, added, trail.beside happens (knowsOn.pending.trans known.pending.symm), forms,
          knowsOn⟩
      · refine ⟨_, added ++ [commit], trail.commit timeless done, ?_, ?_⟩
        · rw [List.mapM_append, forms, List.mapM_cons, form]
          rfl
        · rwa [← List.append_assoc]

/-- What has become of an entity from one scene to another one in which an answer is waited for,
and to the last one in which it has been settled.  The commits that were made are pending behind
those that were there.  The stored version is no older than a given one, and the server has held a
document at it.  The origin is this document, unless operations that lead to it from the first
origin have been replayed on another one, which is only if the entity has moved while the answer
was waited for. -/
structure CatchesUp (key : EntityKey) (first waiting last : Scene) (commits : List Update)
    (since : String) : Prop where
  pending : ∃ made added now, Trail key first made waiting ∧
    made.mapM Update.stored = .ok added ∧
    last.client.state.find? key.entityName key.id = some now ∧ now.commits = commits ++ added
  origin : ∃ base late now version expected,
    first.client.state.find? key.entityName key.id = some base ∧
    waiting.client.state.find? key.entityName key.id = some late ∧
    last.client.state.find? key.entityName key.id = some now ∧
    now.versionId = some version ∧ last.history.Later key since version ∧
    last.history.Held key version expected ∧
    (late.versionId = base.versionId → now.origin = expected) ∧
    (now.origin = expected ∨ ∃ operations, ∀ time,
      Update.applyAll time base.origin operations = .ok expected ∧
      Update.applyAll time late.origin operations = .ok now.origin)

/-- Where nothing is taken over in the end, the entity is as it has become on the way. -/
theorem Knows.waited {last : Scene} (knows : scene.Knows key commits since)
    (stored : ∀ commit ∈ commits, commit.stored = .ok commit)
    (accounts : scene.history.Accounts scene.server) (happen : Steps key scene next)
    (sameHistory : last.history = next.history)
    (same : last.client.state.entities = next.client.state.entities) :
    CatchesUp key scene next last commits since := by
  obtain ⟨made, added, trail, forms, late, version, lateKnown, lateCommits, lateVersion, later,
    held⟩ := knows.steps stored accounts happen
  obtain ⟨base, _, baseKnown, _⟩ := knows
  have nowKnown : last.client.state.find? key.entityName key.id = some late :=
    (LocalState.find?_of_entities same _ _).trans lateKnown
  constructor
  · exact ⟨made, added, late, trail, forms, nowKnown, lateCommits⟩
  · exact ⟨base, late, late, version, late.origin, baseKnown, lateKnown, nowKnown, lateVersion,
      sameHistory ▸ later, sameHistory ▸ held, fun _ => rfl, .inl rfl⟩

/-- The operations of a pull lead to a later document of the server, and are replayed on what the
entity has become on the way. -/
theorem Knows.replayed {asking answering last : Scene} {asked : String} {command : PushCommand}
    (knows : scene.Knows key commits since)
    (stored : ∀ commit ∈ commits, commit.stored = .ok commit)
    (accounts : scene.history.Accounts scene.server)
    (fits : (PullKind.since asked).Fits scene.client.state key) (outward : Steps key scene asking)
    (pulled : asking.server.pull key asked = .ok command)
    (inward : Steps key (asking.ask (.pull key asked)).2 answering)
    (sameHistory : last.history = answering.history)
    (undergoes : answering.client.state.Undergoes (.rebase command) last.client.state) :
    CatchesUp key scene answering last commits since := by
  have asksNothing : (Request.pull key asked).Timeless := trivial
  have whole : Steps key scene answering := (outward.tail (.ask asksNothing)).trans inward
  obtain ⟨made, added, trail, forms, late, lateVersion, lateKnown, lateCommits, lateVersionEq, _,
    lateHeld⟩ := knows.steps stored accounts whole
  obtain ⟨base, version, baseKnown, _, baseVersion, baseLater, baseHeld⟩ := knows
  obtain ⟨other, otherKnown, kindEq⟩ := fits
  obtain rfl := Option.some.inj (baseKnown.symm.trans otherKnown)
  obtain rfl : version = asked := Option.some.inj (baseVersion.symm.trans kindEq)
  obtain ⟨before, now, expected, beforeKnown, nowKnown, read, nowVersion, goesOn, expectedHeld,
    replays, unmoved⟩ := rebased (accounts_of_steps outward accounts)
      (baseHeld.mono (extends_of_steps outward)) pulled inward (by
        intro before known
        obtain rfl := Option.some.inj (lateKnown.symm.trans known)
        exact ⟨lateVersion, lateVersionEq, lateHeld⟩) undergoes
  obtain rfl := Option.some.inj (lateKnown.symm.trans beforeKnown)
  have allStored : ∀ commit ∈ late.commits, commit.stored = .ok commit := by
    rw [lateCommits]
    exact List.forall_mem_append.2 ⟨stored, Update.stored_of_mapM_stored forms⟩
  have sameCommits : late.commits = now.commits :=
    Except.ok.inj ((Update.mapM_stored_eq_ok allStored).symm.trans read)
  have later : answering.history.Later key since command.versionId :=
    (History.Later.mono (extends_of_steps whole) baseLater).trans goesOn
  constructor
  · exact ⟨made, added, now, trail, forms, nowKnown, sameCommits.symm.trans lateCommits⟩
  · exact ⟨base, late, now, command.versionId, expected, baseKnown, lateKnown, nowKnown, nowVersion,
      sameHistory ▸ later, sameHistory ▸ expectedHeld,
      fun same => unmoved (same.trans baseVersion), .inr ⟨command.operations, replays⟩⟩

/-- A pull that is settled leaves the commits, whether or not its answer is taken over. -/
theorem Knows.pulled {asking answering last : Scene} {kind : PullKind}
    {response : (kind.request key).Response} (knows : scene.Knows key commits since)
    (stored : ∀ commit ∈ commits, commit.stored = .ok commit)
    (accounts : scene.history.Accounts scene.server)
    (fits : kind.Fits scene.client.state key) (outward : Steps key scene asking)
    (responds : (asking.ask (kind.request key)).1 = response)
    (inward : Steps key (asking.ask (kind.request key)).2 answering)
    (sameHistory : last.history = answering.history)
    (performs : last.client.state.entities = answering.client.state.entities ∨
      ∃ action, kind.Performs key response action ∧
        answering.client.state.Undergoes action last.client.state) :
    CatchesUp key scene answering last commits since := by
  have timeless : (kind.request key).Timeless := by cases kind <;> trivial
  obtain same | ⟨_, performed, undergoes⟩ := performs
  · exact knows.waited stored accounts ((outward.tail (.ask timeless)).trans inward) sameHistory
      same
  cases kind with
  | fetch =>
      -- only an entity that is stored without a version is fetched
      obtain ⟨base, version, baseKnown, _, baseVersion, _⟩ := knows
      obtain ⟨other, otherKnown, noVersion⟩ := fits
      obtain rfl := Option.some.inj (baseKnown.symm.trans otherKnown)
      cases baseVersion.symm.trans noVersion
  | since asked =>
      obtain ⟨command, rfl, rfl⟩ := performed
      exact knows.replayed stored accounts fits outward responds inward sameHistory undergoes

/-- A pull behind a push leaves the commits, and ends the push. -/
theorem Knows.caughtUp {asking answering : Scene} {job : PushJob} {kind : PullKind}
    (sameKey : job.key = key) (knows : scene.Knows key commits since)
    (stored : ∀ commit ∈ commits, commit.stored = .ok commit)
    (accounts : scene.history.Accounts scene.server)
    (fits : kind.Fits scene.client.state job.key) (outward : Steps key scene asking)
    (inward : Steps key (asking.ask (kind.request job.key)).2 answering) (tag : String) :
    let ended := answering.run
      (Client.resume tag (.catchUp job kind none) (asking.ask (kind.request job.key)).1)
    CatchesUp key scene answering ended.2 commits since ∧
      (ended.1 = .ok (.finished (.pushed (.synced job.commits.length))) ∨
        ∃ fault, ended.1 = .error (.state fault)) := by
  subst sameKey
  intro ended
  obtain ⟨performs, errors, gives⟩ := Client.run_resume_catchUp answering.client tag job kind none
    (asking.ask (kind.request job.key)).1
  refine ⟨knows.pulled stored accounts fits outward rfl inward rfl performs, ?_⟩
  rcases result : ended.1 with error | progress
  · obtain ⟨fault, rfl⟩ := errors error result
    exact .inr ⟨fault, rfl⟩
  · exact .inl (congrArg _ ((gives progress result).2.2 rfl))

end Scene

end LocalFirst
