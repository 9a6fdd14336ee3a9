import LocalFirst.Proofs.AdmittedPaths

/-!
# Where a field can be set

To set a field is to walk down its path and to create what is missing on the way, so that whether
it succeeds could depend on what was created before.  It does not: only what is already there can
stand in the way.  As long as the path resolves, each document on it has to admit the next segment,
which objects always do, arrays do up to a distance behind their end, and scalars never do; the
part of the path that does not resolve can always be created.  What was created is found again, so
that no update ever fails because it cannot reach a document that it has just made.
-/

universe u

namespace LocalFirst

namespace Document

variable {create : Bool} {act : Document → String → Except EntryFault Document}

theorem setChild_ne_notReachable (node : Document) (key : String) (value : Document) :
    node.setChild key value ≠ .error .notReachable := by
  cases node <;> simp only [setChild]
  case array =>
    repeat' split
    all_goals simp
  all_goals simp

theorem updateParent_ne_notReachable
    (act_ne : ∀ node key, act node key ≠ .error .notReachable) (node : Document)
    (segments : List String) : node.updateParent create act segments ≠ .error .notReachable := by
  induction segments generalizing node with
  | nil => simp [updateParent]
  | cons key rest ih =>
      cases rest with
      | nil => exact act_ne node key
      | cons next rest =>
          rw [updateParent]
          cases node.child? key with
          | some child =>
              rw [ne_eq, Except.bind_eq_error]
              rintro (below | ⟨updated, _, written⟩)
              · exact ih child below
              · exact setChild_ne_notReachable node key updated written
          | none =>
              cases create with
              | false => simp
              | true =>
                  simp only [if_true, ne_eq, Except.bind_eq_error]
                  rintro (written | ⟨grown, grownOk, goesOn⟩)
                  · exact setChild_ne_notReachable node key emptyObject written
                  · simp only [child?_setChild_self grownOk, Except.bind_eq_error] at goesOn
                    rcases goesOn with below | ⟨updated, _, written⟩
                    · exact ih emptyObject below
                    · exact setChild_ne_notReachable grown key updated written

theorem atParent_ne_notReachable
    (act_ne : ∀ node key, act node key ≠ .error .notReachable) (document : Document)
    (path : Path) : document.atParent create act path ≠ .error .notReachable := by
  unfold atParent
  split
  · simp
  · exact updateParent_ne_notReachable act_ne document path.segments

end Document

theorem Change.run_ne_notReachable (change : Change) (node : Document) (key : String) :
    change.run node key ≠ .error .notReachable := by
  cases change with
  | write value => exact Document.setChild_ne_notReachable node key value
  | keep | remove => simp [run]

theorem Edit.decision_ne_notReachable (now : Instant) (edit : Edit) (slot : Option Document) :
    edit.decision now slot ≠ .error .notReachable := by
  cases edit <;> cases slot <;>
    simp only [decision, decideNumber, decideArray, decideBits, decideIf] <;>
    repeat' split
  all_goals simp

theorem Edit.act_ne_notReachable (now : Instant) (edit : Edit) (node : Document) (key : String) :
    edit.act now node key ≠ .error .notReachable := by
  rw [act_eq, ne_eq, Except.bind_eq_error]
  rintro (undecided | ⟨change, _, ran⟩)
  · exact edit.decision_ne_notReachable now _ undecided
  · exact change.run_ne_notReachable node key ran

namespace Entry

theorem blame_ne_notReachable {α : Type u} {operator : Operator} {path : Path}
    {outcome : Except EntryFault α} (reached : outcome ≠ .error .notReachable) (blamed : String)
    (blamedPath : Path) :
    blame operator path outcome ≠ .error (.invalid blamed blamedPath .notReachable) := by
  intro failed
  cases outcome with
  | ok value => cases failed
  | error fault =>
      obtain ⟨_, _, rfl⟩ := UpdateError.invalid.inj (Except.error.inj failed)
      exact reached rfl

theorem rename_ne_notReachable (document : Document) (path : Path) (name : String)
    (blamed : String) (blamedPath : Path) :
    rename document path name ≠ .error (.invalid blamed blamedPath .notReachable) := by
  have takes : ∀ node key, renameSource node key ≠ .error .notReachable := by
    intro node key
    unfold renameSource
    split <;> simp
  unfold rename
  simp only
  split
  · simp
  split
  · simp
  simp only [ne_eq, Except.bind_eq_error]
  rintro (failed | ⟨remaining, _, goesOn⟩)
  · exact blame_ne_notReachable (Document.atParent_ne_notReachable takes document path) _ _ failed
  · split at goesOn
    · cases goesOn
    next value _ =>
      refine blame_ne_notReachable (Document.atParent_ne_notReachable ?_ remaining _) _ _ goesOn
      exact fun node key => Document.setChild_ne_notReachable node key value

theorem run_ne_notReachable (now : Instant) (document : Document) (entry : Entry)
    (blamed : String) (blamedPath : Path) :
    entry.run now document ≠ .error (.invalid blamed blamedPath .notReachable) := by
  unfold run
  split
  · exact rename_ne_notReachable document _ _ blamed blamedPath
  · exact blame_ne_notReachable (Document.atParent_ne_notReachable
      (entry.edit.act_ne_notReachable now) document entry.path) blamed blamedPath

end Entry

namespace Update

theorem apply_ne_notReachable (now : Instant) (document : Document) (update : Update)
    (blamed : String) (blamedPath : Path) :
    update.apply now document ≠ .error (.invalid blamed blamedPath .notReachable) := by
  unfold apply
  generalize update.entries.toList = entries
  induction entries generalizing document with
  | nil => simp [pure, Except.pure]
  | cons entry rest ih =>
      rw [List.foldlM_cons, ne_eq, Except.bind_eq_error]
      rintro (failed | ⟨between, _, restFailed⟩)
      · exact entry.run_ne_notReachable now document blamed blamedPath failed
      · exact ih between restFailed

/-- A field can be set exactly when its path is sound and leads on from each document that is there.
Once the path leaves what is there, it does not matter how far it goes on; and whatever an update
does, it reaches what it has created. -/
theorem set_succeeds_iff (now : Instant) (document : Document) (path : Path) (value : Document) :
    ((∃ result, (Update.empty.set path value).apply now document = .ok result) ↔
      path.segments ≠ [] ∧ "" ∉ path.segments ∧
      ∀ parents key rest reached, path.segments = parents ++ key :: rest →
        document.resolve? ⟨parents⟩ = some reached → reached.Admits key) ∧
    (∀ parents key rest reached, path.segments = parents ++ key :: rest → "" ∉ path.segments →
      document.resolve? ⟨parents⟩ = some reached → reached.Admits key →
      reached.child? key = none →
        ∃ result, (Update.empty.set path value).apply now document = .ok result) ∧
    ∀ update blamed blamedPath,
      apply now document update ≠ .error (.invalid blamed blamedPath .notReachable) := by
  have sound : path.fault? = none ↔ path.segments ≠ [] ∧ "" ∉ path.segments := by
    by_cases root : path.segments = []
    · simp [Path.fault?, Path.isRoot, root]
    · simp [Path.fault?, Path.isRoot, root]
  have succeeds : (∃ result, (Update.empty.set path value).apply now document = .ok result) ↔
      path.fault? = none ∧ document.AdmitsAll path.segments := by
    simp only [apply_set_eq_ok_iff, exists_and_left, Document.exists_write_iff]
    exact and_congr_right fun faultless => and_iff_right (sound.1 faultless).1
  refine ⟨?_, ?_, fun update => apply_ne_notReachable now document update⟩
  · rw [succeeds, sound, and_assoc]
    rfl
  · intro parents key rest reached split noneEmpty found admits missing
    refine succeeds.2 ⟨sound.2 ⟨by simp [split], noneEmpty⟩, ?_⟩
    rw [split]
    exact Document.admitsAll_of_missing found admits missing

/-- The last item that a list of two admits, and the one behind it; both behind a field that is
not there yet. -/
theorem set_succeeds_notes :
    (∃ result, (Update.empty.set ⟨["list", "+10001", "7", "x"]⟩ .null).apply default notes =
      .ok result) ∧
    (¬ ∃ result, (Update.empty.set ⟨["list", "10002", "7", "x"]⟩ .null).apply default notes =
      .ok result) ∧
    scattered.apply default notes ≠
      .error (.invalid "$push" ⟨["list", "1", "tags"]⟩ .notReachable) := by
  have reads : Path.index? "+10001" = some 10001 := by decide +kernel
  have readsBehind : Path.index? "10002" = some 10002 := by decide +kernel
  refine ⟨?_, fun success => ?_, ?_⟩
  · exact (set_succeeds_iff default notes ⟨["list", "+10001", "7", "x"]⟩ .null).2.1
      ["list"] "+10001" ["7", "x"] _ rfl (by decide) rfl
      ⟨10001, Path.index?_eq_some_iff.1 reads, by decide⟩ (by rw [Document.child?, reads]; rfl)
  · obtain ⟨_, _, admits⟩ :=
      (set_succeeds_iff default notes ⟨["list", "10002", "7", "x"]⟩ .null).1.1 success
    obtain ⟨index, numbers, near⟩ := admits ["list"] "10002" ["7", "x"] _ rfl rfl
    cases readsBehind.symm.trans (Path.index?_eq_some_iff.2 numbers)
    exact absurd near (by decide)
  · exact (set_succeeds_iff default notes ⟨["list", "1", "tags"]⟩ .null).2.2 scattered "$push" _

end Update

end LocalFirst
