import LocalFirst.Proofs.SlotActions

/-!
# Updates of different fields commute

Two updates are apart when no path that one of them addresses is a prefix of one that the other
addresses.  As long as no segment is read as an array index, such updates have the same outcome in
either order, up to the order of members: what the second one needs, the first one neither makes nor
takes away.

An update is a list of entries, and an entry a list of steps, each of which changes one slot below
the root.  Lists of steps commute as their steps do.
-/

namespace LocalFirst

namespace Path

/-- No segment of the path is read as an array index. -/
def Plain (path : Path) : Prop :=
  ∀ segment ∈ path.segments, index? segment = none

instance (path : Path) : Decidable path.Plain :=
  inferInstanceAs (Decidable (∀ _ ∈ _, _))

/-- Neither path is a prefix of the other. -/
def Apart (path other : Path) : Prop :=
  ¬ path.segments <+: other.segments ∧ ¬ other.segments <+: path.segments

instance (path other : Path) : Decidable (path.Apart other) :=
  inferInstanceAs (Decidable (_ ∧ _))

theorem Apart.symm {path other : Path} (apart : path.Apart other) : other.Apart path :=
  ⟨apart.2, apart.1⟩

/-- The place lies under none of the paths. -/
def Beside (paths : List Path) (place : List String) : Prop :=
  ∀ path ∈ paths, ¬ path.segments <+: place

theorem Beside.of_append {paths : List Path} {place more : List String}
    (beside : Beside paths (place ++ more)) : Beside paths place :=
  fun path member within => beside path member (within.trans (List.prefix_append place more))

theorem not_beside_segments {paths : List Path} {path : Path} (member : path ∈ paths) :
    ¬ Beside paths path.segments :=
  fun beside => beside path member List.prefix_rfl

theorem isPrefix_of_covers {segments others : List String}
    (plain : ∀ segment ∈ others, index? segment = none) (covers : Covers segments others) :
    segments <+: others := by
  induction segments generalizing others with
  | nil => exact List.nil_prefix
  | cons segment rest ih =>
      rcases others with _ | ⟨other, others⟩
      · exact covers.elim
      obtain ⟨otherPlain, restPlain⟩ := List.forall_mem_cons.1 plain
      obtain ⟨meets, restCovers⟩ := covers
      have same : segment = other := by
        by_contra differ
        exact not_meets (Ne.symm differ) otherPlain meets.symm
      exact List.cons_prefix_cons.2 ⟨same, ih restPlain restCovers⟩

theorem Apart.not_conflicts {path other : Path} (apart : path.Apart other) (plain : path.Plain)
    (otherPlain : other.Plain) : ¬ path.Conflicts other := by
  rintro (covers | covers)
  · exact apart.1 (isPrefix_of_covers otherPlain covers)
  · exact apart.2 (isPrefix_of_covers plain covers)

end Path

namespace SlotAction

/-- What an edit does to the document that holds its field. -/
def ofEdit (now : Instant) (edit : Edit) : SlotAction where
  create := edit.creates
  act := edit.act now
  slotwise := edit.slotwise_act now
  idle notCreates key := by cases edit <;> first | rfl | cases notCreates

/-- Take a field away to write it elsewhere. -/
def taking : SlotAction where
  create := false
  act := Entry.renameSource
  slotwise := slotwise_renameSource
  idle _ _ := rfl

/-- Write a value. -/
def writing (value : Document) : SlotAction where
  create := true
  act node key := node.setChild key value
  slotwise := slotwise_setChild value
  idle notCreates := nomatch notCreates

end SlotAction

/-- An action at a path. -/
structure PathStep where
  path : Path
  action : SlotAction

namespace PathStep

def run (document : Document) (step : PathStep) : Except EntryFault Document :=
  document.atParent step.action.create step.action.act step.path

theorem run_eq_ok_iff {step : PathStep} {document result : Document} :
    step.run document = .ok result ↔
      step.path.fault? = none ∧ step.action.under step.path.segments document = .ok result := by
  unfold run Document.atParent
  cases step.path.fault? <;> simp [SlotAction.under]

theorem respects {paths : List Path} {step : PathStep} (plain : ∀ path ∈ paths, path.Plain)
    (member : step.path ∈ paths) :
    Respects (Document.Rearranged (Path.Beside paths)) (run · step) := by
  intro document other result alike ran
  obtain ⟨noFault, ran⟩ := run_eq_ok_iff.1 ran
  obtain ⟨otherResult, otherRan, resultAlike⟩ :=
    SlotAction.respects_under (plain step.path member) (fun _ _ => Path.Beside.of_append)
      (Path.not_beside_segments member) alike ran
  exact ⟨otherResult, run_eq_ok_iff.2 ⟨noFault, otherRan⟩, resultAlike⟩

theorem commutes {paths others : List Path} {step other : PathStep}
    (plain : ∀ path ∈ paths ++ others, path.Plain)
    (apart : ∀ path ∈ paths, ∀ other ∈ others, path.Apart other)
    (member : step.path ∈ paths) (otherMember : other.path ∈ others) :
    Commutes (Document.Rearranged (Path.Beside (paths ++ others))) (run · step) (run · other) := by
  obtain ⟨pathsPlain, othersPlain⟩ := List.forall_mem_append.1 plain
  -- no path leads to a place that both steps pass, as it would lead to the other one's path then
  have common : ∀ place, place <+: step.path.segments → place <+: other.path.segments →
      Path.Beside (paths ++ others) place := by
    intro place within otherWithin path pathMember covers
    rcases List.mem_append.1 pathMember with inPaths | inOthers
    · exact (apart path inPaths other.path otherMember).1 (covers.trans otherWithin)
    · exact (apart step.path member path inOthers).2 (covers.trans within)
  have stepsApart := apart step.path member other.path otherMember
  intro document between result ran otherRan
  obtain ⟨noFault, ran⟩ := run_eq_ok_iff.1 ran
  obtain ⟨otherNoFault, otherRan⟩ := run_eq_ok_iff.1 otherRan
  obtain ⟨otherBetween, otherResult, otherFirst, last, alike⟩ :=
    SlotAction.commutes_under (pathsPlain step.path member) (othersPlain other.path otherMember)
      stepsApart.1 stepsApart.2 common ran otherRan
  exact ⟨otherBetween, otherResult, run_eq_ok_iff.2 ⟨otherNoFault, otherFirst⟩,
    run_eq_ok_iff.2 ⟨noFault, last⟩, alike⟩

end PathStep

namespace Entry

variable {now : Instant} {entry other : Entry} {document result : Document}
  {field : Option Document} {paths others : List Path}

/-- The steps of a rename, for what is in the field.  When the target cannot be addressed, there is
one that fails. -/
def renameSteps (field : Option Document) (path target : Path) : List PathStep :=
  if target.fault?.isSome then [⟨target, .writing .null⟩]
  else if target = path then []
  else ⟨path, .taking⟩ :: field.toList.map fun value => ⟨target, .writing value⟩

/-- The steps of an entry, for what is in its field. -/
def steps (now : Instant) (field : Option Document) (entry : Entry) : List PathStep :=
  match entry.edit with
  | .rename name => renameSteps field entry.path (entry.path.renamed name)
  | edit => [⟨entry.path, .ofEdit now edit⟩]

theorem rename_eq_ok_iff {path : Path} {name : String} : rename document path name = .ok result ↔
    (renameSteps (document.resolve? path) path (path.renamed name)).foldlM PathStep.run document =
      .ok result := by
  unfold rename renameSteps
  generalize path.renamed name = target
  cases fault : target.fault? with
  | some fault => simp [PathStep.run, Document.atParent, fault, bind, Except.bind]
  | none =>
      by_cases same : target = path
      · subst same
        simp [fault]
      · cases document.resolve? path <;>
          simp [fault, same, blame, PathStep.run, SlotAction.taking, SlotAction.writing]

theorem run_eq_ok_iff : entry.run now document = .ok result ↔
    (entry.steps now (document.resolve? entry.path)).foldlM PathStep.run document = .ok result := by
  obtain ⟨path, edit⟩ := entry
  cases edit with
  | rename name => exact rename_eq_ok_iff
  | _ => simp [run, steps, blame, PathStep.run, SlotAction.ofEdit]

theorem path_mem_of_steps {step : PathStep} (member : step ∈ entry.steps now field) :
    step.path ∈ entry.addressed := by
  obtain ⟨path, edit⟩ := entry
  cases edit with
  | rename name =>
      suffices step.path = path ∨ step.path = path.renamed name by simpa [addressed] using this
      simp only [steps, renameSteps] at member
      split at member
      · rw [List.mem_singleton] at member
        exact .inr (congrArg PathStep.path member)
      split at member
      · cases member
      rcases List.mem_cons.1 member with rfl | written
      · exact .inl rfl
      · obtain ⟨value, _, rfl⟩ := List.mem_map.1 written
        exact .inr rfl
  | _ => simp_all [steps, addressed]

/-- Entries respect the equality up to the order of members: they find the same fields. -/
theorem respects (plain : ∀ path ∈ paths, path.Plain) (within : entry.addressed ⊆ paths) :
    Respects (Document.Rearranged (Path.Beside paths)) (run now · entry) := by
  intro document other result alike ran
  have sameField : document.resolve? entry.path = other.resolve? entry.path :=
    alike.below?_eq (fun _ _ => Path.Beside.of_append)
      (Path.not_beside_segments (within entry.path_mem_addressed))
  simp only [run_eq_ok_iff, ← sameField] at ran ⊢
  exact Respects.foldlM
    (fun step member => PathStep.respects plain (within (path_mem_of_steps member))) alike ran

theorem commutes (plain : ∀ path ∈ paths ++ others, path.Plain)
    (apart : ∀ path ∈ paths, ∀ other ∈ others, path.Apart other)
    (within : entry.addressed ⊆ paths) (otherWithin : other.addressed ⊆ others) :
    Commutes (Document.Rearranged (Path.Beside (paths ++ others)))
      (run now · entry) (run now · other) := by
  intro document between result ran otherRan
  obtain ⟨pathsPlain, othersPlain⟩ := List.forall_mem_append.1 plain
  have pathMember := within entry.path_mem_addressed
  have otherMember := otherWithin other.path_mem_addressed
  -- neither entry changes what the other one finds in its field
  have sameField : ∀ {document result : Document}, entry.run now document = .ok result →
      result.resolve? other.path = document.resolve? other.path := fun ran =>
    resolve?_of_run
      (fun path member => (apart path (within member) _ otherMember).symm.not_conflicts
        (othersPlain _ otherMember) (pathsPlain path (within member)))
      (.inr (othersPlain _ otherMember)) ran
  have otherSameField : ∀ {document result : Document}, other.run now document = .ok result →
      result.resolve? entry.path = document.resolve? entry.path := fun ran =>
    resolve?_of_run
      (fun path member => (apart _ pathMember path (otherWithin member)).not_conflicts
        (pathsPlain _ pathMember) (othersPlain path (otherWithin member)))
      (.inr (pathsPlain _ pathMember)) ran
  have sameBetween := sameField ran
  simp only [run_eq_ok_iff, sameBetween] at ran otherRan ⊢
  obtain ⟨otherBetween, otherResult, otherFirst, last, alike⟩ :=
    Commutes.foldlM .refl .trans
      (fun step member => PathStep.respects plain
        (List.mem_append_left _ (within (path_mem_of_steps member))))
      (fun step member => PathStep.respects plain
        (List.mem_append_right _ (otherWithin (path_mem_of_steps member))))
      (fun step member other otherMember => PathStep.commutes plain apart
        (within (path_mem_of_steps member)) (otherWithin (path_mem_of_steps otherMember)))
      ran otherRan
  refine ⟨otherBetween, otherResult, otherFirst, ?_, alike⟩
  rwa [otherSameField (run_eq_ok_iff.2 otherFirst)]

end Entry

namespace Update

variable {now : Instant} {first second : Update}

theorem commutes (plain : ∀ path ∈ first.addressed ++ second.addressed, path.Plain)
    (apart : ∀ path ∈ first.addressed, ∀ other ∈ second.addressed, path.Apart other) :
    Commutes (Document.Rearranged (Path.Beside (first.addressed ++ second.addressed)))
      (first.apply now ·) (second.apply now ·) := by
  have within {update : Update} {entry : Entry} (member : entry ∈ update.entries.toList) :
      entry.addressed ⊆ update.addressed := fun _ path => List.mem_flatMap_of_mem member path
  refine Commutes.foldlM .refl .trans
    (fun entry member => Entry.respects plain ?_)
    (fun entry member => Entry.respects plain ?_)
    (fun entry member other otherMember => Entry.commutes plain apart (within member)
      (within otherMember))
  · exact List.Subset.trans (within member) (List.subset_append_left _ _)
  · exact List.Subset.trans (within member) (List.subset_append_right _ _)

theorem applyAll_pair_eq_ok_iff {document result : Document} :
    applyAll now document [first, second] = .ok result ↔ ∃ between,
      first.apply now document = .ok between ∧ second.apply now between = .ok result := by
  simp [applyAll]

/-- Updates that are apart have the same outcome in either order.  Both orders fail, or both give
documents that are equal up to the order of members, which the equality of documents does not
see. -/
theorem applyAll_pair_comm (now : Instant) (document : Document)
    (plain : ∀ path ∈ first.addressed ++ second.addressed, path.Plain)
    (apart : ∀ path ∈ first.addressed, ∀ other ∈ second.addressed, path.Apart other) :
    ((∃ error, applyAll now document [first, second] = .error error) ∧
        ∃ error, applyAll now document [second, first] = .error error) ∨
      ∃ result other, applyAll now document [first, second] = .ok result ∧
        applyAll now document [second, first] = .ok other ∧
        result.Rearranged (Path.Beside (first.addressed ++ second.addressed)) other ∧
        ∀ compared : Document, compared.same result = compared.same other := by
  cases outcome : applyAll now document [first, second] with
  | ok result =>
      obtain ⟨between, ran, secondRan⟩ := applyAll_pair_eq_ok_iff.1 outcome
      obtain ⟨otherBetween, other, secondFirst, last, alike⟩ := commutes plain apart ran secondRan
      exact .inr ⟨result, other, rfl,
        applyAll_pair_eq_ok_iff.2 ⟨otherBetween, secondFirst, last⟩, alike, alike.same_eq⟩
  | error error =>
      cases swapped : applyAll now document [second, first] with
      | error swappedError => exact .inl ⟨⟨error, rfl⟩, swappedError, rfl⟩
      | ok result =>
          obtain ⟨between, ran, secondRan⟩ := applyAll_pair_eq_ok_iff.1 swapped
          have swappedPlain : ∀ path ∈ second.addressed ++ first.addressed, path.Plain :=
            fun path member => plain path (List.mem_append.2 (List.mem_append.1 member).symm)
          obtain ⟨otherBetween, other, firstRan, last, _⟩ := commutes swappedPlain
            (fun path member other otherMember => (apart other otherMember path member).symm)
            ran secondRan
          cases outcome.symm.trans (applyAll_pair_eq_ok_iff.2 ⟨otherBetween, firstRan, last⟩)

/-- Renames a field into a new object, and pushes to a list there. -/
def filing : Update :=
  .ofEntries [⟨⟨["old"]⟩, .rename "meta.name"⟩,
    ⟨⟨["meta", "tags"]⟩, .push ⟨[.null], none, none, none⟩⟩]

/-- Counts in the same new object, and removes from a list that is not there. -/
def counting : Update :=
  .ofEntries [⟨⟨["meta", "count"]⟩, .inc (.int 1)⟩, ⟨⟨["gone", "list"]⟩, .pop .last⟩]

theorem applyAll_filing_counting :
    (∀ path ∈ filing.addressed ++ counting.addressed, path.Plain) ∧
      (∀ path ∈ filing.addressed, ∀ other ∈ counting.addressed, path.Apart other) ∧
      ∃ result other, applyAll default notes [filing, counting] = .ok result ∧
        applyAll default notes [counting, filing] = .ok other ∧
        result.Rearranged (Path.Beside (filing.addressed ++ counting.addressed)) other := by
  have plain : ∀ path ∈ filing.addressed ++ counting.addressed, path.Plain := by
    decide +kernel
  have apart : ∀ path ∈ filing.addressed, ∀ other ∈ counting.addressed, path.Apart other := by
    decide +kernel
  have succeeds : (applyAll default notes [filing, counting]).toOption.isSome = true := by
    decide +kernel
  refine ⟨plain, apart, ?_⟩
  rcases applyAll_pair_comm default notes plain apart with
    ⟨⟨error, failed⟩, _⟩ | ⟨result, other, ran, swapped, alike, _⟩
  · rw [failed] at succeeds
    cases succeeds
  · exact ⟨result, other, ran, swapped, alike⟩

end Update

end LocalFirst
