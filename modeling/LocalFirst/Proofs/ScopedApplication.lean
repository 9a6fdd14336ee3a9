import LocalFirst.Proofs.CommandUpdates
import LocalFirst.Proofs.EntityNames
import LocalFirst.Proofs.ScopedReading

/-!
# Applying an update to part of the state

A command whose paths stay inside single entities is applied to the document with these
entities only, and the others are carried over.  For a state that its own document gives back
this is a refinement of applying the command to the whole state: one of the two fails exactly
when the other does, with the same error, and where both succeed they know the same of every
entity and of everything beside the entities.  They can differ only in names under which
nothing stands: reading the whole document drops none, while an entity that is taken out and
was never there leaves a new name behind in it.
-/

namespace LocalFirst

namespace LocalState

variable {touched : List (String × String)}

theorem apply_eq (now : Instant) (state : LocalState) (update : Update) :
    state.apply now update =
      (update.apply now state.toDocument >>= ofDocument).mapError .update := by
  rw [LocalState.apply, applyAll, Update.applyTo, Update.applyAll, List.foldlM_cons]
  cases update.apply now (DocumentForm.toDocument state) <;> rfl

theorem applyCommand_eq {now : Instant} {state : LocalState} {update : Update}
    (nonempty : update.isEmpty = false) (reaches : touchedEntities update = some touched) :
    state.applyCommand now update = ((state.scopedTo touched).apply now update).map fun applied =>
      { applied with
        entities := touched.foldl
          (fun entities entity => takeOver applied.entities entities entity.1 entity.2)
          state.entities } := by
  simp only [applyCommand, nonempty, reaches, Bool.false_eq_true, if_false]
  cases (state.scopedTo touched).apply now update <;> rfl

/-- What an update of the touched entities makes of the state and its document. -/
structure Outcome (touched : List (String × String)) (state part whole : LocalState)
    (result : Document) : Prop where
  changes : Document.ChangesWithin touched state.toDocument result
  read : ofDocument result = .ok whole
  sameEntities : ∀ entityName id, part.find? entityName id = whole.find? entityName id
  sameBeside : { part with entities := Keyed.empty } = { whole with entities := Keyed.empty }
  names : ∀ entityName, (part.entities.get? entityName).isSome ↔
    (state.entities.get? entityName).isSome ∨
      ∃ id, (entityName, id) ∈ touched ∧ (whole.find? entityName id).isSome

section Touched

variable {now : Instant} {state : LocalState} {update : Update}

/-- An entity that the update does not touch is read as before. -/
theorem readFrom_of_not_touched {result : Document}
    (roundTrips : ofDocument state.toDocument = .ok state)
    (changes : Document.ChangesWithin touched state.toDocument result) {entityName id : String}
    (notTouched : (entityName, id) ∉ touched) :
    EntityInfo.ReadFrom (result.entityAt entityName id) (state.find? entityName id) := by
  rw [changes.untouched entityName id notTouched]
  exact find?_of_ofDocument (holdsEntities_toDocument state) roundTrips entityName id

theorem sameErrors_applyCommand (roundTrips : ofDocument state.toDocument = .ok state)
    (nonempty : update.isEmpty = false) (reaches : touchedEntities update = some touched) :
    Except.SameErrors (state.applyCommand now update) (state.apply now update) := by
  obtain ⟨sameRun, changes⟩ := Entry.foldlM_run_scopedTo now (holdsEntities_toDocument state)
    (staysWithin_of_touchedEntities reaches)
  rw [applyCommand_eq nonempty reaches, apply_eq, apply_eq, toDocument_scopedTo]
  refine (Except.sameErrors_map _ _).trans (Except.SameErrors.mapError ?_)
  rw [Update.apply, sameRun, Update.apply]
  cases ran : update.entries.toList.foldlM (Entry.run now) state.toDocument with
  | error error => exact .refl _
  | ok result =>
      have within := (changes result ran).1
      refine (sameErrors_ofDocument within.holds
        fun entityName id entity notTouched found => ?_).symm
      have readFrom := readFrom_of_not_touched roundTrips within notTouched
      rw [found] at readFrom
      obtain ⟨info, read, _⟩ := readFrom
      exact ⟨info, read⟩

theorem exists_outcome {part whole : LocalState}
    (roundTrips : ofDocument state.toDocument = .ok state) (nonempty : update.isEmpty = false)
    (reaches : touchedEntities update = some touched)
    (partApplied : state.applyCommand now update = .ok part)
    (wholeApplied : state.apply now update = .ok whole) :
    ∃ result,
      (update.entriesOf .unset = [] →
        Document.LosesNothing touched state.toDocument result) ∧
      Outcome touched state part whole result := by
  obtain ⟨sameRun, changes⟩ := Entry.foldlM_run_scopedTo now (holdsEntities_toDocument state)
    (staysWithin_of_touchedEntities reaches)
  rw [apply_eq, Except.mapError_eq_ok, Except.bind_eq_ok] at wholeApplied
  obtain ⟨result, ran, read⟩ := wholeApplied
  rw [applyCommand_eq nonempty reaches, apply_eq, toDocument_scopedTo, Update.apply, sameRun,
    ← Update.apply, ran, Except.map_eq_ok] at partApplied
  obtain ⟨applied, partRead, rfl⟩ := partApplied
  rw [Except.mapError_eq_ok] at partRead
  change ofDocument (result.scopedTo touched) = .ok applied at partRead
  obtain ⟨within, losesNothing⟩ := changes result ran
  have sameTouched : ∀ entityName id, (entityName, id) ∈ touched →
      applied.find? entityName id = whole.find? entityName id := by
    intro entityName id member
    have partReads := find?_of_ofDocument within.holds.scopedTo partRead entityName id
    rw [Document.entityAt_scopedTo, if_pos member] at partReads
    exact partReads.unique (find?_of_ofDocument within.holds read entityName id)
  refine ⟨result, fun noUnset => losesNothing fun entry member isUnset => ?_, within, read,
    fun entityName id => ?_, ?_, fun entityName => ?_⟩
  · exact List.eq_nil_iff_forall_not_mem.1 noUnset entry
      (Update.mem_entriesOf.2 ⟨member, isUnset⟩)
  · refine (lookUp_foldl_takeOver applied.entities state.entities touched entityName id).trans ?_
    split
    next member => exact sameTouched entityName id member
    next notTouched =>
      exact (readFrom_of_not_touched roundTrips within notTouched).unique
        (find?_of_ofDocument within.holds read entityName id)
  · have sameBeside : { applied with entities := Keyed.empty } =
        { whole with entities := Keyed.empty } :=
      beside_eq_of_ofDocument within.holds.scopedTo within.holds
        (fun key beside => (Document.get?_scopedTo beside).symm) partRead read
    exact sameBeside
  · refine (isSome_get?_foldl_takeOver _ _ touched entityName).trans (or_congr_right ?_)
    refine exists_congr fun id => and_congr_right fun member => ?_
    rw [← sameTouched entityName id member]
    rfl

/-- The names stay the same when nothing is taken out, or no name is new. -/
theorem Outcome.sameNames {part whole : LocalState} {result : Document}
    (outcome : Outcome touched state part whole result)
    (roundTrips : ofDocument state.toDocument = .ok state)
    (keepsNames : Document.LosesNothing touched state.toDocument result ∨
      ∀ entityName id, (entityName, id) ∈ touched → (state.entities.get? entityName).isSome)
    (entityName : String) :
    (part.entities.get? entityName).isSome = (whole.entities.get? entityName).isSome := by
  have stateNames := isSome_get?_of_ofDocument (holdsEntities_toDocument state) roundTrips
  have wholeNames := isSome_get?_of_ofDocument outcome.changes.holds outcome.read
  rw [Bool.eq_iff_iff, outcome.names, wholeNames]
  constructor
  · rintro (known | ⟨id, -, found⟩)
    · exact outcome.changes.keepsNames entityName (stateNames entityName ▸ known)
    · rw [← wholeNames]
      exact Option.isSome_of_isSome_bind found
  · intro named
    rcases keepsNames with loses | known
    · rcases loses.newNames entityName named with before | ⟨id, member, entity⟩
      · exact .inl (stateNames entityName ▸ before)
      · refine .inr ⟨id, member, ?_⟩
        have reads := find?_of_ofDocument outcome.changes.holds outcome.read entityName id
        obtain ⟨document, found⟩ := Option.isSome_iff_exists.1 entity
        rw [found] at reads
        obtain ⟨info, _, knows⟩ := reads
        rw [knows]
        rfl
    · rcases outcome.changes.newNames entityName named with before | ⟨id, member⟩
      · exact .inl (stateNames entityName ▸ before)
      · exact .inl (known entityName id member)

end Touched

/-- Applying an update to the entities that it touches refines applying it to the whole state. -/
theorem applyCommand_refines_apply (now : Instant) (state : LocalState) (update : Update)
    (roundTrips : ofDocument state.toDocument = .ok state) :
    (∀ error, state.applyCommand now update = .error error ↔
      state.apply now update = .error error) ∧
    ∀ part whole, state.applyCommand now update = .ok part →
      state.apply now update = .ok whole →
        part.withoutEmptyNames = whole.withoutEmptyNames ∧
          (update.entriesOf .unset = [] ∨
            (∀ path ∈ update.paths, ∀ entityName rest,
              path.segments = "entities" :: entityName :: rest →
                (state.entities.get? entityName).isSome) →
          part = whole) := by
  cases empty : update.isEmpty with
  | true =>
      have unchanged : state.apply now update = .ok state := by
        rw [apply_eq, Update.apply, List.isEmpty_iff.1 empty]
        exact congrArg (Except.mapError StateError.update) roundTrips
      have commandUnchanged : state.applyCommand now update = .ok state := if_pos empty
      rw [unchanged, commandUnchanged]
      refine ⟨fun _ => .rfl, fun part whole partIs wholeIs => ?_⟩
      obtain rfl := Except.ok.inj (partIs.symm.trans wholeIs)
      exact ⟨rfl, fun _ => rfl⟩
  | false =>
      cases reaches : touchedEntities update with
      | none =>
          have same : state.applyCommand now update = state.apply now update := by
            simp [applyCommand, empty, reaches]
          rw [same]
          refine ⟨fun _ => .rfl, fun part whole partIs wholeIs => ?_⟩
          obtain rfl := Except.ok.inj (partIs.symm.trans wholeIs)
          exact ⟨rfl, fun _ => rfl⟩
      | some touched =>
          refine ⟨sameErrors_applyCommand roundTrips empty reaches,
            fun part whole partApplied wholeApplied => ?_⟩
          obtain ⟨result, losesNothing, outcome⟩ :=
            exists_outcome roundTrips empty reaches partApplied wholeApplied
          refine ⟨withoutEmptyNames_eq outcome.sameEntities outcome.sameBeside,
            fun namesKept => ?_⟩
          have sameNames := outcome.sameNames roundTrips
            (namesKept.imp losesNothing fun known entityName id member => by
              obtain ⟨path, isPath, rest, segments⟩ := exists_path_of_touchedEntities reaches member
              exact known path isPath entityName (id :: rest) segments)
          exact eq_of_entities (eq_of_lookUp sameNames outcome.sameEntities) outcome.sameBeside

/-- Two notes, of which one has a local commit. -/
def twoNotes : LocalState :=
  { empty with
    entities := Keyed.ofList [("note", Keyed.ofList [
      ("n1", .clean (.object [("id", .string "n1"), ("count", .int 0)]) (some "v1")),
      ("n2", ⟨.object [("id", .string "n2"), ("count", .int 0)], some "v2",
        [Update.empty.set (Path.parse "count") (.int 1)],
        some (.object [("id", .string "n2"), ("count", .int 1)])⟩)])] }

/-- Count in the first note. -/
def countInNote : Update :=
  Update.empty.insert ((entityField "note" "n1" "origin").child "count") (.inc (.int 2))

/-- Write a memo and take it out again, and count. -/
def forgetMemo : Update :=
  (countInNote.set (entityPath "memo" "m1") (.object [("origin", .object [])])).unset
    (entityPath "memo" "m1")

/-- The names with the ids that stand under them. -/
def names (state : LocalState) : List (String × List String) :=
  state.entities.toList.map fun named => (named.1, named.2.toList.map Prod.fst)

/-- The name of the memo is left over in the whole document only. -/
theorem applyCommand_refines_apply_forgetMemo :
    (∃ part whole, twoNotes.applyCommand default forgetMemo = .ok part ∧
      twoNotes.apply default forgetMemo = .ok whole ∧
      names part = [("note", ["n1", "n2"])] ∧
      names whole = [("memo", []), ("note", ["n1", "n2"])] ∧
      part.withoutEmptyNames = whole.withoutEmptyNames) ∧
    ∃ counted, twoNotes.applyCommand default countInNote = .ok counted ∧
      twoNotes.apply default countInNote = .ok counted := by
  constructor
  · refine ⟨_, _, rfl, rfl, rfl, rfl, ?_⟩
    exact ((applyCommand_refines_apply default twoNotes forgetMemo rfl).2 _ _ rfl rfl).1
  · refine ⟨_, rfl, ?_⟩
    obtain ⟨whole, wholeIs⟩ : ∃ whole, twoNotes.apply default countInNote = .ok whole := ⟨_, rfl⟩
    rw [wholeIs, ((applyCommand_refines_apply default twoNotes countInNote rfl).2 _ whole rfl
      wholeIs).2 (.inl rfl)]

end LocalState

end LocalFirst
