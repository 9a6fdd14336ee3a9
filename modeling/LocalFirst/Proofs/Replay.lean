import LocalFirst.Proofs.Slot
import LocalFirst.Proofs.StoredForm

/-!
# Replaying updates

An update without the current date gives the same result whenever it runs, so
that commits can be replayed later on another machine.  Updates keep the kind of
a document: what a replay gives is never null when it starts from an entity.
-/

namespace LocalFirst

namespace Update

/-- No edit reads the clock. -/
def Timeless (update : Update) : Prop :=
  ∀ entry ∈ update.entries.toList, entry.edit.operator ≠ .currentDate

instance (update : Update) : Decidable update.Timeless :=
  inferInstanceAs (Decidable (∀ entry ∈ update.entries.toList, _))

theorem timeless_set (path : Path) (value : Document) : (empty.set path value).Timeless := by
  intro entry member
  obtain rfl : entry = ⟨path, .set value⟩ := by
    simpa [set, insert, empty, Keyed.insert, Keyed.empty, Keyed.insertInto] using member
  simp [Edit.operator]

private theorem run_eq_of_timeless {entry : Entry}
    (timeless : entry.edit.operator ≠ .currentDate) (now later : Instant) (document : Document) :
    entry.run now document = entry.run later document := by
  obtain ⟨path, edit⟩ := entry
  cases edit
  case currentDate => exact absurd rfl timeless
  all_goals rfl

theorem apply_eq_of_timeless {update : Update} (timeless : update.Timeless)
    (now later : Instant) (document : Document) :
    update.apply now document = update.apply later document := by
  have same : ∀ (entries : List Entry) (document : Document),
      (∀ entry ∈ entries, entry.edit.operator ≠ .currentDate) →
        entries.foldlM (Entry.run now) document = entries.foldlM (Entry.run later) document := by
    intro entries
    induction entries with
    | nil => simp
    | cons entry rest ih =>
        intro document entriesTimeless
        obtain ⟨firstTimeless, restTimeless⟩ := List.forall_mem_cons.1 entriesTimeless
        simp only [List.foldlM_cons, run_eq_of_timeless firstTimeless now later, ih _ restTimeless]
  exact same update.entries.toList document timeless

theorem applyAll_eq_of_timeless {updates : List Update}
    (timeless : ∀ update ∈ updates, update.Timeless) (now later : Instant) (document : Document) :
    applyAll now document updates = applyAll later document updates := by
  induction updates generalizing document with
  | nil => simp [applyAll]
  | cons update rest ih =>
      obtain ⟨firstTimeless, restTimeless⟩ := List.forall_mem_cons.1 timeless
      have restSame := fun document => ih restTimeless document
      simp only [applyAll] at restSame ⊢
      simp only [List.foldlM_cons, apply_eq_of_timeless firstTimeless now later, restSame]

theorem applyAll_append (now : Instant) (document : Document) (first second : List Update) :
    applyAll now document (first ++ second) =
      (applyAll now document first >>= fun between => applyAll now between second) := by
  simp [applyAll]

/-- Between two parts of updates that do not read the clock there is one document, whenever the
parts are applied. -/
theorem exists_applyAll_of_append {now : Instant} {document result : Document}
    {first second : List Update} (timeless : ∀ update ∈ first ++ second, update.Timeless)
    (applied : applyAll now document (first ++ second) = .ok result) :
    ∃ between, (∀ later, applyAll later document first = .ok between) ∧
      ∀ later, applyAll later between second = .ok result := by
  obtain ⟨firstTimeless, secondTimeless⟩ := List.forall_mem_append.1 timeless
  rw [applyAll_append, Except.bind_eq_ok] at applied
  obtain ⟨between, firstApplied, secondApplied⟩ := applied
  exact ⟨between,
    fun later => (applyAll_eq_of_timeless firstTimeless later now _).trans firstApplied,
    fun later => (applyAll_eq_of_timeless secondTimeless later now _).trans secondApplied⟩

theorem timeless_of_stored {update parsed : Update} (timeless : update.Timeless)
    (succeeds : update.stored = .ok parsed) : parsed.Timeless := by
  refine forall_entries_of_ofDocument (fun _ _ => by simp [Edit.operator]) ?_ succeeds
  intro member inGroups operator named payload _ pair _ edit editRead
  obtain ⟨group, inUpdate, rfl⟩ := List.mem_map.1 inGroups
  obtain ⟨groupEq, nonempty⟩ := mem_groups.1 inUpdate
  simp only [Operator.ofName?_name, Option.some.injEq] at named
  obtain ⟨entry, inGroup⟩ := List.exists_mem_of_ne_nil _ nonempty
  rw [groupEq, mem_entriesOf] at inGroup
  rw [Edit.operator_of_ofDocument editRead, ← named, ← inGroup.2]
  exact timeless entry inGroup.1

end Update

namespace Document

/-- The document is an object. -/
def IsObject (document : Document) : Prop :=
  ∃ members, document = .object members

theorem isObject_iff_kind {document : Document} : document.IsObject ↔ document.kind = .object := by
  cases document <;> simp [IsObject, kind]

theorem isNull_iff_kind {document : Document} : document.isNull = true ↔ document.kind = .null := by
  cases document <;> simp [isNull, kind]

theorem IsObject.isNull {document : Document} (isObject : document.IsObject) :
    document.isNull = false := by
  obtain ⟨members, rfl⟩ := isObject
  rfl

theorem isObject_of_get? {document value : Document} {key : String}
    (found : document.get? key = some value) : document.IsObject := by
  cases document with
  | object members => exact ⟨members, rfl⟩
  | _ => cases found

theorem isObject_removeChild {document : Document} (key : String)
    (isObject : document.IsObject) : (document.removeChild key).IsObject := by
  obtain ⟨members, rfl⟩ := isObject
  exact ⟨_, rfl⟩

/-- A change within the document, or one that keeps its kind, keeps the kind of the document. -/
theorem kind_of_atParent {create : Bool} {act : Document → String → Except EntryFault Document}
    {document result : Document} {path : Path}
    (actKeeps : ∀ key node, act document key = .ok node → node.kind = document.kind)
    (updated : document.atParent create act path = .ok result) : result.kind = document.kind := by
  simp only [atParent] at updated
  split at updated
  · cases updated
  rcases path with ⟨_ | ⟨segment, _ | ⟨next, rest⟩⟩⟩
  · cases updated
  · exact actKeeps segment result updated
  · simp only [updateParent] at updated
    split at updated
    · simp only [Except.bind_eq_ok] at updated
      obtain ⟨child, _, written⟩ := updated
      exact kind_setChild written
    split at updated
    · simp only [Except.bind_eq_ok] at updated
      obtain ⟨grown, grownWritten, updated⟩ := updated
      split at updated
      · cases updated
      · simp only [Except.bind_eq_ok] at updated
        obtain ⟨child, _, written⟩ := updated
        exact (kind_setChild written).trans (kind_setChild grownWritten)
    · cases updated
      rfl

end Document

namespace Edit

theorem kind_of_act {now : Instant} {edit : Edit} {document result : Document} {key : String}
    (acted : edit.act now document key = .ok result) : result.kind = document.kind := by
  rw [act_eq, Except.bind_eq_ok] at acted
  obtain ⟨change, _, ran⟩ := acted
  exact Change.kind_run ran

theorem isObject_of_act {now : Instant} {edit : Edit} {document result : Document} {key : String}
    (isObject : document.IsObject) (acted : edit.act now document key = .ok result) :
    result.IsObject := by
  rw [Document.isObject_iff_kind] at isObject ⊢
  exact (kind_of_act acted).trans isObject

end Edit

namespace Entry

@[simp]
theorem blame_eq_ok {α : Type} {operator : Operator} {path : Path}
    {outcome : Except EntryFault α} {result : α} :
    blame operator path outcome = .ok result ↔ outcome = .ok result :=
  Except.mapError_eq_ok

theorem kind_of_rename {document result : Document} {path : Path} {name : String}
    (renamed : rename document path name = .ok result) : result.kind = document.kind := by
  simp only [rename] at renamed
  split at renamed
  · cases renamed
  split at renamed
  · cases renamed
    rfl
  simp only [Except.bind_eq_ok, blame_eq_ok] at renamed
  obtain ⟨remaining, removed, renamed⟩ := renamed
  have remainingKind : remaining.kind = document.kind := by
    refine Document.kind_of_atParent (fun key node taken => ?_) removed
    unfold renameSource at taken
    split at taken
    · cases taken
    · exact Except.ok.inj taken ▸ Document.kind_removeChild document key
  split at renamed
  · exact Except.ok.inj renamed ▸ remainingKind
  · rw [blame_eq_ok] at renamed
    have moved := Document.kind_of_atParent (fun _ _ => Document.kind_setChild) renamed
    exact moved.trans remainingKind

theorem kind_of_run {now : Instant} {entry : Entry} {document result : Document}
    (ran : entry.run now document = .ok result) : result.kind = document.kind := by
  unfold run at ran
  split at ran
  · exact kind_of_rename ran
  · rw [blame_eq_ok] at ran
    exact Document.kind_of_atParent (fun _ _ => Edit.kind_of_act) ran

theorem isObject_of_run {now : Instant} {entry : Entry} {document result : Document}
    (isObject : document.IsObject) (ran : entry.run now document = .ok result) :
    result.IsObject := by
  rw [Document.isObject_iff_kind] at isObject ⊢
  exact (kind_of_run ran).trans isObject

end Entry

namespace Update

/-- An update keeps the kind of the document. -/
theorem kind_of_apply {now : Instant} {update : Update} {document result : Document}
    (applied : update.apply now document = .ok result) : result.kind = document.kind :=
  @Except.foldlM_preserves _ _ _ _ _ (fun current => current.kind = document.kind)
    (fun _ _ _ _ before ran => (Entry.kind_of_run ran).trans before) _ _ rfl applied

theorem kind_of_applyAll {now : Instant} {updates : List Update} {document result : Document}
    (applied : applyAll now document updates = .ok result) : result.kind = document.kind :=
  @Except.foldlM_preserves _ _ _ _ _ (fun current => current.kind = document.kind)
    (fun _ _ _ _ before ran => (kind_of_apply ran).trans before) _ _ rfl applied

theorem isObject_of_apply {now : Instant} {update : Update} {document result : Document}
    (isObject : document.IsObject) (applied : update.apply now document = .ok result) :
    result.IsObject := by
  rw [Document.isObject_iff_kind] at isObject ⊢
  exact (kind_of_apply applied).trans isObject

theorem isObject_of_applyAll {now : Instant} {updates : List Update} {document result : Document}
    (isObject : document.IsObject) (applied : applyAll now document updates = .ok result) :
    result.IsObject := by
  rw [Document.isObject_iff_kind] at isObject ⊢
  exact (kind_of_applyAll applied).trans isObject

end Update

end LocalFirst
