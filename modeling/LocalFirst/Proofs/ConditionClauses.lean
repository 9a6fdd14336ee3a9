import LocalFirst.Proofs.CarriedConditions
import LocalFirst.Proofs.WrittenPaths

/-!
# The clauses of a condition

An object that is read as a condition asks for one clause per member.  Writing a condition keeps
some of its clauses, and all of them when its parts fit into one object and none is left out.
-/

namespace LocalFirst

namespace Condition

variable {path : Path} {pairs : List (String × Document)} {condition : Condition}

/-- The clause that one member of the document of a condition is read as. -/
def ofMember (path : Path) (member : String × Document) : Except UpdateError Condition :=
  if Document.isOperatorKey member.1 then ofOperator path member.1 member.2
  else (ofDocument path member.2).map fun condition => .fields [(Path.parse member.1, condition)]

/-- The keys are all operators, or none is. -/
def OneForm (members : List (String × Document)) : Prop :=
  (∀ member ∈ members, Document.isOperatorKey member.1 = true) ∨
    ∀ member ∈ members, Document.isOperatorKey member.1 = false

theorem allMatch_iff {parts : List Condition} {item : Document} :
    allMatch parts item = true ↔ ∀ part ∈ parts, part.matchesItem item = true := by
  induction parts with
  | nil => simp [allMatch]
  | cons part rest ih => simp [allMatch, ih]

theorem matchesItem_ofParts (parts : List Condition) (item : Document) :
    (ofParts parts).matchesItem item = true ↔
      ∀ part ∈ parts, part.matchesItem item = true := by
  rw [← allMatch_iff]
  unfold ofParts
  split
  · simp [matchesItem, allMatch, Comparison.holds]
  · simp [allMatch]
  · rw [matchesItem]

theorem matchesItem_fields_iff {conditions : List (Path × Condition)} {item : Document} :
    (fields conditions).matchesItem item = true ↔ item.kind = .object ∧
      ∀ field ∈ conditions, field.2.matchesItem ((item.resolve? field.1).getD .null) = true := by
  have each : fieldsMatch conditions item = true ↔
      ∀ field ∈ conditions, field.2.matchesItem ((item.resolve? field.1).getD .null) = true := by
    induction conditions with
    | nil => simp [fieldsMatch]
    | cons field rest ih => simp [fieldsMatch, ih]
  rw [← each, matchesItem_fields, Bool.and_eq_true, decide_eq_true_iff]

/-- Members without operator keys are read as conditions on fields, one for each clause. -/
theorem ofFields_of_clauses {clauses : List Condition}
    (plain : ∀ member ∈ pairs, Document.isOperatorKey member.1 = false)
    (read : pairs.mapM (ofMember path) = .ok clauses) :
    ∃ conditions, ofFields path pairs = .ok conditions ∧
      clauses = conditions.map fun field => .fields [field] := by
  induction pairs generalizing clauses with
  | nil =>
      cases read
      exact ⟨[], rfl, rfl⟩
  | cons member rest ih =>
      obtain ⟨memberPlain, restPlain⟩ := List.forall_mem_cons.1 plain
      simp only [List.mapM_cons, Except.bind_eq_ok, Except.pure_eq_ok, ofMember, memberPlain,
        Bool.false_eq_true, if_false, Except.map_eq_ok] at read
      obtain ⟨_, ⟨condition, memberRead, rfl⟩, restClauses, restRead, rfl⟩ := read
      obtain ⟨conditions, fieldsRead, rfl⟩ := ih restPlain restRead
      exact ⟨(Path.parse member.1, condition) :: conditions,
        by simp [ofFields, memberRead, fieldsRead, bind, Except.bind, pure, Except.pure], rfl⟩

/-- An object whose keys are of one form is met by the items that meet each of its clauses. -/
theorem ofDocument_of_clauses {clauses : List Condition} (nonempty : pairs ≠ [])
    (oneForm : OneForm pairs) (read : pairs.mapM (ofMember path) = .ok clauses) :
    ∃ stored, ofDocument path (.object pairs) = .ok stored ∧
      ∀ item, stored.matchesItem item = true ↔
        ∀ clause ∈ clauses, clause.matchesItem item = true := by
  rcases oneForm with operators | plain
  · have operatorsRead : pairs.mapM (fun member => ofOperator path member.1 member.2) =
        .ok clauses := by
      rw [Except.mapM_eq_ok_iff] at read ⊢
      exact ((List.forall₂_and_left _ _).2 ⟨operators, read⟩).imp
        fun _ _ ⟨isOperator, memberRead⟩ => by simpa [ofMember, isOperator] using memberRead
    exact ⟨ofParts clauses, ofDocument_operators clauses nonempty operatorsRead,
      matchesItem_ofParts clauses⟩
  · obtain ⟨conditions, fieldsRead, rfl⟩ := ofFields_of_clauses plain read
    refine ⟨.fields conditions, ofDocument_fields nonempty plain fieldsRead, fun item => ?_⟩
    have someField : conditions ≠ [] := by
      rintro rfl
      exact nonempty (List.length_eq_zero_iff.1 (Except.mapM_eq_ok_iff.1 read).length_eq)
    obtain ⟨field, inConditions⟩ := List.exists_mem_of_ne_nil conditions someField
    simp only [List.forall_mem_map, matchesItem_fields_iff, List.forall_mem_singleton]
    exact ⟨fun ⟨isObject, meets⟩ field member => ⟨isObject, meets field member⟩,
      fun meets => ⟨(meets field inConditions).1, fun field member => (meets field member).2⟩⟩

/-- The members of the wire form, if it is an object. -/
def members (condition : Condition) : List (String × Document) :=
  condition.toDocument.members?.getD []

/-- Members with one key have one operand. -/
def KeysAgree (members : List (String × Document)) : Prop :=
  ∀ first ∈ members, ∀ second ∈ members, first.1 = second.1 → first.2 = second.2

/-- Conditions on fields stand at paths that can be written and are not taken for operators. -/
def NamesFields : Condition → Prop
  | .fields conditions =>
      ∀ field ∈ conditions, field.1.Undotted ∧ Document.isOperatorKey field.1.text = false
  | _ => True

/-- The condition can be written as one object: there is something to write in it, and its keys are
of one form. -/
def Fits : Condition → Prop
  | .all parts => partMembers parts ≠ [] ∧ OneForm (partMembers parts)
  | .fields conditions => conditions ≠ []
  | _ => True

/-- Nothing is left out of the object: no part is a bare value, and no key comes with two
operands. -/
def LeavesNothingOut : Condition → Prop
  | .all parts => (∀ part ∈ parts, part.members ≠ []) ∧ KeysAgree (partMembers parts)
  | .fields conditions => KeysAgree (fieldMembers conditions)
  | _ => True

theorem mem_partMembers {parts : List Condition} {member : String × Document} :
    member ∈ partMembers parts ↔ ∃ part ∈ parts, member ∈ part.members := by
  induction parts with
  | nil => simp [partMembers]
  | cons part rest ih => simp [partMembers, ih, Condition.members]

theorem mem_fieldMembers {conditions : List (Path × Condition)} {member : String × Document} :
    member ∈ fieldMembers conditions ↔
      ∃ field ∈ conditions, member = (field.1.text, field.2.toDocument) := by
  induction conditions with
  | nil => simp [fieldMembers]
  | cons field rest ih => simp [fieldMembers, ih]

theorem mem_ofPairs_of_keysAgree (agree : KeysAgree pairs) {member : String × Document}
    (inPairs : member ∈ pairs) : member ∈ Members.ofPairs pairs := by
  have inKeys : member.1 ∈ Members.keys pairs := List.mem_map_of_mem inPairs
  obtain ⟨other, found, sameKey⟩ := List.mem_map.1 (Members.mem_keys_ofPairs.2 inKeys)
  have same := agree other (Members.mem_of_mem_ofPairs found) member inPairs sameKey
  exact Prod.ext sameKey same ▸ found

theorem ofPairs_ne_nil (nonempty : pairs ≠ []) : Members.ofPairs pairs ≠ [] := by
  obtain ⟨member, inPairs⟩ := List.exists_mem_of_ne_nil pairs nonempty
  have inKeys := Members.mem_keys_ofPairs.2 (List.mem_map_of_mem (f := Prod.fst) inPairs)
  intro none
  simp [none] at inKeys

theorem OneForm.ofPairs (oneForm : OneForm pairs) : OneForm (Members.ofPairs pairs) :=
  have within : ∀ member ∈ Members.ofPairs pairs, member ∈ pairs :=
    fun _ => Members.mem_of_mem_ofPairs
  oneForm.imp (fun operators member inPairs => operators member (within member inPairs))
    fun plain member inPairs => plain member (within member inPairs)

/-- The members of a condition are read as clauses that ask for no more than the condition does, and
for no less when nothing is left out. -/
structure ClausesKept (path : Path) (condition : Condition) : Prop where
  reads : ∀ member ∈ condition.members, ∃ clause, ofMember path member = .ok clause ∧
    ∀ item, condition.matchesItem item = true → clause.matchesItem item = true
  meets : condition.Throughout LeavesNothingOut → condition.members ≠ [] → ∀ item,
    (∀ member ∈ condition.members, ∀ clause, ofMember path member = .ok clause →
      clause.matchesItem item = true) → condition.matchesItem item = true

/-- The condition is stored as one that asks for no more than it does, and for no less when nothing
is left out. -/
structure StoredAs (path : Path) (condition stored : Condition) : Prop where
  read : ofDocument path condition.toDocument = .ok stored
  asks : ∀ item, condition.matchesItem item = true → stored.matchesItem item = true
  meets : condition.Throughout LeavesNothingOut → ∀ item, stored.matchesItem item = true →
    condition.matchesItem item = true

/-- A condition that is written as an object is stored as the clauses of its members. -/
theorem ClausesKept.exists_storedAs_of_members (kept : ClausesKept path condition)
    (written : condition.toDocument = .object pairs) (nonempty : pairs ≠ [])
    (oneForm : OneForm pairs) : ∃ stored, StoredAs path condition stored := by
  have same : condition.members = pairs := by simp [Condition.members, written, Document.members?]
  rw [← same] at nonempty oneForm written
  obtain ⟨clauses, read⟩ := Except.exists_mapM_eq_ok fun member inMembers =>
    (kept.reads member inMembers).imp fun _ => And.left
  obtain ⟨stored, storedRead, stored_iff⟩ := ofDocument_of_clauses nonempty oneForm read
  refine ⟨stored, written ▸ storedRead, fun item meets => ?_, fun complete item meets => ?_⟩
  · refine (stored_iff item).2 fun clause inClauses => ?_
    obtain ⟨member, inMembers, memberRead⟩ := Except.exists_mem_of_mapM read inClauses
    obtain ⟨_, sameRead, asks⟩ := kept.reads member inMembers
    cases memberRead.symm.trans sameRead
    exact asks item meets
  · refine kept.meets complete nonempty item fun member inMembers clause memberRead => ?_
    exact (stored_iff item).1 meets clause (Except.mem_of_mapM read inMembers memberRead)

theorem ClausesKept.exists_storedAs (kept : ClausesKept path condition)
    (named : condition.NamesFields) (fits : condition.Fits) :
    ∃ stored, StoredAs path condition stored := by
  cases condition with
  | equals value =>
      have written : (equals value).Written := trivial
      exact ⟨_, ofDocument_toDocument written path, fun _ => id, fun _ _ => id⟩
  | isIn | notIn => exact kept.exists_storedAs_of_members rfl (by simp) (.inl (by simp; decide))
  | compares comparison operand =>
      exact kept.exists_storedAs_of_members rfl (by simp)
        (.inl (List.forall_mem_singleton.2 (isOperatorKey_name comparison)))
  | all parts =>
      exact kept.exists_storedAs_of_members rfl (ofPairs_ne_nil fits.1) fits.2.ofPairs
  | fields conditions =>
      have nonempty : fieldMembers conditions ≠ [] := by
        cases conditions with
        | nil => exact absurd rfl fits
        | cons => simp [fieldMembers]
      have plain : OneForm (fieldMembers conditions) := .inr fun member inMembers => by
        obtain ⟨field, inConditions, rfl⟩ := mem_fieldMembers.1 inMembers
        exact (named field inConditions).2
      exact kept.exists_storedAs_of_members rfl (ofPairs_ne_nil nonempty) plain.ofPairs

end Condition

end LocalFirst
