import LocalFirst.Proofs.DistinctKeys
import LocalFirst.Proofs.JoinedValues
import LocalFirst.Proofs.Lens

/-!
# Values that join a set

Values join an array one after another, each one unless something that is equivalent to it is there
already.  What is added is therefore some of the values in their order, no two of them alike, and
afterwards every value is found.  Equivalence is reflexive and symmetric on all documents.  That is
enough for a second run to find everything there, and for another order of the values to lead to the
same set.  It is transitive as long as integers do not meet floats, and then another order adds just
as many values, each in an equivalent form.
-/

namespace LocalFirst

namespace Document

/-- The items of the array at the end of some segments; none where the segments lead nowhere. -/
def HoldsItems (node : Document) (segments : List String) (items : List Document) : Prop :=
  node.below? segments = some (.array items) ∨ node.below? segments = none ∧ items = []

variable {node result : Document} {key next : String} {rest : List String}

theorem holdsItems_cons {items : List Document} : node.HoldsItems (key :: next :: rest) items ↔
    ((node.child? key).getD emptyObject).HoldsItems (next :: rest) items := by
  have nothing : emptyObject.below? (next :: rest) = none := rfl
  rw [HoldsItems, below?]
  cases found : node.child? key with
  | none => rw [Option.bind_none, Option.getD_none, HoldsItems, nothing]
  | some child => rfl

/-- An edit that creates what is missing goes on in what a segment names, or in an empty object in
its place. -/
theorem updateParent_create_cons_eq_ok_iff {act : Document → String → Except EntryFault Document} :
    node.updateParent true act (key :: next :: rest) = .ok result ↔
      ∃ updated, ((node.child? key).getD emptyObject).updateParent true act (next :: rest) =
        .ok updated ∧ node.setChild key updated = .ok result := by
  rw [updateParent_cons_eq_ok_iff]
  cases found : node.child? key <;> simp

/-- To grow an array that may be missing is to write the grown one in its place. -/
theorem updateParent_growArray_eq_ok_iff (act : List Document → List Document)
    {segments : List String} (nonempty : segments ≠ []) :
    node.updateParent true (Edit.growArray act) segments = .ok result ↔
      ∃ items, node.HoldsItems segments items ∧
        node.write (.array (act items)) segments = .ok result := by
  induction segments generalizing node result with
  | nil => exact absurd rfl nonempty
  | cons key rest ih =>
      cases rest with
      | nil =>
          cases found : node.child? key with
          | none => simp [updateParent, write, Edit.growArray, HoldsItems, below?, found]
          | some child =>
              cases child <;>
                simp [updateParent, write, Edit.growArray, HoldsItems, below?, found]
      | cons next rest =>
          simp only [updateParent_create_cons_eq_ok_iff, holdsItems_cons, write_cons_eq_ok_iff,
            ih (List.cons_ne_nil next rest)]
          constructor
          · rintro ⟨updated, ⟨items, holds, wrote⟩, rebuilt⟩
            exact ⟨items, holds, updated, wrote, rebuilt⟩
          · rintro ⟨items, holds, updated, wrote, rebuilt⟩
            exact ⟨updated, ⟨items, holds, wrote⟩, rebuilt⟩

end Document

namespace Update

variable {now : Instant} {document result : Document} {path : Path} {values : List Document}

/-- To add values to a set is to write what they and the items of the array amount to. -/
theorem apply_addToSet_eq_ok_iff :
    (Update.empty.insert path (.addToSet values)).apply now document = .ok result ↔
      path.fault? = none ∧ ∃ items, document.HoldsItems path.segments items ∧
        document.write (.array (joinSet items values)) path.segments = .ok result := by
  rw [apply_insert_eq_ok_iff (by simp [Edit.operator])]
  refine and_congr_right fun sound => ?_
  have nonempty : path.segments ≠ [] := fun root => by
    simp [Path.fault?, Path.isRoot, root] at sound
  exact Document.updateParent_growArray_eq_ok_iff (joinSet · values) nonempty

/-- The wire form of values that are added to the set at a path. -/
theorem ofDocument_addToSet (text : String) (values : List Document) :
    ofDocument (.object [("$addToSet", .object [(text, .object [("$each", .array values)])])]) =
      .ok (Update.empty.insert (Path.parse text) (.addToSet values)) := by
  have operator : Document.isOperatorKey "$addToSet" = true := by decide
  have named : Operator.ofName? "$addToSet" = some .addToSet := Operator.ofName?_name .addToSet
  have read : readPayload .addToSet (.object [(text, .object [("$each", .array values)])]) =
      .ok [⟨Path.parse text, .addToSet values⟩] := rfl
  simp only [ofDocument, List.all_cons, List.all_nil, operator, Bool.not_true, Bool.false_and,
    Bool.false_eq_true, Bool.and_self, if_true, if_false, List.foldlM_cons, List.foldlM_nil,
    readGroup, named, read]
  rfl

/-- Adding values to a set keeps the items that are there and puts a part of the values behind them,
no two of them alike, after which every value is found.  To do it again changes nothing, and the
same values in another order lead to the same set. -/
theorem addToSet_joins (distinct : document.KeysDistinct)
    (valuesDistinct : ∀ value ∈ values, value.KeysDistinct)
    (applied : (Update.empty.insert path (.addToSet values)).apply now document = .ok result) :
    (∀ text, path = Path.parse text →
      ofDocument (.object [("$addToSet", .object [(text, .object [("$each", .array values)])])]) =
        .ok (Update.empty.insert path (.addToSet values))) ∧
    ∃ items added, document.HoldsItems path.segments items ∧
      result.resolve? path = some (.array (items ++ added)) ∧
      Joins items values added ∧
      (items.Pairwise Document.Unlike → (items ++ added).Pairwise Document.Unlike) ∧
      (Update.empty.insert path (.addToSet values)).apply now result = .ok result ∧
      ∀ others, values.Perm others → ∃ other more,
        (Update.empty.insert path (.addToSet others)).apply now document = .ok other ∧
        other.resolve? path = some (.array (items ++ more)) ∧
        Document.CoveredBy (items ++ added) (items ++ more) ∧
        Document.CoveredBy (items ++ more) (items ++ added) ∧
        ((∀ value ∈ values, value.FloatFree) → ∃ matched, matched.Perm more ∧
          List.Forall₂ (fun other value => other.equivalent value = true) matched added) := by
  obtain ⟨sound, items, holds, wrote⟩ := apply_addToSet_eq_ok_iff.1 applied
  obtain ⟨added, joined, joins⟩ := exists_joins items valuesDistinct
  have itemsDistinct : ∀ item ∈ items, item.KeysDistinct := by
    rcases holds with found | ⟨_, rfl⟩
    · exact Document.keysDistinct_array.1 (distinct.below? found)
    · simp
  rw [joined] at wrote
  have reads : result.resolve? path = some (.array (items ++ added)) :=
    Document.below?_of_write wrote
  refine ⟨fun text parsed => parsed ▸ ofDocument_addToSet text values,
    items, added, holds, reads, joins, joins.pairwise_unlike, ?_, fun others permuted => ?_⟩
  · have again : joinSet (items ++ added) values = items ++ added :=
      joinSet_of_coveredBy joins.covered
    have nonempty : path.segments ≠ [] := fun root => by
      simp [Path.fault?, Path.isRoot, root] at sound
    refine apply_addToSet_eq_ok_iff.2 ⟨sound, items ++ added, .inl reads, ?_⟩
    rw [again]
    exact Document.write_of_below? nonempty reads
  · have othersDistinct : ∀ value ∈ others, value.KeysDistinct := fun value member =>
      valuesDistinct value (permuted.mem_iff.2 member)
    obtain ⟨more, otherJoined, otherJoins⟩ := exists_joins items othersDistinct
    obtain ⟨other, otherWrote, _⟩ :=
      Document.exists_write_of_write wrote (.array (items ++ more))
    refine ⟨other, more, apply_addToSet_eq_ok_iff.2 ⟨sound, items, holds, otherJoined ▸ otherWrote⟩,
      Document.below?_of_write otherWrote, ?_, ?_, ?_⟩
    · exact joins.coveredBy otherJoins (fun value => permuted.mem_iff.1) itemsDistinct
    · exact otherJoins.coveredBy joins (fun value => permuted.mem_iff.2) itemsDistinct
    · exact joins.exists_perm otherJoins permuted valuesDistinct

/-- A book. -/
def book : Document :=
  .object [("title", .string "Atlas"), ("year", .int 1)]

/-- A number twice, and the same book with its members in another order. -/
def delivery : List Document :=
  [.int 7, .int 7, .object [("year", .int 1), ("title", .string "Atlas")]]

theorem keysDistinct_delivery :
    (Document.object [("books", .array [book])]).KeysDistinct ∧
      ∀ value ∈ delivery, value.KeysDistinct := by
  simp [book, delivery, Document.KeysDistinct, Document.ItemKeysDistinct,
    Document.MemberKeysDistinct]

/-- Only the number joins, and it does so once, in whatever order the values come. -/
theorem addToSet_joins_delivery :
    (((Document.object [("books", .array [book])]).KeysDistinct ∧
      ∀ value ∈ delivery, value.KeysDistinct) ∧
      (Update.empty.insert ⟨["books"]⟩ (.addToSet delivery)).apply default
        (.object [("books", .array [book])]) = .ok (.object [("books", .array [book, .int 7])])) ∧
    ∃ items added, items ++ added = [book, .int 7] ∧ Joins items delivery added ∧
      ∃ other more, (Update.empty.insert ⟨["books"]⟩ (.addToSet delivery.reverse)).apply default
          (.object [("books", .array [book])]) = .ok other ∧
        other.resolve? ⟨["books"]⟩ = some (.array (items ++ more)) ∧
        Document.CoveredBy [book, .int 7] (items ++ more) := by
  have applied : (Update.empty.insert ⟨["books"]⟩ (.addToSet delivery)).apply default
      (.object [("books", .array [book])]) = .ok (.object [("books", .array [book, .int 7])]) := by
    rw [apply_addToSet_eq_ok_iff]
    exact ⟨by decide, [book], .inl rfl, rfl⟩
  obtain ⟨_, items, added, _, reads, joins, _, _, inAnyOrder⟩ :=
    addToSet_joins keysDistinct_delivery.1 keysDistinct_delivery.2 applied
  have whole : items ++ added = [book, .int 7] :=
    (Document.array.inj (Option.some.inj reads)).symm
  obtain ⟨other, more, otherApplied, otherReads, covered, _⟩ :=
    inAnyOrder delivery.reverse (List.reverse_perm delivery).symm
  exact ⟨⟨keysDistinct_delivery, applied⟩, items, added, whole, joins, other, more, otherApplied,
    otherReads, whole ▸ covered⟩

end Update

end LocalFirst
