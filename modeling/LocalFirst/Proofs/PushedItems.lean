import LocalFirst.Proofs.Lens
import LocalFirst.Proofs.SortedItems

/-!
# Items pushed into arrays

A push inserts items into an array, sorts the whole and cuts it.  Each of the three steps is said
here by what it leaves of the one before: a piece that stands in one place, the same items in an
order in which ties stay as they were, and a beginning or an end of a given length.  Sorting is more
than a permutation only because the comparison by which it goes is a total preorder; keys that
decide one after another, each in its own direction, make one again.
-/

namespace LocalFirst

namespace Push

/-- The pushed values go in one piece between the items before and those after them: to the end, or
to a position, which counts from the end when it is negative. -/
structure Inserts (operand : Push) (before after : List Document) : Prop where
  last : operand.position = none → after = []
  place : ∀ position, operand.position = some position → (before.length : Int) =
    if 0 ≤ position.toInt then min position.toInt (before ++ after).length
    else max ((before ++ after).length - position.toInt.natAbs) 0

/-- What a push is to make of the items of an array: they and the pushed values, arranged as the
operand says, and of these all, a beginning or an end. -/
structure Arranges (operand : Push) (items arranged result : List Document) : Prop where
  perm : (items ++ operand.each).Perm arranged
  inserts : ∃ before after, before ++ after = items ∧ operand.Inserts before after ∧
    (operand.sort = none → arranged = before ++ operand.each ++ after) ∧
    ∀ rule, operand.sort = some rule → rule.Sorts (before ++ operand.each ++ after) arranged
  all : operand.slice = none → result = arranged
  part : ∀ bound, operand.slice = some bound →
    (if 0 ≤ bound.toInt then result <+: arranged else result <:+ arranged) ∧
      result.length = min (items.length + operand.each.length) bound.toInt.natAbs

theorem inserts_place (operand : Push) (items : List Document) :
    operand.Inserts (items.take (place operand.position items.length))
      (items.drop (place operand.position items.length)) where
  last none := by simp [none, place]
  place position given := by
    rw [List.take_append_drop, List.length_take, given, place]
    split
    next nonneg =>
      have bounded : Nat.min position.toInt.toNat items.length =
          min position.toInt.toNat items.length := rfl
      rw [bounded]
      omega
    next negative => omega

theorem cut_of_nonneg {bound : Int64} (nonneg : 0 ≤ bound.toInt) (arranged : List Document) :
    cut (some bound) arranged = arranged.take bound.toInt.natAbs := by
  rw [cut, if_pos nonneg]
  congr 1
  omega

theorem cut_of_neg {bound : Int64} (negative : ¬ 0 ≤ bound.toInt) (arranged : List Document) :
    cut (some bound) arranged = arranged.drop (arranged.length - bound.toInt.natAbs) := by
  rw [cut, if_neg negative]

/-- A push arranges the items of an array. -/
theorem exists_arranges_run (operand : Push) (items : List Document)
    (free : ∀ rule, operand.sort = some rule → ∀ item ∈ items ++ operand.each, item.FloatFree) :
    ∃ arranged, operand.Arranges items arranged (operand.run items) := by
  let before := items.take (place operand.position items.length)
  let after := items.drop (place operand.position items.length)
  let inserted := before ++ operand.each ++ after
  have whole : before ++ after = items := List.take_append_drop _ items
  have permuted : (items ++ operand.each).Perm inserted := by
    rw [← whole, List.append_assoc]
    simp only [inserted, List.append_assoc]
    exact List.perm_append_comm.append_left before
  -- Cutting is the same whatever the sort.
  suffices sorts : ∃ arranged, operand.run items = cut operand.slice arranged ∧
      inserted.Perm arranged ∧ (operand.sort = none → arranged = inserted) ∧
      ∀ rule, operand.sort = some rule → rule.Sorts inserted arranged by
    obtain ⟨arranged, ran, sorted, unsorted, inOrder⟩ := sorts
    have perm := permuted.trans sorted
    refine ⟨arranged, perm, ⟨before, after, whole, operand.inserts_place items, unsorted, inOrder⟩,
      fun none => by rw [ran, none, cut], fun bound given => ?_⟩
    rw [ran, given, ← List.length_append, perm.length_eq]
    split
    next nonneg =>
      rw [cut_of_nonneg nonneg]
      exact ⟨List.take_prefix _ _, by rw [List.length_take]; omega⟩
    next negative =>
      rw [cut_of_neg negative]
      exact ⟨List.drop_suffix _ _, by rw [List.length_drop]; omega⟩
  cases given : operand.sort with
  | none =>
      refine ⟨inserted, by rw [run, given], .refl _, fun _ => rfl, by simp⟩
  | some rule =>
      have sorts : rule.Sorts inserted (rule.sort inserted) :=
        rule.sorts_sort fun item member => free rule given item (permuted.mem_iff.2 member)
      exact ⟨rule.sort inserted, by rw [run, given], sorts.perm, by simp, by simpa using sorts⟩

end Push

namespace Document

/-- To grow an array is to write the grown one in its place. -/
theorem updateParent_growArray {act : List Document → List Document} {node : Document}
    {items : List Document} {segments : List String} (nonempty : segments ≠ [])
    (found : node.below? segments = some (.array items)) :
    node.updateParent true (Edit.growArray act) segments =
      node.write (.array (act items)) segments := by
  induction segments generalizing node with
  | nil => exact absurd rfl nonempty
  | cons key rest ih =>
      obtain ⟨child, childFound, behind⟩ := Option.bind_eq_some_iff.1 found
      cases rest with
      | nil =>
          cases behind
          simp only [updateParent, write, Edit.growArray, childFound]
      | cons next rest =>
          have grown := ih (by simp) behind
          simp only [write] at grown
          simp only [updateParent, write, childFound, grown]

end Document

namespace Update

/-- Whatever the operand of a push, it arranges the items of the array that it finds at its path. -/
theorem push_arranges (operand : Push) (items : List Document)
    (free : ∀ rule, operand.sort = some rule → ∀ item ∈ items ++ operand.each, item.FloatFree) :
    ∃ arranged, operand.Arranges items arranged (operand.run items) ∧
      ∀ now document (path : Path), path.segments ≠ [] → "" ∉ path.segments →
        document.resolve? path = some (.array items) →
        ∃ written, (Update.empty.insert path (.push operand)).apply now document = .ok written ∧
          written.resolve? path = some (.array (operand.run items)) := by
  obtain ⟨arranged, arranges⟩ := operand.exists_arranges_run items free
  refine ⟨arranged, arranges, fun now document path nonempty noneEmpty found => ?_⟩
  obtain ⟨written, wrote, _⟩ := Document.exists_write_of_write
    (Document.write_of_below? nonempty found) (.array (operand.run items))
  refine ⟨written, ?_, Document.below?_of_write wrote⟩
  rw [apply_insert_eq_ok_iff (by simp [Edit.operator])]
  have sound : path.fault? = none := by
    simpa [Path.fault?, Path.isRoot, nonempty] using noneEmpty
  exact ⟨sound, (Document.updateParent_growArray nonempty found).trans wrote⟩

/-- Each of two items lacks one of two keys. -/
def ranks : List Document :=
  [.object [("n", .int 2)], .object [("m", .int 5)]]

def ranking : SortRule :=
  .keys [(⟨["n"]⟩, .ascending), (⟨["m"]⟩, .descending)]

/-- An item with both keys goes before the last one, and of all the last two are kept. -/
def ranked : Push where
  each := [.object [("n", .int 2), ("m", .int 7)]]
  position := some (-1)
  slice := some (-2)
  sort := some ranking

/-- Missing keys come first where a key ascends and last where it descends. -/
theorem sort_ranking : ranking.sort
    [.object [("n", .int 2)], .object [("n", .int 2), ("m", .int 7)], .object [("m", .int 5)]] =
      [.object [("m", .int 5)], .object [("n", .int 2), ("m", .int 7)],
        .object [("n", .int 2)]] := by
  have firstMissing : (ranking.compare (.object [("n", .int 2), ("m", .int 7)])
      (.object [("m", .int 5)])).isLE = false := rfl
  have secondMissing : (ranking.compare (.object [("n", .int 2)])
      (.object [("n", .int 2), ("m", .int 7)])).isLE = false := rfl
  simp [SortRule.sort, List.mergeSort, List.MergeSort.Internal.splitInTwo, firstMissing,
    secondMissing]

/-- Of the three items the last two stay, and all of them with the least slice there is. -/
theorem push_arranges_ranked :
    (∃ arranged, ranked.Arranges ranks arranged
      [.object [("n", .int 2), ("m", .int 7)], .object [("n", .int 2)]]) ∧
    (∃ arranged, ({ ranked with slice := some Int64.minValue } : Push).Arranges ranks arranged
      [.object [("m", .int 5)], .object [("n", .int 2), ("m", .int 7)],
        .object [("n", .int 2)]]) ∧
    ∃ written, (Update.empty.insert ⟨["list"]⟩ (.push ranked)).apply default
        (.object [("list", .array ranks)]) = .ok written ∧
      written.resolve? ⟨["list"]⟩ =
        some (.array [.object [("n", .int 2), ("m", .int 7)], .object [("n", .int 2)]]) := by
  have free : ∀ item ∈ ranks ++ ranked.each, item.FloatFree := by
    simp [ranks, ranked, Document.FloatFree, Document.Everywhere, Document.MembersEverywhere,
      Document.NotFloat, Document.kind]
  have ran : ranked.run ranks = [.object [("n", .int 2), ("m", .int 7)], .object [("n", .int 2)]] :=
    congrArg (Push.cut (some (-2))) sort_ranking
  have ranWhole : ({ ranked with slice := some Int64.minValue } : Push).run ranks =
      [.object [("m", .int 5)], .object [("n", .int 2), ("m", .int 7)],
        .object [("n", .int 2)]] := by
    refine (congrArg (Push.cut (some Int64.minValue)) sort_ranking).trans ?_
    rw [Push.cut_of_neg (by decide), Nat.sub_eq_zero_of_le (by decide), List.drop_zero]
  obtain ⟨arranged, arranges, wrote⟩ := push_arranges ranked ranks fun _ _ => free
  obtain ⟨whole, arrangesWhole, _⟩ :=
    push_arranges { ranked with slice := some Int64.minValue } ranks fun _ _ => free
  exact ⟨⟨arranged, ran ▸ arranges⟩, ⟨whole, ranWhole ▸ arrangesWhole⟩,
    ran ▸ wrote default _ ⟨["list"]⟩ (by decide) (by decide) rfl⟩

end Update

end LocalFirst
