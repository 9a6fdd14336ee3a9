import LocalFirst.Proofs.Untouched

/-!
# Setting and reading a field

To set a field is to walk down its path, to create what is missing on the way, and to rebuild the
documents above it; to read it is to walk down the same path.  Both take the same child at every
level, among the members of objects as well as among the items of arrays, where texts that read as
the same index name the same item.  So they obey the laws of a lens: what has been set is read, to
set what is there changes nothing, and the second of two writes counts.  A member that was set where
none had been can be taken out again, and nothing is left of it.
-/

universe u

namespace LocalFirst

namespace Members

variable {α : Type u}

/-- A new member can be taken out again. -/
theorem erase_put_of_get?_eq_none {key : String} (value : α) {members : List (String × α)}
    (missing : get? key members = none) : erase key (put key value members) = members := by
  induction members with
  | nil => simp [put, erase]
  | cons member rest ih =>
      by_cases same : member.1 = key
      · simp [get?, same] at missing
      · simp only [get?, same, if_false] at missing
        simp [put, erase, same, ih missing]

end Members

namespace Document

variable {node result written value : Document} {key next : String} {rest : List String}

/-- Write what is at the end of some segments, and create what is missing on the way. -/
def write (node : Document) (value : Document) (segments : List String) :
    Except EntryFault Document :=
  node.updateParent true (fun node key => node.setChild key value) segments

/-- Remove what is at the end of some segments, if it is there. -/
def remove (node : Document) (segments : List String) : Except EntryFault Document :=
  node.updateParent false (fun node key => .ok (node.removeChild key)) segments

/-- A write behind a segment is a write into what the segment names, or into an empty object in its
place. -/
theorem write_cons_eq_ok_iff : node.write value (key :: next :: rest) = .ok result ↔
    ∃ updated, ((node.child? key).getD emptyObject).write value (next :: rest) = .ok updated ∧
      node.setChild key updated = .ok result := by
  rw [write, updateParent_cons_eq_ok_iff]
  cases slot : node.child? key <;> simp [write]

/-- What is in a slot can be written there, which changes nothing. -/
theorem setChild_of_child? (present : node.child? key = some value) :
    node.setChild key value = .ok node := by
  cases node with
  | object members =>
      exact setChild_eq_ok_iff.2 (.inl ⟨members, rfl,
        congrArg object (Members.put_of_get? present).symm⟩)
  | array items =>
      obtain ⟨index, reads, found⟩ := Option.bind_eq_some_iff.1 present
      obtain ⟨within, rfl⟩ := List.getElem?_eq_some_iff.1 found
      refine setChild_eq_ok_iff.2 (.inr ⟨items, index, rfl, reads, by omega, ?_⟩)
      rw [writeItem, Nat.sub_eq_zero_of_le within, List.replicate_zero, List.append_nil,
        List.set_getElem_self]
  | _ => cases present

/-- What has been written is read. -/
theorem below?_of_write {segments : List String} (wrote : node.write value segments = .ok written) :
    written.below? segments = some value := by
  induction segments generalizing node written with
  | nil => cases wrote
  | cons key rest ih =>
      cases rest with
      | nil =>
          rw [below?, child?_setChild_self wrote]
          rfl
      | cons next rest =>
          obtain ⟨updated, updatedOk, rebuilt⟩ := write_cons_eq_ok_iff.1 wrote
          rw [below?, child?_setChild_self rebuilt]
          exact ih updatedOk

/-- To write what is there changes nothing. -/
theorem write_of_below? {segments : List String} (nonempty : segments ≠ [])
    (present : node.below? segments = some value) : node.write value segments = .ok node := by
  induction segments generalizing node with
  | nil => exact absurd rfl nonempty
  | cons key rest ih =>
      obtain ⟨child, childFound, behind⟩ := Option.bind_eq_some_iff.1 present
      cases rest with
      | nil =>
          cases behind
          exact setChild_of_child? childFound
      | cons next rest =>
          refine write_cons_eq_ok_iff.2 ⟨child, ?_, setChild_of_child? childFound⟩
          rw [childFound]
          exact ih (by simp) behind

/-- Where one value can be written, so can another, and it does not matter which one is there. -/
theorem exists_write_of_write {segments : List String}
    (wrote : node.write value segments = .ok written) (second : Document) :
    ∃ result, node.write second segments = .ok result ∧
      written.write second segments = .ok result := by
  induction segments generalizing node written with
  | nil => cases wrote
  | cons key rest ih =>
      cases rest with
      | nil =>
          obtain ⟨result, resultOk⟩ := exists_setChild wrote second
          exact ⟨result, resultOk, (setChild_setChild wrote second).trans resultOk⟩
      | cons next rest =>
          obtain ⟨updated, updatedOk, rebuilt⟩ := write_cons_eq_ok_iff.1 wrote
          obtain ⟨last, lastOk, againOk⟩ := ih updatedOk
          obtain ⟨result, resultOk⟩ := exists_setChild rebuilt last
          refine ⟨result, write_cons_eq_ok_iff.2 ⟨last, lastOk, resultOk⟩,
            write_cons_eq_ok_iff.2 ⟨last, ?_, (setChild_setChild rebuilt last).trans resultOk⟩⟩
          rw [child?_setChild_self rebuilt]
          exact againOk

/-- A new member of an object can be written and removed again, and leaves nothing behind. -/
theorem exists_write_remove {parents : List String} {members : List (String × Document)}
    (found : node.below? parents = some (.object members))
    (missing : Members.get? key members = none) (value : Document) :
    ∃ written, node.write value (parents ++ [key]) = .ok written ∧
      written.remove (parents ++ [key]) = .ok node := by
  induction parents generalizing node with
  | nil =>
      cases found
      refine ⟨.object (Members.put key value members), rfl, ?_⟩
      change Except.ok (object (Members.erase key (Members.put key value members))) = _
      rw [Members.erase_put_of_get?_eq_none value missing]
  | cons parent parents ih =>
      obtain ⟨child, childFound, behind⟩ := Option.bind_eq_some_iff.1 found
      obtain ⟨updated, updatedOk, removedOk⟩ := ih behind
      obtain ⟨next, rest, segments⟩ : ∃ next rest, parents ++ [key] = next :: rest :=
        List.exists_cons_of_ne_nil (by simp)
      have unchanged := setChild_of_child? childFound
      obtain ⟨written, rebuilt⟩ := exists_setChild unchanged updated
      rw [List.cons_append, segments]
      rw [segments] at updatedOk removedOk
      refine ⟨written, write_cons_eq_ok_iff.2 ⟨updated, by rwa [childFound], rebuilt⟩,
        updateParent_cons_eq_ok_iff.2 (.inr ⟨updated, child, .inl (child?_setChild_self rebuilt),
          removedOk, (setChild_setChild rebuilt child).trans unchanged⟩)⟩

end Document

namespace Update

variable {now : Instant} {document result value : Document} {path : Path}

/-- An update with a single edit, unless it is a rename, carries it out at its path. -/
theorem apply_insert_eq_ok_iff {edit : Edit} (notRename : edit.operator ≠ .rename) :
    (Update.empty.insert path edit).apply now document = .ok result ↔
      path.fault? = none ∧
        document.updateParent edit.creates (edit.act now) path.segments = .ok result := by
  have ran : (Update.empty.insert path edit).apply now document =
      Entry.blame edit.operator path (document.atParent edit.creates (edit.act now) path) := by
    change (Entry.run now document ⟨path, edit⟩ >>= pure) = _
    rw [bind_pure]
    cases edit
    case rename => exact absurd rfl notRename
    all_goals rfl
  rw [ran, Entry.blame, Except.mapError_eq_ok, Document.atParent]
  split
  next fault found => simp [found]
  next sound => rw [sound, eq_self, true_and]

theorem apply_set_eq_ok_iff : (Update.empty.set path value).apply now document = .ok result ↔
    path.fault? = none ∧ document.write value path.segments = .ok result :=
  apply_insert_eq_ok_iff (by simp [Edit.operator])

theorem apply_unset_eq_ok_iff : (Update.empty.unset path).apply now document = .ok result ↔
    path.fault? = none ∧ document.remove path.segments = .ok result :=
  apply_insert_eq_ok_iff (by simp [Edit.operator])

/-- Setting a field and reading it obey the laws of a lens, and a member that is set where an object
has none can be unset again. -/
theorem set_lawful (now : Instant) (document : Document) (path : Path) (value second : Document)
    (nonempty : path.segments ≠ []) (noneEmpty : "" ∉ path.segments) :
    (∀ written, (Update.empty.set path value).apply now document = .ok written →
      written.resolve? path = some value ∧
        (Update.empty.set path second).apply now written =
          (Update.empty.set path second).apply now document) ∧
    (document.resolve? path = some value →
      (Update.empty.set path value).apply now document = .ok document) ∧
    ∀ parent key members, path = parent.child key →
      document.resolve? parent = some (.object members) → Members.get? key members = none →
        ∃ written, (Update.empty.set path value).apply now document = .ok written ∧
          (Update.empty.unset path).apply now written = .ok document := by
  have sound : path.fault? = none := by
    simpa [Path.fault?, Path.isRoot, nonempty] using noneEmpty
  refine ⟨fun written wrote => ?_, fun present => ?_, ?_⟩
  · obtain ⟨_, wrote⟩ := apply_set_eq_ok_iff.1 wrote
    obtain ⟨result, resultOk, againOk⟩ := Document.exists_write_of_write wrote second
    refine ⟨Document.below?_of_write wrote, ?_⟩
    rw [apply_set_eq_ok_iff.2 ⟨sound, resultOk⟩, apply_set_eq_ok_iff.2 ⟨sound, againOk⟩]
  · exact apply_set_eq_ok_iff.2 ⟨sound, Document.write_of_below? nonempty present⟩
  · rintro parent key members rfl found missing
    obtain ⟨written, wrote, removed⟩ := Document.exists_write_remove found missing value
    exact ⟨written, apply_set_eq_ok_iff.2 ⟨sound, wrote⟩, apply_unset_eq_ok_iff.2 ⟨sound, removed⟩⟩

/-- A write far behind the end of the list, one to an item by another text of its index, and one to a
new member of an item. -/
theorem set_lawful_notes :
    (∃ written, (Update.empty.set ⟨["list", "4", "x"]⟩ (.int 7)).apply default notes = .ok written ∧
      written.resolve? ⟨["list", "4", "x"]⟩ = some (.int 7) ∧
        (Update.empty.set ⟨["list", "4", "x"]⟩ .null).apply default written =
          (Update.empty.set ⟨["list", "4", "x"]⟩ .null).apply default notes) ∧
    (notes.resolve? ⟨["list", "+01", "n"]⟩ = some (.int 2) ∧
      (Update.empty.set ⟨["list", "+01", "n"]⟩ (.int 2)).apply default notes = .ok notes) ∧
    ∃ written, (Update.empty.set ⟨["list", "0", "7"]⟩ .null).apply default notes = .ok written ∧
      (Update.empty.unset ⟨["list", "0", "7"]⟩).apply default written = .ok notes := by
  have succeeds : ((Update.empty.set ⟨["list", "4", "x"]⟩ (.int 7)).apply default
      notes).toOption.isSome = true := by
    decide +kernel
  obtain ⟨written, wrote⟩ := Except.exists_of_isSome_toOption succeeds
  refine ⟨⟨written, wrote, ?_⟩, ⟨rfl, ?_⟩, ?_⟩
  · exact (set_lawful default notes ⟨["list", "4", "x"]⟩ (.int 7) .null (by decide)
      (by decide)).1 written wrote
  · exact (set_lawful default notes ⟨["list", "+01", "n"]⟩ (.int 2) .null (by decide)
      (by decide)).2.1 rfl
  · exact (set_lawful default notes ⟨["list", "0", "7"]⟩ .null .null (by decide)
      (by decide)).2.2 ⟨["list", "0"]⟩ "7" [("n", .int 1)] rfl rfl rfl

end Update

end LocalFirst
