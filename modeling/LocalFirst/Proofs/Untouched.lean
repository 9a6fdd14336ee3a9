import LocalFirst.Proofs.Slot

/-!
# What an update leaves alone

An update changes nothing but what it addresses.  Two paths conflict when one of them leads to the
other or through it; in arrays, texts that read as the same index lead to the same item.  What is
at a path that conflicts with none of the paths of an update, nor with the paths to which it moves
anything, is afterwards what it was before, on whatever way the update creates missing documents,
pads arrays and moves fields.
-/

namespace LocalFirst

namespace Path

/-- The segments begin with segments that meet the given ones. -/
def Covers : List String → List String → Prop
  | [], _ => True
  | _ :: _, [] => False
  | segment :: rest, other :: others => Meets segment other ∧ Covers rest others

instance decidableCovers : (segments others : List String) → Decidable (Covers segments others)
  | [], _ => .isTrue trivial
  | _ :: _, [] => .isFalse id
  | segment :: rest, other :: others =>
      have := decidableCovers rest others
      inferInstanceAs (Decidable (Meets segment other ∧ Covers rest others))

/-- One of the paths is a prefix of the other. -/
def Conflicts (path other : Path) : Prop :=
  Covers path.segments other.segments ∨ Covers other.segments path.segments

instance (path other : Path) : Decidable (path.Conflicts other) :=
  inferInstanceAs (Decidable (_ ∨ _))

end Path

namespace Document

/-- Something is at the end of the segments, or none of them leads into an array. -/
def Visible (document : Document) (segments : List String) : Prop :=
  (document.below? segments).isSome = true ∨ ∀ segment ∈ segments, Path.index? segment = none

variable {create : Bool} {act : Document → String → Except EntryFault Document}
  {node result : Document} {key next : String} {rest : List String}

/-- A change behind a segment is a change of what the segment names, or of an empty object in its
place.  Nothing happens where that is missing and is not created. -/
theorem updateParent_cons_eq_ok_iff :
    node.updateParent create act (key :: next :: rest) = .ok result ↔
      (node.child? key = none ∧ create = false ∧ result = node) ∨
      ∃ child updated, (node.child? key = some child ∨
          (node.child? key = none ∧ create = true ∧ child = emptyObject)) ∧
        child.updateParent create act (next :: rest) = .ok updated ∧
        node.setChild key updated = .ok result := by
  cases slot : node.child? key with
  | some child => simp [updateParent, slot]
  | none =>
      cases create with
      | false => simp [updateParent, slot, eq_comm]
      | true =>
          simp only [updateParent, slot, if_true, Except.bind_eq_ok]
          constructor
          · rintro ⟨grown, grownOk, rest⟩
            rw [child?_setChild_self grownOk] at rest
            simp only [Except.bind_eq_ok, setChild_setChild grownOk] at rest
            obtain ⟨updated, updatedOk, written⟩ := rest
            exact .inr ⟨emptyObject, updated, .inr ⟨trivial, trivial, rfl⟩, updatedOk, written⟩
          · rintro (⟨_, ⟨⟩, _⟩ | ⟨_, updated, ⟨⟨⟩⟩ | ⟨_, _, rfl⟩, updatedOk, written⟩)
            obtain ⟨grown, grownOk⟩ := exists_setChild written emptyObject
            refine ⟨grown, grownOk, ?_⟩
            rw [child?_setChild_self grownOk]
            simp only [Except.bind_eq_ok, setChild_setChild grownOk]
            exact ⟨updated, updatedOk, written⟩

/-- A change at a slot is not seen along segments that do not conflict with those of the slot. -/
theorem below?_of_updateParent {segments others : List String} (slotwise : Slotwise act)
    (apart : ¬ Path.Covers segments others) (apart' : ¬ Path.Covers others segments)
    (visible : node.Visible others)
    (updated : node.updateParent create act segments = .ok result) :
    result.below? others = node.below? others := by
  induction segments generalizing node others result with
  | nil => exact absurd trivial apart
  | cons key rest ih =>
      -- the other segments are not empty, as those would cover everything
      rcases others with _ | ⟨other, tail⟩
      · exact absurd trivial apart'
      have otherVisible : (node.child? other).isSome = true ∨ Path.index? other = none := by
        rcases visible with there | plain
        · left
          cases slot : node.child? other with
          | none => simp [below?, slot] at there
          | some _ => rfl
        · exact .inr (plain other List.mem_cons_self)
      suffices seen : result.child? other = node.child? other ∨
          ∃ child, result.child? other = some child ∧
            child.below? tail = (node.child? other).bind (·.below? tail) by
        rcases seen with same | ⟨child, found, same⟩
        · rw [below?, below?, same]
        · rw [below?, below?, found, Option.bind_some, same]
      cases rest with
      | nil =>
          obtain ⟨decision, act_iff⟩ := slotwise
          rw [updateParent, act_iff] at updated
          obtain ⟨change, _, ran⟩ := updated
          have notMeets : ¬ Path.Meets key other := fun meets => apart ⟨meets, trivial⟩
          exact .inl (Change.child?_run notMeets otherVisible ran)
      | cons next rest =>
          rcases updateParent_cons_eq_ok_iff.1 updated with
            ⟨_, _, rfl⟩ | ⟨child, grandchild, slot, childUpdated, written⟩
          · exact .inl rfl
          rcases child?_of_setChild written otherVisible with ⟨meets, sameSlot, found⟩ | same
          · -- both ways lead through the same slot, and part behind it
            have restApart : ¬ Path.Covers (next :: rest) tail := fun covers =>
              apart ⟨meets, covers⟩
            have restApart' : ¬ Path.Covers tail (next :: rest) := fun covers =>
              apart' ⟨meets.symm, covers⟩
            right
            refine ⟨grandchild, found, ?_⟩
            rcases slot with present | ⟨missing, _, rfl⟩
            · have childVisible : child.Visible tail := by
                rcases visible with there | plain
                · left
                  rwa [below?, sameSlot, present, Option.bind_some] at there
                · exact .inr fun segment member => plain segment (List.mem_cons_of_mem _ member)
              rw [sameSlot, present, Option.bind_some]
              exact ih restApart restApart' childVisible childUpdated
            · -- nothing is there, and nothing comes there in the new object
              have plain : ∀ segment ∈ tail, Path.index? segment = none := by
                rcases visible with there | plain
                · simp [below?, sameSlot, missing] at there
                · exact fun segment member => plain segment (List.mem_cons_of_mem _ member)
              have none : emptyObject.below? tail = none := by
                cases tail with
                | nil => exact absurd trivial restApart'
                | cons => rfl
              rw [sameSlot, missing, Option.bind_none, ← none]
              exact ih restApart restApart' (.inr plain) childUpdated
          · exact .inl same

theorem resolve?_of_atParent {document : Document} {path other : Path} (slotwise : Slotwise act)
    (apart : ¬ other.Conflicts path) (visible : document.Visible other.segments)
    (updated : document.atParent create act path = .ok result) :
    result.resolve? other = document.resolve? other := by
  unfold atParent at updated
  split at updated
  · cases updated
  · exact below?_of_updateParent slotwise (fun covers => apart (.inr covers))
      (fun covers => apart (.inl covers)) visible updated

end Document

namespace Entry

/-- The paths at which an entry may write: its own, and that to which it moves the field. -/
def addressed (entry : Entry) : List Path :=
  match entry.edit with
  | .rename name => [entry.path, entry.path.renamed name]
  | _ => [entry.path]

theorem path_mem_addressed (entry : Entry) : entry.path ∈ entry.addressed := by
  unfold addressed
  split <;> exact List.mem_cons_self

variable {now : Instant} {document result : Document} {other : Path}

theorem resolve?_of_rename {path : Path} {name : String} (apart : ¬ other.Conflicts path)
    (targetApart : ¬ other.Conflicts (path.renamed name))
    (visible : document.Visible other.segments)
    (renamed : rename document path name = .ok result) :
    result.resolve? other = document.resolve? other := by
  simp only [rename] at renamed
  split at renamed
  · cases renamed
  split at renamed
  · cases renamed
    rfl
  simp only [Except.bind_eq_ok, blame, Except.mapError_eq_ok] at renamed
  obtain ⟨remaining, removed, renamed⟩ := renamed
  have remainingSame := Document.resolve?_of_atParent slotwise_renameSource apart visible removed
  split at renamed
  · cases renamed
    exact remainingSame
  next value _ =>
    rw [Except.mapError_eq_ok] at renamed
    have remainingVisible : remaining.Visible other.segments := by
      rcases visible with there | plain
      · left
        rw [Document.resolve?, Document.resolve?] at remainingSame
        rwa [remainingSame]
      · exact .inr plain
    rw [Document.resolve?_of_atParent (slotwise_setChild value) targetApart remainingVisible
      renamed, remainingSame]

theorem resolve?_of_run {entry : Entry} (apart : ∀ path ∈ entry.addressed, ¬ other.Conflicts path)
    (visible : document.Visible other.segments) (ran : entry.run now document = .ok result) :
    result.resolve? other = document.resolve? other := by
  have pathApart := apart entry.path entry.path_mem_addressed
  unfold run at ran
  split at ran
  next name editEq =>
    have targetApart := apart (entry.path.renamed name) (by simp [addressed, editEq])
    exact resolve?_of_rename pathApart targetApart visible ran
  · rw [blame, Except.mapError_eq_ok] at ran
    exact Document.resolve?_of_atParent (entry.edit.slotwise_act now) pathApart visible ran

end Entry

namespace Update

/-- The paths at which an update may write. -/
def addressed (update : Update) : List Path :=
  update.entries.toList.flatMap Entry.addressed

/-- What is at the end of a path stays there under an update that addresses no path in conflict with
it, and moves nothing to one. -/
theorem resolve?_of_apply {now : Instant} {update : Update} {document result value : Document}
    {path : Path} (applied : update.apply now document = .ok result)
    (apart : ∀ touched ∈ update.addressed, ¬ path.Conflicts touched)
    (resolved : document.resolve? path = some value) : result.resolve? path = some value := by
  have keeps : ∀ entry ∈ update.entries.toList, ∀ before after : Document,
      before.resolve? path = some value → entry.run now before = .ok after →
      after.resolve? path = some value := by
    intro entry member before after resolved ran
    have entryApart : ∀ touched ∈ entry.addressed, ¬ path.Conflicts touched :=
      fun touched inEntry => apart touched (List.mem_flatMap_of_mem member inEntry)
    have visible : before.Visible path.segments := .inl (by
      rw [Document.resolve?] at resolved
      rw [resolved]
      rfl)
    exact (Entry.resolve?_of_run entryApart visible ran).trans resolved
  exact Except.foldlM_preserves keeps resolved applied

/-- Two notes of a list, and a field beside it. -/
def notes : Document :=
  .object [("list", .array [.object [("n", .int 1)], .object [("n", .int 2)]]), ("old", .int 5)]

/-- The list is padded, its first item removed and its second one pushed to, and the field is moved
into the second one, which goes by another text of its index. -/
def scattered : Update :=
  .ofEntries [
    ⟨⟨["list", "4", "x"]⟩, .set .null⟩,
    ⟨⟨["list", "+0"]⟩, .unset⟩,
    ⟨⟨["list", "1", "tags"]⟩, .push ⟨[.null], none, none, none⟩⟩,
    ⟨⟨["old"]⟩, .rename "list.01.m"⟩]

theorem resolve?_of_apply_scattered :
    (∀ touched ∈ scattered.addressed, ¬ (⟨["list", "1", "n"]⟩ : Path).Conflicts touched) ∧
      ∃ result, scattered.apply default notes = .ok result ∧
        result.resolve? ⟨["list", "1", "n"]⟩ = some (.int 2) := by
  have apart : ∀ touched ∈ scattered.addressed,
      ¬ (⟨["list", "1", "n"]⟩ : Path).Conflicts touched := by
    decide +kernel
  have succeeds : (scattered.apply default notes).toOption.isSome = true := by
    decide +kernel
  obtain ⟨result, applied⟩ := Except.exists_of_isSome_toOption succeeds
  exact ⟨apart, result, applied, resolve?_of_apply applied apart rfl⟩

end Update

end LocalFirst
