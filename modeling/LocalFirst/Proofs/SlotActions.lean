import LocalFirst.Proofs.CommutingChanges

/-!
# Actions below the root

An action on a slot is carried along a path: while two paths agree, both actions go on in the same
child, or in an empty object that the first of them to come creates.  Where the paths part, they
change different slots.
-/

namespace LocalFirst

/-- An action that depends on one slot only.  If it does not create the documents on its way, it
has nothing to do in an empty object. -/
structure SlotAction where
  create : Bool
  act : Document → String → Except EntryFault Document
  slotwise : Slotwise act
  idle : create = false → ∀ key, act Document.emptyObject key = .ok Document.emptyObject

namespace SlotAction

open Document

variable {action second : SlotAction} {free : List String → Prop} {node result : Document}
  {key : String}

/-- Act at the end of the segments. -/
def under (action : SlotAction) (segments : List String) (node : Document) :
    Except EntryFault Document :=
  node.updateParent action.create action.act segments

theorem under_emptyObject (notCreates : action.create = false) (key : String)
    (rest : List String) : action.under (key :: rest) emptyObject = .ok emptyObject := by
  cases rest with
  | nil => exact action.idle notCreates key
  | cons next rest => simp [under, updateParent, child?, emptyObject, notCreates]

theorem under_cons_eq_ok_iff {next : String} {rest : List String} :
    action.under (key :: next :: rest) node = .ok result ↔ ∃ updated,
      action.under (next :: rest) ((node.child? key).getD emptyObject) = .ok updated ∧
        Puts action.create key updated node result := by
  rw [under, updateParent_cons_eq_ok_iff]
  cases slot : node.child? key with
  | some child => simp [Puts, slot, under]
  | none =>
      cases creates : action.create with
      | false => simp [Puts, slot, under_emptyObject creates, eq_comm]
      | true => simp [Puts, slot, creates, under]

/-- The next action finds the child that was put in. -/
theorem child?_getD_of_puts {next : String} {rest : List String} {updated : Document}
    (ran : action.under (next :: rest) ((node.child? key).getD emptyObject) = .ok updated)
    (puts : Puts action.create key updated node result) :
    (result.child? key).getD emptyObject = updated := by
  unfold Puts at puts
  split at puts
  next skips =>
    rw [skips.1, Option.getD_none, under_emptyObject skips.2] at ran
    cases ran
    rw [puts, skips.1, Option.getD_none]
  next => rw [child?_setChild_self puts, Option.getD_some]

/-- An action that may change nothing above the end of its way keeps documents alike. -/
theorem respects_under {segments : List String}
    (plain : ∀ segment ∈ segments, Path.index? segment = none)
    (closed : ∀ place more, free (place ++ more) → free place) (fixed : ¬ free segments) :
    Respects (Rearranged free) (action.under segments) := by
  induction segments generalizing free with
  | nil => exact fun _ _ _ _ ran => nomatch ran
  | cons key rest ih =>
      intro node other result alike ran
      cases rest with
      | nil =>
          obtain ⟨decision, act_iff⟩ := action.slotwise
          simp only [under, updateParent, act_iff] at ran ⊢
          obtain ⟨change, decided, ran⟩ := ran
          obtain ⟨otherResult, otherRan, resultAlike⟩ := change.respects_run key free alike ran
          refine ⟨otherResult, ⟨change, ?_, otherRan⟩, resultAlike⟩
          rw [alike.kind_eq]
          rcases alike.child? key with ⟨missing, otherMissing⟩ | ⟨_, _, there, otherThere, alike⟩
          · rwa [otherMissing, ← missing]
          · rwa [otherThere, ← alike.eq_of_not_free fixed, ← there]
      | cons next rest =>
          obtain ⟨keyPlain, restPlain⟩ := List.forall_mem_cons.1 plain
          have restRespects : Respects (Rearranged (freeBehind free key))
              (action.under (next :: rest)) :=
            ih restPlain (fun place => closed (key :: place)) fixed
          have childAlike : Rearranged (freeBehind free key)
              ((node.child? key).getD emptyObject) ((other.child? key).getD emptyObject) := by
            rcases alike.child? key with ⟨missing, otherMissing⟩ | ⟨_, _, there, otherThere, alike⟩
            · rw [missing, otherMissing]
              exact .refl _
            · rwa [there, otherThere]
          simp only [under_cons_eq_ok_iff] at ran ⊢
          obtain ⟨updated, ran, puts⟩ := ran
          obtain ⟨otherUpdated, otherRan, updatedAlike⟩ := restRespects childAlike ran
          obtain ⟨otherResult, otherPuts, resultAlike⟩ :=
            puts.respects alike updatedAlike (closed [] [key]) keyPlain
          exact ⟨otherResult, ⟨otherUpdated, otherRan, otherPuts⟩, resultAlike⟩

/-- Actions commute when neither of their ways is a part of the other.  Where the ways part, they
change different fields. -/
theorem commutes_under {segments others : List String}
    (plain : ∀ segment ∈ segments, Path.index? segment = none)
    (otherPlain : ∀ segment ∈ others, Path.index? segment = none)
    (apart : ¬ segments <+: others) (apart' : ¬ others <+: segments)
    (common : ∀ place, place <+: segments → place <+: others → free place) :
    Commutes (Rearranged free) (action.under segments) (second.under others) := by
  induction segments generalizing others free with
  | nil => exact absurd List.nil_prefix apart
  | cons key rest ih =>
      rcases others with _ | ⟨other, otherRest⟩
      · exact absurd List.nil_prefix apart'
      have isFree : free [] := common [] List.nil_prefix List.nil_prefix
      obtain ⟨keyPlain, restPlain⟩ := List.forall_mem_cons.1 plain
      obtain ⟨otherKeyPlain, otherRestPlain⟩ := List.forall_mem_cons.1 otherPlain
      by_cases differ : key ≠ other
      · exact (slotwise_updateParent action.slotwise rest).commutes
          (slotwise_updateParent second.slotwise otherRest) differ keyPlain otherKeyPlain isFree
      obtain rfl := not_not.1 differ
      rw [List.cons_prefix_cons] at apart apart'
      have childCommutes : Commutes (Rearranged (freeBehind free key)) (action.under rest)
          (second.under otherRest) :=
        ih restPlain otherRestPlain (fun covers => apart ⟨rfl, covers⟩)
          (fun covers => apart' ⟨rfl, covers⟩) fun place within otherWithin =>
            common _ (List.cons_prefix_cons.2 ⟨rfl, within⟩)
              (List.cons_prefix_cons.2 ⟨rfl, otherWithin⟩)
      rcases rest with _ | ⟨next, rest⟩
      · exact absurd ⟨rfl, List.nil_prefix⟩ apart
      rcases otherRest with _ | ⟨otherNext, otherRest⟩
      · exact absurd ⟨rfl, List.nil_prefix⟩ apart'
      intro node between result ran secondRan
      rw [under_cons_eq_ok_iff] at ran secondRan
      obtain ⟨updated, childRan, puts⟩ := ran
      obtain ⟨last, childSecondRan, secondPuts⟩ := secondRan
      rw [child?_getD_of_puts childRan puts] at childSecondRan
      obtain ⟨otherUpdated, otherLast, childSecondFirst, childRanLast, lastAlike⟩ :=
        childCommutes childRan childSecondRan
      -- both orders put the last child into the same document
      have written := exists_puts_iff.1 ⟨between, puts, secondPuts⟩
      rw [Bool.or_comm] at written
      obtain ⟨otherResult, otherWritten, resultAlike⟩ :=
        written.respects (.refl node) lastAlike (fun _ => isFree) keyPlain
      obtain ⟨otherBetween, secondFirst, putsLast⟩ : ∃ between,
          Puts second.create key otherUpdated node between ∧
            Puts action.create key otherLast between otherResult :=
        exists_puts_iff.2 otherWritten
      refine ⟨otherBetween, otherResult, under_cons_eq_ok_iff.2 ⟨_, childSecondFirst, secondFirst⟩,
        under_cons_eq_ok_iff.2 ⟨otherLast, ?_, putsLast⟩, resultAlike⟩
      rwa [child?_getD_of_puts childSecondFirst secondFirst]

end SlotAction

end LocalFirst
