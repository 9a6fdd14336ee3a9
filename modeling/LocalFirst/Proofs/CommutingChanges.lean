import LocalFirst.Proofs.MemberOrder
import LocalFirst.Proofs.Untouched

/-!
# Changes of different slots commute

Two lists of steps commute when each step of the one commutes with each of the other, up to a
relation that every step respects.  Here the steps change slots of a document, and the relation is
equality up to the order of members: two changes of different slots have the same outcome in either
order.
-/

namespace LocalFirst

section Steps

variable {ε α ι : Type} {related : α → α → Prop} {run : α → ι → Except ε α}

/-- On related states the step has related outcomes. -/
def Respects (related : α → α → Prop) (step : α → Except ε α) : Prop :=
  ∀ ⦃state other result⦄, related state other → step state = .ok result →
    ∃ otherResult, step other = .ok otherResult ∧ related result otherResult

/-- Steps that succeed one after the other succeed in the other order too, with a related
outcome. -/
def Commutes (related : α → α → Prop) (first second : α → Except ε α) : Prop :=
  ∀ ⦃state between result⦄, first state = .ok between → second between = .ok result →
    ∃ otherBetween otherResult, second state = .ok otherBetween ∧
      first otherBetween = .ok otherResult ∧ related result otherResult

theorem Respects.foldlM {steps : List ι}
    (respects : ∀ step ∈ steps, Respects related (run · step)) :
    Respects related fun state => steps.foldlM run state := by
  induction steps with
  | nil =>
      rintro state other _ alike ⟨⟩
      exact ⟨other, rfl, alike⟩
  | cons step rest ih =>
      intro state other result alike ran
      obtain ⟨stepRespects, restRespects⟩ := List.forall_mem_cons.1 respects
      simp only [List.foldlM_cons, Except.bind_eq_ok] at ran ⊢
      obtain ⟨between, stepRan, restRan⟩ := ran
      obtain ⟨otherBetween, otherStepRan, betweenAlike⟩ := stepRespects alike stepRan
      obtain ⟨otherResult, otherRestRan, resultAlike⟩ := ih restRespects betweenAlike restRan
      exact ⟨otherResult, ⟨otherBetween, otherStepRan, otherRestRan⟩, resultAlike⟩

variable (refl : ∀ state, related state state)
  (trans : ∀ {first second third}, related first second → related second third →
    related first third)

include refl trans

theorem Commutes.foldlM_right {first : α → Except ε α} {steps : List ι}
    (respects : ∀ step ∈ steps, Respects related (run · step))
    (commutes : ∀ step ∈ steps, Commutes related first (run · step)) :
    Commutes related first fun state => steps.foldlM run state := by
  induction steps with
  | nil =>
      rintro state between _ firstRan ⟨⟩
      exact ⟨state, between, rfl, firstRan, refl between⟩
  | cons step rest ih =>
      intro state between result firstRan ran
      obtain ⟨_, restRespects⟩ := List.forall_mem_cons.1 respects
      obtain ⟨stepCommutes, restCommutes⟩ := List.forall_mem_cons.1 commutes
      simp only [List.foldlM_cons, Except.bind_eq_ok] at ran ⊢
      obtain ⟨stepped, stepRan, restRan⟩ := ran
      obtain ⟨early, late, earlyRan, lateRan, steppedAlike⟩ := stepCommutes firstRan stepRan
      obtain ⟨lateResult, lateRestRan, lateAlike⟩ :=
        Respects.foldlM restRespects steppedAlike restRan
      obtain ⟨otherBetween, otherResult, earlyRestRan, firstLast, resultAlike⟩ :=
        ih restRespects restCommutes lateRan lateRestRan
      exact ⟨otherBetween, otherResult, ⟨early, earlyRan, earlyRestRan⟩, firstLast,
        trans lateAlike resultAlike⟩

theorem Commutes.foldlM_left {second : α → Except ε α} {steps : List ι}
    (respects : ∀ step ∈ steps, Respects related (run · step))
    (commutes : ∀ step ∈ steps, Commutes related (run · step) second) :
    Commutes related (fun state => steps.foldlM run state) second := by
  induction steps with
  | nil =>
      rintro state _ result ⟨⟩ secondRan
      exact ⟨result, result, secondRan, rfl, refl result⟩
  | cons step rest ih =>
      intro state between result ran secondRan
      obtain ⟨_, restRespects⟩ := List.forall_mem_cons.1 respects
      obtain ⟨stepCommutes, restCommutes⟩ := List.forall_mem_cons.1 commutes
      simp only [List.foldlM_cons, Except.bind_eq_ok] at ran ⊢
      obtain ⟨stepped, stepRan, restRan⟩ := ran
      obtain ⟨early, late, earlyRan, lateRan, resultAlike⟩ := ih restRespects restCommutes restRan
        secondRan
      obtain ⟨otherBetween, otherStepped, secondFirst, stepLast, earlyAlike⟩ :=
        stepCommutes stepRan earlyRan
      obtain ⟨otherResult, restLast, lateAlike⟩ :=
        Respects.foldlM restRespects earlyAlike lateRan
      exact ⟨otherBetween, otherResult, secondFirst, ⟨otherStepped, stepLast, restLast⟩,
        trans resultAlike lateAlike⟩

/-- Lists of steps commute when each step of one commutes with each of the other. -/
theorem Commutes.foldlM {steps others : List ι}
    (respects : ∀ step ∈ steps, Respects related (run · step))
    (otherRespects : ∀ step ∈ others, Respects related (run · step))
    (commutes : ∀ step ∈ steps, ∀ other ∈ others,
      Commutes related (run · step) (run · other)) :
    Commutes related (fun state => steps.foldlM run state) fun state => others.foldlM run state :=
  foldlM_left refl trans respects fun step member =>
    foldlM_right refl trans otherRespects (commutes step member)

end Steps

namespace Change

/-- What a change does to the values under its key. -/
def onValues (change : Change) (values : List Document) : List Document :=
  match change with
  | .keep => values
  | .write value => value :: values.tail
  | .remove => values.tail

/-- What a change does to the members of an object. -/
def onMembers (change : Change) (key : String) (members : List (String × Document)) :
    List (String × Document) :=
  match change with
  | .keep => members
  | .write value => Members.put key value members
  | .remove => Members.erase key members

theorem valuesOf_onMembers (change : Change) (key other : String)
    (members : List (String × Document)) :
    Members.valuesOf other (change.onMembers key members) =
      if other = key then change.onValues (Members.valuesOf key members)
      else Members.valuesOf other members := by
  cases change with
  | keep =>
      by_cases same : other = key
      · rw [if_pos same, same]
        rfl
      · rw [if_neg same]
        rfl
  | write value => exact Members.valuesOf_put key other value members
  | remove => exact Members.valuesOf_erase key other members

theorem run_object (change : Change) (key : String) (members : List (String × Document)) :
    change.run (.object members) key = .ok (.object (change.onMembers key members)) := by
  cases change <;> rfl

/-- In a scalar, and in an array, there is no field to change. -/
theorem eq_of_run {change : Change} {node result : Document} {key : String}
    (notObject : ∀ members, node ≠ .object members) (plain : Path.index? key = none)
    (ran : change.run node key = .ok result) : result = node := by
  cases change with
  | keep =>
      cases ran
      rfl
  | write value =>
      rcases Document.setChild_eq_ok_iff.1 ran with ⟨members, same, _⟩ | ⟨_, _, _, reads, _⟩
      · exact absurd same (notObject members)
      · cases reads.symm.trans plain
  | remove =>
      cases ran
      cases node with
      | object members => exact absurd rfl (notObject members)
      | array items => simp [Document.removeChild, plain]
      | _ => rfl

theorem commutes_run {change second : Change} {key other : String} {free : List String → Prop}
    (differ : key ≠ other) (plain : Path.index? key = none) (otherPlain : Path.index? other = none)
    (isFree : free []) :
    Commutes (Document.Rearranged free) (change.run · key) (second.run · other) := by
  intro node between result ran secondRan
  by_cases isObject : ∃ members, node = .object members
  · obtain ⟨members, rfl⟩ := isObject
    cases (run_object change key members).symm.trans ran
    cases (run_object second other _).symm.trans secondRan
    refine ⟨_, _, run_object second other members, run_object change key _, ?_⟩
    apply Document.Rearranged.of_related isFree
    apply Members.Related.of_valuesOf fun _ value => .refl value
    intro place
    simp only [valuesOf_onMembers]
    by_cases atKey : place = key
    · subst atKey
      simp only [differ, if_true, if_false]
    · simp only [atKey, if_false, if_neg differ.symm]
  · have notObject : ∀ members, node ≠ .object members := fun members same =>
      isObject ⟨members, same⟩
    obtain rfl := eq_of_run notObject plain ran
    obtain rfl := eq_of_run notObject otherPlain secondRan
    exact ⟨_, _, secondRan, ran, .refl _⟩

theorem respects_run (change : Change) (key : String) (free : List String → Prop) :
    Respects (Document.Rearranged free) (change.run · key) := by
  intro node other result alike ran
  rcases alike.cases_object with rfl | ⟨members, others, rfl, rfl, isFree, related⟩
  · exact ⟨result, ran, .refl result⟩
  · cases (run_object change key members).symm.trans ran
    refine ⟨_, run_object change key others, .of_related isFree ?_⟩
    cases change with
    | keep => exact related
    | write value => exact related.put (.refl value)
    | remove => exact related.erase key

end Change

theorem Path.not_meets {segment other : String} (differ : segment ≠ other)
    (plain : index? segment = none) : ¬ Meets segment other := by
  rintro (same | ⟨reads, _⟩)
  · exact differ same
  · simp [plain] at reads

/-- Actions at different fields commute. -/
theorem Slotwise.commutes {act second : Document → String → Except EntryFault Document}
    {key other : String} {free : List String → Prop} (slotwise : Slotwise act)
    (secondSlotwise : Slotwise second) (differ : key ≠ other) (plain : Path.index? key = none)
    (otherPlain : Path.index? other = none) (isFree : free []) :
    Commutes (Document.Rearranged free) (act · key) (second · other) := by
  obtain ⟨decision, act_iff⟩ := slotwise
  obtain ⟨secondDecision, second_iff⟩ := secondSlotwise
  intro node between result ran secondRan
  simp only [act_iff, second_iff] at ran secondRan ⊢
  obtain ⟨change, decided, ran⟩ := ran
  obtain ⟨secondChange, secondDecided, secondRan⟩ := secondRan
  rw [Change.kind_run ran,
    Change.child?_run (Path.not_meets differ plain) (.inr otherPlain) ran] at secondDecided
  obtain ⟨otherBetween, otherResult, secondFirst, last, alike⟩ :=
    Change.commutes_run differ plain otherPlain isFree ran secondRan
  refine ⟨otherBetween, otherResult, ⟨secondChange, secondDecided, secondFirst⟩,
    ⟨change, ?_, last⟩, alike⟩
  rwa [Change.kind_run secondFirst,
    Change.child?_run (Path.not_meets differ.symm otherPlain) (.inr plain) secondFirst]

/-- What an action below a slot makes of the slot: its document with the action carried out, or
nothing where none is created. -/
def decideBelow (create : Bool) (act : Document → String → Except EntryFault Document)
    (segments : List String) : Option Document → Except EntryFault Change
  | some child => (child.updateParent create act segments).map .write
  | none =>
      if create then (Document.emptyObject.updateParent create act segments).map .write
      else .ok .keep

/-- An action below a slot is a change of this slot. -/
theorem slotwise_updateParent {create : Bool}
    {act : Document → String → Except EntryFault Document} (slotwise : Slotwise act)
    (segments : List String) :
    Slotwise fun node key => node.updateParent create act (key :: segments) := by
  cases segments with
  | nil => exact slotwise
  | cons next rest =>
      apply slotwise_of_iff fun _ slot => decideBelow create act (next :: rest) slot
      intro node key result
      rw [Document.updateParent_cons_eq_ok_iff]
      cases slot : node.child? key with
      | some child => simp [decideBelow, Change.run]
      | none =>
          cases create with
          | false => simp [decideBelow, Change.run, eq_comm]
          | true => simp [decideBelow, Change.run]

namespace Document

variable {free : List String → Prop} {node other value second result : Document} {key : String}

theorem Rearranged.setChild (alike : Rearranged free node other)
    (valuesAlike : Rearranged (freeBehind free key) value second) (closed : free [key] → free [])
    (plain : Path.index? key = none) (written : node.setChild key value = .ok result) :
    ∃ otherResult, other.setChild key second = .ok otherResult ∧
      Rearranged free result otherResult := by
  rcases setChild_eq_ok_iff.1 written with ⟨members, rfl, rfl⟩ | ⟨_, _, _, reads, _⟩
  · rcases alike.cases_object with rfl | ⟨_, others, ⟨⟩, rfl, isFree, related⟩
    · refine ⟨_, rfl, ?_⟩
      rcases valuesAlike.cases_object with rfl | ⟨_, _, _, _, isFree, _⟩
      · exact .refl _
      · have related : Members.Related (fun key => Rearranged (freeBehind free key)) members
            members := .of_valuesOf (fun _ value => .refl value) fun _ => rfl
        exact .of_related (closed isFree) (related.put valuesAlike)
    · exact ⟨_, rfl, .of_related isFree (related.put valuesAlike)⟩
  · cases reads.symm.trans plain

/-- A changed child takes its place, unless it was missing and is not created. -/
def Puts (create : Bool) (key : String) (updated node result : Document) : Prop :=
  if node.child? key = none ∧ create = false then result = node
  else node.setChild key updated = .ok result

theorem Puts.respects {create : Bool} (alike : Rearranged free node other)
    (valuesAlike : Rearranged (freeBehind free key) value second)
    (closed : free [key] → free []) (plain : Path.index? key = none)
    (puts : Puts create key value node result) :
    ∃ otherResult, Puts create key second other otherResult ∧
      Rearranged free result otherResult := by
  have sameSlot : other.child? key = none ↔ node.child? key = none := by
    rcases alike.child? key with ⟨missing, otherMissing⟩ | ⟨_, _, there, otherThere, _⟩
    · simp [missing, otherMissing]
    · simp [there, otherThere]
  unfold Puts at puts ⊢
  simp only [sameSlot]
  split at puts
  next skips =>
    obtain rfl := puts
    exact ⟨other, by rw [if_pos skips], alike⟩
  next writes =>
    obtain ⟨otherResult, written, resultAlike⟩ := alike.setChild valuesAlike closed plain puts
    exact ⟨otherResult, by rwa [if_neg writes], resultAlike⟩

/-- When two children are put in one after the other, the second one counts. -/
theorem exists_puts_iff {create secondCreate : Bool} :
    (∃ between, Puts create key value node between ∧
        Puts secondCreate key second between result) ↔
      Puts (create || secondCreate) key second node result := by
  unfold Puts
  simp only [Bool.or_eq_false_iff]
  constructor
  · rintro ⟨between, first, last⟩
    split at first
    next skips =>
      subst first
      simpa [skips.1, skips.2] using last
    next writes =>
      rw [child?_setChild_self first, if_neg (by simp), setChild_setChild first] at last
      rwa [if_neg fun skips => writes ⟨skips.1, skips.2.1⟩]
  · intro both
    by_cases skips : node.child? key = none ∧ create = false
    · refine ⟨node, by rw [if_pos skips], ?_⟩
      simpa [skips.1, skips.2] using both
    · rw [if_neg fun skipsBoth => skips ⟨skipsBoth.1, skipsBoth.2.1⟩] at both
      obtain ⟨between, written⟩ := exists_setChild both value
      refine ⟨between, by rwa [if_neg skips], ?_⟩
      rwa [child?_setChild_self written, if_neg (by simp), setChild_setChild written]

end Document

end LocalFirst
