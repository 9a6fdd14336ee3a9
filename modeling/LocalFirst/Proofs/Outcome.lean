import Mathlib.Data.List.Forall2
import Mathlib.Data.List.Perm.Basic

/-!
# Successful outcomes

A computation that may fail is opened into its steps: the lemmas here say when a
composite computation gives a value, in terms of the values that its parts give.
-/

namespace Except

universe u v w

variable {ε : Type u} {δ : Type w} {α β : Type v}

@[simp]
theorem bind_eq_ok {outcome : Except ε α} {next : α → Except ε β} {result : β} :
    (outcome >>= next) = .ok result ↔
      ∃ value, outcome = .ok value ∧ next value = .ok result := by
  cases outcome <;> simp [bind, Except.bind]

theorem bind_eq_error {outcome : Except ε α} {next : α → Except ε β} {error : ε} :
    (outcome >>= next) = .error error ↔
      outcome = .error error ∨ ∃ value, outcome = .ok value ∧ next value = .error error := by
  cases outcome <;> simp [bind, Except.bind]

@[simp]
theorem pure_eq_ok {value result : α} :
    (pure value : Except ε α) = .ok result ↔ value = result := by
  simp [pure, Except.pure]

@[simp]
theorem throw_ne_ok {error : ε} {result : α} :
    (throw error : Except ε α) ≠ .ok result := by
  simp [throw, throwThe, MonadExceptOf.throw]

@[simp]
theorem map_eq_ok {outcome : Except ε α} {change : α → β} {result : β} :
    outcome.map change = .ok result ↔ ∃ value, outcome = .ok value ∧ change value = result := by
  cases outcome <;> simp [Except.map]

@[simp]
theorem functorMap_eq_ok {outcome : Except ε α} {change : α → β} {result : β} :
    change <$> outcome = .ok result ↔ ∃ value, outcome = .ok value ∧ change value = result :=
  map_eq_ok

@[simp]
theorem mapError_eq_ok {outcome : Except ε α} {change : ε → δ} {result : α} :
    outcome.mapError change = .ok result ↔ outcome = .ok result := by
  cases outcome <;> simp [Except.mapError]

theorem exists_of_isSome_toOption {outcome : Except ε α} (some : outcome.toOption.isSome = true) :
    ∃ value, outcome = .ok value := by
  cases outcome with
  | ok value => exact ⟨value, rfl⟩
  | error _ => cases some

/-- Reading a list succeeds exactly when reading each of its items does. -/
theorem mapM_eq_ok_iff {read : α → Except ε β} {items : List α} {results : List β} :
    items.mapM read = .ok results ↔
      List.Forall₂ (fun item result => read item = .ok result) items results := by
  induction items generalizing results with
  | nil => cases results <;> simp
  | cons item items ih =>
      cases results with
      | nil => simp
      | cons result results => simp [ih]

theorem exists_mem_of_mapM {read : α → Except ε β} {items : List α} {results : List β}
    (succeeds : items.mapM read = .ok results) {result : β} (member : result ∈ results) :
    ∃ item ∈ items, read item = .ok result := by
  rw [mapM_eq_ok_iff] at succeeds
  induction succeeds with
  | nil => simp at member
  | cons firstRead _ ih =>
      rcases List.mem_cons.1 member with here | there
      · exact ⟨_, List.mem_cons_self, here ▸ firstRead⟩
      · obtain ⟨item, inItems, itemRead⟩ := ih there
        exact ⟨item, List.mem_cons_of_mem _ inItems, itemRead⟩

theorem mem_of_mapM {read : α → Except ε β} {items : List α} {results : List β} {item : α}
    {result : β} (succeeds : items.mapM read = .ok results) (member : item ∈ items)
    (itemRead : read item = .ok result) : result ∈ results := by
  rw [mapM_eq_ok_iff] at succeeds
  induction succeeds with
  | nil => simp at member
  | cons firstRead _ ih =>
      rcases List.mem_cons.1 member with rfl | there
      · cases firstRead.symm.trans itemRead
        exact List.mem_cons_self
      · exact List.mem_cons_of_mem _ (ih there)

/-- A list can be read when each of its items can. -/
theorem exists_mapM_eq_ok {read : α → Except ε β} {items : List α}
    (reads : ∀ item ∈ items, ∃ result, read item = .ok result) :
    ∃ results, items.mapM read = .ok results := by
  induction items with
  | nil => exact ⟨[], rfl⟩
  | cons item rest ih =>
      obtain ⟨⟨result, itemRead⟩, restReads⟩ := List.forall_mem_cons.1 reads
      obtain ⟨results, restRead⟩ := ih restReads
      exact ⟨result :: results, by simp [itemRead, restRead]⟩

/-- When all items that cannot be read fail with the same error, so does the list of them. -/
theorem mapM_eq_error {read : α → Except ε β} {items : List α} {error : ε}
    (fails : ∃ item ∈ items, read item = .error error)
    (only : ∀ item ∈ items, (∃ result, read item = .ok result) ∨ read item = .error error) :
    items.mapM read = .error error := by
  induction items with
  | nil =>
      obtain ⟨_, member, _⟩ := fails
      cases member
  | cons item rest ih =>
      obtain ⟨itemOnly, restOnly⟩ := List.forall_mem_cons.1 only
      rcases itemOnly with ⟨result, itemRead⟩ | itemFails
      · have restFails : ∃ item ∈ rest, read item = .error error := by
          obtain ⟨failing, member, failed⟩ := fails
          rcases List.mem_cons.1 member with rfl | there
          · cases itemRead.symm.trans failed
          · exact ⟨failing, there, failed⟩
        rw [List.mapM_cons, itemRead, ih restFails restOnly]
        rfl
      · rw [List.mapM_cons, itemFails]
        rfl

/-- What reading an item keeps, reading a list of them keeps in order. -/
theorem map_eq_of_mapM {γ : Type w} {read : α → Except ε β} {items : List α} {results : List β}
    (succeeds : items.mapM read = .ok results) {before : α → γ} {after : β → γ}
    (keeps : ∀ item result, read item = .ok result → after result = before item) :
    results.map after = items.map before := by
  rw [mapM_eq_ok_iff] at succeeds
  induction succeeds with
  | nil => rfl
  | cons firstRead _ ih => simp [keeps _ _ firstRead, ih]

/-- A list that is written item by item is read back when each item is. -/
theorem mapM_map_eq_ok {write : β → α} {read : α → Except ε β} {values : List β}
    (reads : ∀ value ∈ values, read (write value) = .ok value) :
    (values.map write).mapM read = .ok values := by
  rw [mapM_eq_ok_iff, List.forall₂_map_left_iff, List.forall₂_same]
  exact reads

/-- Reading items in another order gives the same results in another order. -/
theorem exists_mapM_of_perm {read : α → Except ε β} {items others : List α} {results : List β}
    (permuted : items.Perm others) (succeeds : items.mapM read = .ok results) :
    ∃ otherResults, others.mapM read = .ok otherResults ∧ results.Perm otherResults := by
  obtain ⟨otherResults, alike, permutedResults⟩ :=
    List.perm_comp_forall₂ permuted.symm (mapM_eq_ok_iff.1 succeeds)
  exact ⟨otherResults, mapM_eq_ok_iff.2 alike, permutedResults.symm⟩

/-- What each step keeps, a run of steps keeps. -/
theorem foldlM_preserves {step : β → α → Except ε β} {items : List α} {holds : β → Prop}
    (keeps : ∀ item ∈ items, ∀ before after, holds before → step before item = .ok after →
      holds after) {start result : β} (begins : holds start)
    (ran : items.foldlM step start = .ok result) : holds result := by
  induction items generalizing start with
  | nil =>
      cases ran
      exact begins
  | cons item rest ih =>
      rw [List.foldlM_cons, bind_eq_ok] at ran
      obtain ⟨between, stepRan, restRan⟩ := ran
      obtain ⟨itemKeeps, restKeeps⟩ := List.forall_mem_cons.1 keeps
      exact ih restKeeps (itemKeeps start between begins stepRan) restRan

/-- A run of steps fails as one of them does. -/
theorem error_of_foldlM {step : β → α → Except ε β} {items : List α} {blames : ε → Prop}
    (fails : ∀ item ∈ items, ∀ before error, step before item = .error error → blames error)
    {start : β} {error : ε} (failed : items.foldlM step start = .error error) : blames error := by
  induction items generalizing start with
  | nil => cases failed
  | cons item rest ih =>
      obtain ⟨itemFails, restFails⟩ := List.forall_mem_cons.1 fails
      rw [List.foldlM_cons, bind_eq_error] at failed
      rcases failed with stepFailed | ⟨between, _, restFailed⟩
      · exact itemFails start error stepFailed
      · exact ih restFails restFailed

/-- One computation fails exactly when the other does, and with the same error. -/
def SameErrors (first : Except ε α) (second : Except ε β) : Prop :=
  ∀ error, first = .error error ↔ second = .error error

theorem SameErrors.refl (outcome : Except ε α) : SameErrors outcome outcome :=
  fun _ => .rfl

theorem SameErrors.symm {first : Except ε α} {second : Except ε β}
    (same : SameErrors first second) : SameErrors second first :=
  fun error => (same error).symm

theorem SameErrors.trans {γ : Type v} {first : Except ε α} {second : Except ε β}
    {third : Except ε γ} (same : SameErrors first second) (following : SameErrors second third) :
    SameErrors first third :=
  fun error => (same error).trans (following error)

theorem sameErrors_ok (value : α) (other : β) :
    SameErrors (.ok value : Except ε α) (.ok other) :=
  fun _ => by simp

/-- What fails like a success gives a value. -/
theorem SameErrors.eq_ok {outcome : Except ε α} {other : β}
    (same : SameErrors outcome (.ok other)) : ∃ value, outcome = .ok value := by
  cases outcome with
  | error error => exact absurd ((same error).1 rfl) (by simp)
  | ok value => exact ⟨value, rfl⟩

theorem SameErrors.bind {γ η : Type v} {first : Except ε α} {second : Except ε β}
    {next : α → Except ε γ} {following : β → Except ε η} (same : SameErrors first second)
    (goesOn : ∀ value other, first = .ok value → second = .ok other →
      SameErrors (next value) (following other)) :
    SameErrors (first >>= next) (second >>= following) := by
  cases first with
  | error error =>
      rw [(same error).1 rfl]
      exact fun _ => by simp [Bind.bind, Except.bind]
  | ok value =>
      cases second with
      | error error => exact absurd ((same error).2 rfl) (by simp)
      | ok other => exact goesOn value other rfl rfl

/-- Changing the value keeps the errors. -/
theorem sameErrors_map (outcome : Except ε α) (change : α → β) :
    SameErrors (outcome.map change) outcome := by
  cases outcome <;> exact fun _ => by simp [Except.map]

theorem SameErrors.mapError {first : Except ε α} {second : Except ε β} {change : ε → δ}
    (same : SameErrors first second) :
    SameErrors (first.mapError change) (second.mapError change) := by
  cases first with
  | error error =>
      rw [(same error).1 rfl]
      exact fun _ => by simp [Except.mapError]
  | ok value =>
      cases second with
      | error error => exact absurd ((same error).2 rfl) (by simp)
      | ok other => exact sameErrors_ok value other

/-- Reading a list fails like reading some of its items in the same order, when those that are
left out can be read. -/
theorem sameErrors_mapM_filter {γ η : Type v} {read : α → Except ε β}
    {readKept : γ → Except ε η} {keep : α → Bool} {change : α → γ} {items : List α}
    (leftOut : ∀ item ∈ items, keep item = false → ∃ value, read item = .ok value)
    (kept : ∀ item ∈ items, keep item = true →
      SameErrors (read item) (readKept (change item))) :
    SameErrors (items.mapM read) (((items.filter keep).map change).mapM readKept) := by
  induction items with
  | nil => exact sameErrors_ok _ _
  | cons item rest ih =>
      obtain ⟨firstLeftOut, restLeftOut⟩ := List.forall_mem_cons.1 leftOut
      obtain ⟨firstKept, restKept⟩ := List.forall_mem_cons.1 kept
      have restSame := ih restLeftOut restKept
      cases keeps : keep item with
      | true =>
          rw [List.filter_cons_of_pos keeps, List.map_cons, List.mapM_cons, List.mapM_cons]
          exact (firstKept keeps).bind fun _ _ _ _ =>
            restSame.bind fun _ _ _ _ => sameErrors_ok _ _
      | false =>
          obtain ⟨value, itemRead⟩ := firstLeftOut keeps
          rw [List.filter_cons_of_neg (by simp [keeps]), List.mapM_cons, itemRead]
          exact (sameErrors_map _ (List.cons value)).trans restSame

/-- Both computations succeed with related results, or both fail with the same error. -/
def Corresponds (related : α → β → Prop) : Except ε α → Except ε β → Prop
  | .ok result, .ok other => related result other
  | .error fault, .error otherFault => fault = otherFault
  | _, _ => False

section Corresponds

variable {γ η : Type v} {related : α → β → Prop} {following : γ → η → Prop}
  {first : Except ε α} {second : Except ε β}

theorem corresponds_iff : Corresponds related first second ↔
    (∃ result other, first = .ok result ∧ second = .ok other ∧ related result other) ∨
      ∃ fault, first = .error fault ∧ second = .error fault := by
  cases first <;> cases second <;> simp [Corresponds, eq_comm]

theorem Corresponds.bind {next : α → Except ε γ} {otherNext : β → Except ε η}
    (corresponds : Corresponds related first second)
    (goesOn : ∀ result other, related result other →
      Corresponds following (next result) (otherNext other)) :
    Corresponds following (first >>= next) (second >>= otherNext) := by
  rcases corresponds_iff.1 corresponds with
    ⟨result, other, rfl, rfl, isRelated⟩ | ⟨fault, rfl, rfl⟩
  · exact goesOn result other isRelated
  · rfl

theorem Corresponds.mapError {change : ε → δ} (corresponds : Corresponds related first second) :
    Corresponds related (first.mapError change) (second.mapError change) := by
  rcases corresponds_iff.1 corresponds with
    ⟨result, other, rfl, rfl, isRelated⟩ | ⟨fault, rfl, rfl⟩
  · exact isRelated
  · rfl

/-- Where the steps of two runs correspond one by one, so do the runs. -/
theorem Corresponds.foldlM {steps : List γ} {otherSteps : List η} {step : α → γ → Except ε α}
    {otherStep : β → η → Except ε β} (alike : List.Forall₂ following steps otherSteps)
    (stepsCorrespond : ∀ value other before otherBefore, following value other →
      related before otherBefore →
        Corresponds related (step before value) (otherStep otherBefore other))
    {start : α} {otherStart : β} (begins : related start otherStart) :
    Corresponds related (steps.foldlM step start) (otherSteps.foldlM otherStep otherStart) := by
  induction alike generalizing start otherStart with
  | nil => exact begins
  | cons stepRelated _ ih =>
      rw [List.foldlM_cons, List.foldlM_cons]
      exact (stepsCorrespond _ _ start otherStart stepRelated begins).bind fun _ _ => ih

end Corresponds

end Except
