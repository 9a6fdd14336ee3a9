import LocalFirst.Proofs.UnreachedQueue

/-!
# What a repush counts

A repush collects the entries of the queue by entity and adds up their counts.  Each entity is
listed once, with all the commits that are queued of it, and the rounds keep the count as long as
each of them does.
-/

namespace LocalFirst

/-- What is left of a repush keeps to the ceiling: it counts of every entity what may be queued. -/
def Repush.KeepsTo (ceiling : EntityKey → Option Nat) (repush : Repush) : Prop :=
  ∀ entry ∈ repush.remaining, ceiling entry.1 = some entry.2.toNat

/-- A call waits for the answer to a push of all that is queued of an entity, and what comes behind
it keeps to the ceiling. -/
def Flight.Covers (ceiling : EntityKey → Option Nat) (state : LocalState) : Flight → Prop
  | .push job next => job.Covers state ∧ ∀ repush, next = some repush → repush.KeepsTo ceiling
  | _ => False

def Progress.Covers (ceiling : EntityKey → Option Nat) (state : LocalState) : Progress → Prop
  | .finished _ => True
  | .waiting suspended => suspended.flight.Covers ceiling state

namespace LocalState

/-- What comes back for a fetch holds no id of an entity with pending commits. -/
def TakesIn (state : LocalState) (entityName : String) (response : Except RemoteError Fetched) :
    Prop :=
  ∀ fetched, response = .ok fetched → ∀ id, fetched.entity.HoldsId id →
    state.pending ⟨entityName, id⟩ = []

theorem TakesIn.of_entities {state next : LocalState} {entityName : String}
    {response : Except RemoteError Fetched} (takesIn : state.TakesIn entityName response)
    (same : next.entities = state.entities) : next.TakesIn entityName response := by
  intro fetched isOk id holdsId
  rw [pending_of_entities same]
  exact takesIn fetched isOk id holdsId

end LocalState

namespace Client

variable {limit : Option Nat} {ceiling : EntityKey → Option Nat}

section Counts

open queuedEntities (add)

/-- The first count of an entity, zero when there is none. -/
def countOf (key : EntityKey) : List (EntityKey × UInt64) → UInt64
  | [] => 0
  | (other, total) :: rest => if other = key then total else countOf key rest

theorem countOf_add (queued : List (EntityKey × UInt64)) (key : EntityKey) (count : UInt64)
    (other : EntityKey) :
    countOf other (add queued key count) =
      countOf other queued + if key = other then count else 0 := by
  induction queued with
  | nil => simp [add, countOf]
  | cons entry rest ih =>
      obtain ⟨first, total⟩ := entry
      rw [add]
      by_cases here : first = key
      · subst here
        by_cases same : first = other <;> simp [countOf, same]
      · by_cases same : first = other
        · subst same
          simp [countOf, here, Ne.symm here]
        · simp [countOf, here, same, ih]

theorem map_fst_add (queued : List (EntityKey × UInt64)) (key : EntityKey) (count : UInt64) :
    (add queued key count).map Prod.fst =
      if key ∈ queued.map Prod.fst then queued.map Prod.fst
      else queued.map Prod.fst ++ [key] := by
  induction queued with
  | nil => rfl
  | cons entry rest ih =>
      obtain ⟨other, total⟩ := entry
      rw [add]
      by_cases same : other = key
      · simp [same]
      · simp only [if_neg same, List.map_cons, ih, List.mem_cons, Ne.symm same, false_or]
        split <;> rfl

theorem nodup_add {queued : List (EntityKey × UInt64)} (distinct : (queued.map Prod.fst).Nodup)
    (key : EntityKey) (count : UInt64) : ((add queued key count).map Prod.fst).Nodup := by
  rw [map_fst_add]
  split
  · exact distinct
  next absent => exact List.nodup_append.2 ⟨distinct, by simp, by grind⟩

/-- Under distinct keys, every count is the first one of its entity. -/
theorem countOf_of_mem {queued : List (EntityKey × UInt64)}
    (distinct : (queued.map Prod.fst).Nodup) {key : EntityKey} {count : UInt64}
    (member : (key, count) ∈ queued) : countOf key queued = count := by
  induction queued with
  | nil => cases member
  | cons entry rest ih =>
      obtain ⟨other, total⟩ := entry
      obtain ⟨absent, restDistinct⟩ := List.nodup_cons.1 distinct
      rcases List.mem_cons.1 member with here | there
      · cases here
        exact if_pos rfl
      · have apart : ¬ other = key := by
          rintro rfl
          exact absent (List.mem_map.2 ⟨_, there, rfl⟩)
        rw [countOf, if_neg apart]
        exact ih restDistinct there

theorem nodup_queuedEntities (entries : List UnreachedCommit) :
    ((queuedEntities entries).map Prod.fst).Nodup := by
  let Distinct (queued : List (EntityKey × UInt64)) : Prop := (queued.map Prod.fst).Nodup
  have none : Distinct [] := .nil
  exact List.foldlRecOn entries _ none fun _ distinct _ _ => nodup_add distinct _ _

/-- A repush counts the entities about which there are entries. -/
theorem mem_map_fst_queuedEntities (entries : List UnreachedCommit) (key : EntityKey) :
    key ∈ (queuedEntities entries).map Prod.fst ↔ ∃ entry ∈ entries, entry.key = key := by
  have adds : ∀ (entries : List UnreachedCommit) (queued : List (EntityKey × UInt64)),
      key ∈ (entries.foldl (fun queued entry =>
        add queued ⟨entry.entityName, entry.id⟩ entry.commitCount) queued).map Prod.fst ↔
      key ∈ queued.map Prod.fst ∨ ∃ entry ∈ entries, entry.key = key := by
    intro entries
    induction entries with
    | nil => simp
    | cons entry rest ih =>
        intro queued
        rw [List.foldl_cons, ih, map_fst_add]
        simp only [List.mem_cons, or_and_right, exists_or, exists_eq_left, ← or_assoc]
        refine or_congr_left ?_
        change _ ↔ _ ∨ (⟨entry.entityName, entry.id⟩ : EntityKey) = key
        split
        next present => exact (or_iff_left_of_imp fun here => here ▸ present).symm
        · rw [List.mem_append, List.mem_singleton, eq_comm]
  rw [queuedEntities, adds]
  simp

/-- A repush counts of an entity what the entries about it come to. -/
theorem countOf_queuedEntities (state : LocalState) (key : EntityKey) :
    countOf key (queuedEntities state.unreachedCommits) =
      state.enqueuedCommitCount key.entityName key.id := by
  have adds : ∀ (entries : List UnreachedCommit) (queued : List (EntityKey × UInt64)),
      countOf key (entries.foldl (fun queued entry =>
        add queued ⟨entry.entityName, entry.id⟩ entry.commitCount) queued) =
      countOf key queued + (entries.filter fun entry =>
        entry.entityName == key.entityName && entry.id == key.id).foldr
          (fun entry total => entry.commitCount + total) 0 := by
    intro entries
    induction entries with
    | nil => simp
    | cons entry rest ih =>
        intro queued
        rw [List.foldl_cons, ih, countOf_add, List.filter_cons, UInt64.add_assoc]
        by_cases about : (⟨entry.entityName, entry.id⟩ : EntityKey) = key
        · rw [if_pos about, if_pos (UnreachedCommit.key_eq_iff.1 about), List.foldr_cons]
        · rw [if_neg about, if_neg fun kept => about (UnreachedCommit.key_eq_iff.2 kept),
            UInt64.zero_add]
  rw [queuedEntities, adds, countOf, UInt64.zero_add]
  rfl

/-- A repush counts every entity once, with as many commits as the queue holds of it. -/
theorem mem_queuedEntities {state : LocalState} {key : EntityKey} {count : UInt64}
    (member : (key, count) ∈ queuedEntities state.unreachedCommits) :
    count = state.enqueuedCommitCount key.entityName key.id := by
  rw [← countOf_queuedEntities, countOf_of_mem (nodup_queuedEntities _) member]

end Counts

theorem repushRule_tallies : RepushRule fun queued next =>
    (∀ entry ∈ queued, ceiling entry.1 = some entry.2.toNat) →
      Tallies limit ceiling (fun _ => True) next
        fun progress state => progress.Covers ceiling state where
  finished _ _ _ := tallies_pure fun _ _ => trivial
  looks rest keepsTo := spares_snapshot.thenTallies fun state => rest state keepsTo
  retires key count rest keepsTo := (tallies_retire key count).bind fun _ => rest keepsTo
  pushes {key count remaining outcomes next} sends rest keepsTo := by
    obtain ⟨isCeiling, restKeepsTo⟩ := List.forall_mem_cons.1 keepsTo
    have begins : Tallies limit ceiling (fun _ => True) (beginPush key (ceiling key))
        fun start state => start.Covers state := tallies_beginPush key
    rw [isCeiling] at begins
    refine begins.bind fun start => ?_
    cases start with
    | sent tag job =>
        rw [sends]
        refine tallies_pure fun state covers => ⟨covers, ?_⟩
        rintro _ ⟨⟩
        exact restKeepsTo
    | ended outcome => exact fun client tallied _ => rest outcome keepsTo client tallied trivial
  later rest keepsTo := rest (List.forall_mem_cons.1 keepsTo).2

theorem tallies_afterPush (outcome : PushOutcome) {next : Option Repush}
    (keepsTo : ∀ repush, next = some repush → repush.KeepsTo ceiling) :
    Tallies limit ceiling (fun _ => True) (afterPush outcome next)
      fun progress state => progress.Covers ceiling state := by
  cases next with
  | none => exact tallies_pure fun _ _ => trivial
  | some repush => exact repushRule_tallies.afterPush outcome repush (keepsTo repush rfl)

end Client

end LocalFirst
